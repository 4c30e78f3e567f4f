import SerialLink.Proofs.Transport.Callbacks
import SerialLink.Proofs.Transport.Hearing
import SerialLink.Proofs.Transport.Overtaking

/-!
# The receiving side

As long as numbering does not start anew, a transport hands over the data frames that arrive as a
scan of them would pick them: each one that has the number expected next when its turn comes. What
the transport sends meanwhile, what is acknowledged to it, when things happen and what its sink does
make no difference.

`inSequence` is the scan, a function of the frames alone, and `Steady` says that numbering goes on.
`Effect.deliveries_eq` is the step: one operation hands over the scan of what arrives in it, and
expects the number behind. A run follows by `inSequence_append`. That every data frame is answered
at once comes from `receive_data` in `Proofs.Transport.Overtaking`, and that it is counted from
`Proofs.Transport.Hearing`.
-/

namespace SerialLink

variable {σ ε : Type}

/-! ## The frames in sequence -/

/-- Those of the frames that have the number expected when their turn comes, `next` at first. A
frame that does not is passed over, and the number stays. -/
def inSequence (next : UInt8) : List Frame → List Frame
  | [] => []
  | f :: rest => if f.seq = next then f :: inSequence (next + 1) rest else inSequence next rest

/-- Numbers are counted modulo 256. -/
theorem toNat_add_toUInt8 (a : UInt8) (n : Nat) : (a + n.toUInt8).toNat = (a.toNat + n) % 256 := by
  simp only [Nat.toUInt8_eq, UInt8.toNat_add, UInt8.toNat_ofNat']
  omega

section scan

variable {next : UInt8} {frames : List Frame}

/-- `inSequence` goes on where it stopped: the number is further by as many frames as it picked. -/
theorem inSequence_append (next : UInt8) (frames frames' : List Frame) :
    inSequence next (frames ++ frames') = inSequence next frames ++
      inSequence (next + (inSequence next frames).length.toUInt8) frames' := by
  induction frames generalizing next with
  | nil => simp [inSequence]
  | cons f rest ih =>
    rw [List.cons_append, inSequence, inSequence]
    split
    · rw [ih, List.cons_append, List.length_cons]
      have hnext : next + 1 + (inSequence (next + 1) rest).length.toUInt8 =
          next + ((inSequence (next + 1) rest).length + 1).toUInt8 := by
        simp only [Nat.toUInt8_eq, UInt8.ofNat_add]
        grind
      rw [hnext]
    · exact ih next

/-- The frames are picked, in order, and none is made up. -/
theorem inSequence_sublist (next : UInt8) (frames : List Frame) :
    (inSequence next frames).Sublist frames := by
  induction frames generalizing next with
  | nil => exact .slnil
  | cons f rest ih =>
    rw [inSequence]
    split
    · exact (ih (next + 1)).cons_cons f
    · exact (ih next).cons f

/-- The frames picked are numbered one after the other. -/
theorem seq_of_inSequence {n : Nat} {f : Frame} (h : (inSequence next frames)[n]? = some f) :
    f.seq = next + n.toUInt8 := by
  -- By induction on the frames scanned: one that is picked takes one off `n`.
  induction frames generalizing next n with
  | nil => simp [inSequence] at h
  | cons g rest ih =>
    rw [inSequence] at h
    split at h
    · next hseq =>
      cases n with
      | zero =>
        obtain rfl : g = f := by simpa using h
        simpa using hseq
      | succ n =>
        rw [List.getElem?_cons_succ] at h
        rw [ih h]
        simp only [Nat.toUInt8_eq, UInt8.ofNat_add]
        grind
    · exact ih h

end scan

/-! ## What is handed over -/

/-- The frame that a `delivered` event hands over. -/
def Event.delivered? : Event ε → Option Frame
  | .delivered f => some f
  | .attempted _ _ | .abandoned _ => none

/-- The frames handed over, in order. -/
def deliveries (events : List (Event ε)) : List Frame := events.filterMap Event.delivered?

section deliveries

variable (events : List (Event ε))

@[simp]
theorem deliveries_nil : deliveries ([] : List (Event ε)) = [] := rfl

@[simp]
theorem deliveries_append (events' : List (Event ε)) :
    deliveries (events ++ events') = deliveries events ++ deliveries events' :=
  List.filterMap_append

@[simp]
theorem deliveries_delivered (f : Frame) :
    deliveries (.delivered f :: events) = f :: deliveries events := rfl

@[simp]
theorem deliveries_attempted (f : Frame) (result : Except (SendError ε) Nat) :
    deliveries (.attempted f result :: events) = deliveries events := rfl

end deliveries

theorem deliveries_eq_nil {events : List (Event ε)} (h : ∀ f, Event.delivered f ∉ events) :
    deliveries events = [] := by
  apply List.filterMap_eq_nil_iff.mpr
  intro x hx
  cases x with
  | attempted | abandoned => rfl
  | delivered f => exact absurd hx (h f)

namespace Transport

/-! ## Steady operation -/

namespace Operation

/-- Numbering goes on: no reset is called for or arrives, and a tick with these events gives up
nothing. -/
def Steady (events : List (Event ε)) : Operation σ → Prop
  | .service _ _ => failures events = []
  | .receive _ f _ => f.id ≠ .reset
  | .reset _ _ => False
  | .send _ | .noteHeard _ => True

instance (events : List (Event ε)) : (op : Operation σ) → Decidable (op.Steady events)
  | .service _ _ => inferInstanceAs (Decidable (failures events = []))
  | .receive _ f _ => inferInstanceAs (Decidable (f.id ≠ .reset))
  | .reset _ _ => inferInstanceAs (Decidable False)
  | .send _ | .noteHeard _ => inferInstanceAs (Decidable True)

end Operation

variable [ByteSink σ ε] {t t' : Transport}

/-- All that operations in order do, as `Transport.run` goes through them. -/
def events (t : Transport) : List (Operation σ) → List (Event ε)
  | [] => []
  | op :: ops => (t.perform op).2 ++ (t.perform (ε := ε) op).1.events ops

/-- Numbering goes on from the first operation to the last. -/
def Steady (t : Transport) : List (Operation σ) → Prop
  | [] => True
  | op :: ops => op.Steady (t.perform (ε := ε) op).2 ∧ (t.perform (ε := ε) op).1.Steady ops

instance decidableSteady (t : Transport) :
    (ops : List (Operation σ)) → Decidable (t.Steady (ε := ε) ops)
  | [] => inferInstanceAs (Decidable True)
  | op :: ops =>
    have := decidableSteady (t.perform (ε := ε) op).1 ops
    inferInstanceAs (Decidable (_ ∧ _))

/-! ## One operation -/

/-- **What is handed over is the data frame that arrives, if it is the one expected.** -/
theorem Effect.deliveries_eq {op : Operation σ} {events : List (Event ε)}
    (he : t.Effect op events t') (hsteady : op.Steady events) :
    deliveries events = inSequence t.expected op.arrival?.toList ∧
      t'.expected = t.expected + (deliveries events).length.toUInt8 := by
  -- Where nothing arrives, nothing is handed over.
  have hquiet : op.arrival? = none → (∀ f, Event.delivered f ∉ events) →
      t'.expected = t.expected → deliveries events = inSequence t.expected op.arrival?.toList ∧
        t'.expected = t.expected + (deliveries events).length.toUInt8 := by
    intro hnone hevents hexpected
    rw [hnone, deliveries_eq_nil hevents]
    exact ⟨rfl, by simpa using hexpected⟩
  cases he with
  | refused | heard => exact hquiet rfl (by simp) rfl
  | queued _ _ _ _ _ _ hu => exact hquiet rfl (by simp) hu.expected
  | blocked _ hnotice hu => exact hquiet rfl hnotice.not_delivered hu.expected
  | swept hflush hswept _ hacks hu =>
    obtain ⟨stats, sink, rfl⟩ := hswept
    refine hquiet rfl (fun f => ?_) hu.expected
    simp [not_delivered_flush hflush, not_delivered_sweep, hacks.not_delivered]
  | gaveUp hflush hswept hsome hnotice hacks hu =>
    obtain ⟨stats, sink, rfl⟩ := hswept
    have hnone : failures _ = [] := hsteady
    rw [failures_gaveUp hflush hnotice hacks] at hnone
    exact absurd hnone (lost_ne_nil hsome)
  | passed hid => exact hquiet (by simp [Operation.arrival?, Frame.isData, hid]) (by simp) rfl
  | spurious hid _ hu =>
    exact hquiet (by simp [Operation.arrival?, Frame.isData, hid]) (by simp) hu.expected
  | acked hid => exact hquiet (by simp [Operation.arrival?, Frame.isData, hid]) (by simp) rfl
  | delivered hid hseq hu | unexpected hid hseq hu =>
    simp [Operation.arrival?, Frame.isData, hid, inSequence, hseq, hu.expected]
  | told hid => exact absurd hid hsteady
  | dropped | reset => exact absurd hsteady id

/-! ## Runs -/

/-- **A run hands over what a scan of the arriving frames picks.** -/
theorem Steady.deliveries_eq {ops : List (Operation σ)} (h : t.Steady (ε := ε) ops) :
    deliveries (t.events (ε := ε) ops) = inSequence t.expected (arrivals ops) ∧
      (t.run (ε := ε) ops).expected =
        t.expected + (deliveries (t.events (ε := ε) ops)).length.toUInt8 := by
  induction ops generalizing t with
  | nil => exact ⟨rfl, by simp [run, events]⟩
  | cons op ops ih =>
    obtain ⟨hop, hrest⟩ := h
    obtain ⟨hfirst, hexpected⟩ := (t.perform_effect (ε := ε) op).deliveries_eq hop
    obtain ⟨hothers, hlast⟩ := ih hrest
    constructor
    · rw [events, deliveries_append, arrivals_cons, inSequence_append, hothers, hexpected, hfirst]
    · have hrun : t.run (ε := ε) (op :: ops) = (t.perform (ε := ε) op).1.run (ε := ε) ops := rfl
      rw [hrun, hlast, hexpected, events, deliveries_append, List.length_append]
      simp only [Nat.toUInt8_eq, UInt8.ofNat_add]
      grind

/-- **What is handed over depends on the arriving data frames alone.** From any state, as long as
numbering goes on, the data frames handed over are those that a scan of the arriving ones picks,
numbered one after the other from the number expected first; the number expected last is as much
further. Every data frame that arrives is answered by one attempt to acknowledge, after it is handed
over if it is, with the number expected then, and is counted. Any other run that starts with the
same number expected and in which the same data frames arrive hands over the same ones. -/
theorem receives_in_sequence (t : Transport) (ops : List (Operation σ))
    (hsteady : t.Steady (ε := ε) ops) :
    let handed := deliveries (t.events (ε := ε) ops)
    let t' := t.run (ε := ε) ops
    handed = inSequence t.expected (arrivals ops) ∧
    (∀ (n : Nat) (f : Frame), handed[n]? = some f →
      f ∈ arrivals ops ∧ f.seq.toNat = (t.expected.toNat + n) % 256) ∧
    t'.expected.toNat = (t.expected.toNat + handed.length) % 256 ∧
    (∀ before now (f : Frame) (sink : σ) after,
      ops = before ++ .receive now f sink :: after → f.isData →
        let u := t.run (ε := ε) before
        let turn := u.receive now f sink
        ∃ result, turn.events = (if f.seq = u.expected then [.delivered f] else []) ++
          [.attempted (Frame.ack turn.transport.expected) result]) ∧
    t'.stats.arrivals = t.stats.arrivals + (arrivals ops).length.toUInt32 ∧
    ∀ {σ₂ ε₂ : Type} [ByteSink σ₂ ε₂] (t₂ : Transport) (ops₂ : List (Operation σ₂)),
      t₂.Steady (ε := ε₂) ops₂ → t₂.expected = t.expected → arrivals ops₂ = arrivals ops →
        deliveries (t₂.events (ε := ε₂) ops₂) = handed := by
  intro handed t'
  obtain ⟨hhanded, hexpected⟩ := hsteady.deliveries_eq
  refine ⟨hhanded, ?_, ?_, ?_, (t.counts_run ops).arrivals, ?_⟩
  · intro n f hn
    unfold handed at hn
    rw [hhanded] at hn
    refine ⟨(inSequence_sublist _ _).subset (List.mem_of_getElem? hn), ?_⟩
    rw [seq_of_inSequence hn, toNat_add_toUInt8]
  · rw [← toNat_add_toUInt8]
    exact congrArg UInt8.toNat hexpected
  · -- One arrival says what it does from any state, so where it stands in the run is no matter.
    intro before now f sink after _ hdata u turn
    obtain ⟨id, hid⟩ := Frame.exists_of_isData hdata
    obtain ⟨hevents, hu⟩ := u.receive_data now hid sink
    refine ⟨(transmit sink (u.answer f)).1, ?_⟩
    unfold turn
    rw [hevents, hu.expected]
    rfl
  · intro σ₂ ε₂ _ t₂ ops₂ hsteady₂ hexpected₂ harrivals₂
    rw [hsteady₂.deliveries_eq.1, hexpected₂, harrivals₂]
    exact hhanded.symm

/-- Data frames arrive around the wrap of the numbers: the one expected, the same once more, one
that is ahead, and the next one expected. -/
def aroundWrap : List Frame :=
  [⟨.data 1, 255, .singleton 0x11⟩, ⟨.data 1, 255, .singleton 0x11⟩, ⟨.data 2, 1, .singleton 0x22⟩,
    ⟨.data 2, 0, .singleton 0x12⟩]

/-- Between the frames the transport sends one of its own, and its sink has no room at first. -/
def busyArrivals : List (Operation (TxQueue 64)) :=
  let crowded : TxQueue 64 := ⟨List.replicate 62 0, by decide⟩
  [.receive 0 ⟨.data 1, 255, .singleton 0x11⟩ crowded, .send ⟨3, [0x33]⟩,
    .receive 1 ⟨.data 1, 255, .singleton 0x11⟩ .empty, .service 2 .empty,
    .receive 3 (Frame.ack 1) .empty, .receive 4 ⟨.data 2, 1, .singleton 0x22⟩ .empty,
    .receive 5 ⟨.data 2, 0, .singleton 0x12⟩ .empty]

theorem receives_in_sequence_busyArrivals :
    let t := { ofConfig .standard with expected := 255 }
    let bare : List (Operation (TxQueue 64)) := aroundWrap.map (.receive 0 · .empty)
    let handed := deliveries (t.events busyArrivals)
    t.Steady busyArrivals ∧ t.Steady bare ∧ arrivals bare = arrivals busyArrivals ∧
      handed = [⟨.data 1, 255, .singleton 0x11⟩, ⟨.data 2, 0, .singleton 0x12⟩] ∧
      (t.run busyArrivals).expected.toNat = 1 ∧ (t.run busyArrivals).stats.arrivals = 4 ∧
      deliveries (t.events bare) = handed := by
  intro t bare handed
  have hsteady : t.Steady busyArrivals := by decide +kernel
  have hbare : t.Steady bare := by decide +kernel
  have hsame : arrivals bare = arrivals busyArrivals := by decide +kernel
  obtain ⟨hhanded, -, hexpected, -, hcount, hother⟩ := receives_in_sequence t busyArrivals hsteady
  have hpicked : handed = [⟨.data 1, 255, .singleton 0x11⟩, ⟨.data 2, 0, .singleton 0x12⟩] :=
    hhanded.trans (by decide +kernel)
  refine ⟨hsteady, hbare, hsame, hpicked, ?_, hcount.trans (by decide +kernel),
    hother t bare hbare rfl hsame⟩
  rw [hexpected]
  exact congrArg (fun frames : List Frame => (255 + frames.length) % 256) hpicked

end Transport

end SerialLink
