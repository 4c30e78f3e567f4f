import SerialLink.Proofs.Link.Move
import Mathlib.Logic.Relation

/-!
# Operations as sequences of moves

Everything that a transport does in one operation is accounted for by moves of its station, one for
each effect and one for each change of the queue.

`Station.Accounted` says this of the effects of a turn, and goes along with the parts that the turn
is made of: there is one lemma for each of `Transport.sendAck`, `repeatAck`, `sendReset`,
`flushReset`, `giveUp`, `reset`, `sweep` and `serviceQueue`, put together by `Accounted.trans`. The
difficulty is in the record and not in the transport: a turn is recorded as a whole, against the
queue before it, while the moves are taken one at a time. `observe_congr` says what a record depends
on, so that it may be cut in two (`foldl_observe_append`).

The result is `moves_act`. With it `Link.invariant_run` turns a property that each `Link.Move` keeps
into one of every run; the modules on order, agreement and delivery never open an operation.
-/

namespace SerialLink

variable {σ ε : Type} [ByteSink σ ε] {mayReset : Prop}

/-- The effect is recorded alike whatever is queued. Data frames and reports are not: `observe`
looks both up in the queue. -/
def Event.Control : Event ε → Prop
  | .attempted f _ => f.id = .ack ∨ f.id = .reset
  | .delivered _ => True
  | .abandoned _ => False

namespace Station

variable {s s' : Station}

/-- What a station can come to by itself: any number of `Station.Move`. -/
abbrev Moves (mayReset : Prop) : Station → Station → Prop := Relation.ReflTransGen (Move mayReset)

theorem Sound.moves (h : s.Sound) (hm : Moves mayReset s s') : s'.Sound := by
  induction hm with
  | refl => exact h
  | tail _ hm ih => exact ih.move hm

/-! ## Records of consecutive turns -/

/-- `observe` changes the transport only in whether a reset is pending, and needs to know of the
transport only that and the numbers queued; these not even for an effect that is `Control`. -/
theorem observe_congr (s : Station) (t : Transport) (e : Event ε)
    (hq : e.Control ∨ t.queue.map Entry.seq = s.transport.queue.map Entry.seq)
    (hp : t.resetPending = s.transport.resetPending) :
    observe { s with transport := t } e =
      { observe s e with
        transport := { t with resetPending := (observe s e).transport.resetPending } } := by
  have hepoch : epoch { s with transport := t } = s.epoch := by simp only [epoch, hp]
  -- Reports and data frames are looked up by their numbers; nothing else depends on the queue.
  have hplace : t.queue.map Entry.seq = s.transport.queue.map Entry.seq →
      place { s with transport := t } = s.place := by
    intro hq
    have hlen := congrArg List.length hq
    simp only [List.length_map] at hlen
    funext seq
    simp only [place, departed, hq, hlen]
  cases e with
  | delivered f => simp [observe, ← hp]
  | abandoned failure =>
    -- A report is not `Control`, so the numbers queued are known to agree.
    have hq := hq.resolve_left id
    simp [observe, hplace hq, ← hp]
  | attempted f r =>
    cases r with
    | error _ =>
      -- A reset that could not be sent is owed, whatever was owed before.
      by_cases hf : f.id = .reset
      · simp [observe, hf]
      · simp [observe, hf, ← hp]
    | ok n =>
      cases hf : f.id with
      | data id =>
        have hq := hq.resolve_left (by simp [Event.Control, hf])
        simp [observe, write, hf, hplace hq, hepoch, ← hp]
      | reset => simp [observe, write, hf]
      | ack => simp [observe, write, hf, hepoch, ← hp]
      | app id => simp [observe, write, hf, hepoch, ← hp]

/-- All of the transport but `resetPending` is left by `observe`. -/
theorem observe_transport (s : Station) (e : Event ε) :
    (observe s e).transport =
      { s.transport with resetPending := (observe s e).transport.resetPending } := by
  have h := observe_congr s s.transport e (.inr rfl) rfl
  exact congrArg Station.transport h

/-- The same for a list of effects. -/
theorem foldl_observe_congr (s : Station) (t : Transport) (events : List (Event ε))
    (hq : (∀ e ∈ events, e.Control) ∨ t.queue.map Entry.seq = s.transport.queue.map Entry.seq)
    (hp : t.resetPending = s.transport.resetPending) :
    events.foldl observe { s with transport := t } =
      { events.foldl observe s with
        transport :=
          { t with resetPending := (events.foldl observe s).transport.resetPending } } := by
  -- One effect changes neither the numbers queued nor whether the two agree on the reset.
  induction events generalizing s t with
  | nil => simp [← hp]
  | cons e events ih =>
    have hq₁ : e.Control ∨ t.queue.map Entry.seq = s.transport.queue.map Entry.seq :=
      hq.imp_left fun h => h e (List.mem_cons_self ..)
    have hq₂ : (∀ e ∈ events, e.Control) ∨
        t.queue.map Entry.seq = (observe s e).transport.queue.map Entry.seq := by
      rw [observe_transport]
      exact hq.imp_left fun h x hx => h x (List.mem_cons_of_mem _ hx)
    rw [List.foldl_cons, observe_congr s t e hq₁ hp]
    exact ih _ _ hq₂ rfl

theorem record_congr {t t' : Transport} {events : List (Event ε)}
    (hp : t.resetPending = s.transport.resetPending) (he : ∀ e ∈ events, e.Control) :
    record { s with transport := t } events t' = s.record events t' := by
  unfold record
  rw [foldl_observe_congr s t events (.inl he) hp]

/-- A turn is recorded in two parts when the second part starts from what it has to know: the
numbers queued before the turn, unless all it records is `Control`. -/
theorem foldl_observe_append {events₁ events₂ : List (Event ε)} {t : Transport}
    (hq : (∀ e ∈ events₂, e.Control) ∨ t.queue.map Entry.seq = s.transport.queue.map Entry.seq)
    (hp : t.resetPending = (events₁.foldl observe s).transport.resetPending) :
    events₂.foldl observe (s.record events₁ t) =
      { (events₁ ++ events₂).foldl observe s with
        transport := { t with
          resetPending := ((events₁ ++ events₂).foldl observe s).transport.resetPending } } := by
  have hqueue : (events₁.foldl observe s).transport.queue = s.transport.queue := by
    have h := foldl_observe_congr s s.transport events₁ (.inr rfl) rfl
    exact congrArg (·.transport.queue) h
  rw [List.foldl_append]
  exact foldl_observe_congr (events₁.foldl observe s) t events₂ (by rwa [hqueue]) hp

/-! ## Accounting for turns -/

/-- `Moves` account for the effects of a turn that ends with the transport `t`, and the effects tell
whether a reset is pending then. The second part is what lets two turns be joined. -/
structure Accounted (mayReset : Prop) (s : Station) (events : List (Event ε)) (t : Transport) :
    Prop where
  moves : Moves mayReset s (s.record events t)
  pending : t.resetPending = (events.foldl observe s).transport.resetPending

namespace Accounted

/-- Two parts of a turn are accounted for one after the other. The hypothesis on the numbers queued
is that of `foldl_observe_append`. -/
theorem trans {events₁ events₂ : List (Event ε)} {t₁ t₂ : Transport}
    (h₁ : Accounted mayReset s events₁ t₁)
    (h₂ : Accounted mayReset (s.record events₁ t₁) events₂ t₂)
    (hq : (∀ e ∈ events₂, e.Control) ∨
      t₁.queue.map Entry.seq = s.transport.queue.map Entry.seq) :
    Accounted mayReset s (events₁ ++ events₂) t₂ := by
  have hfold := foldl_observe_append hq h₁.pending
  have hrecord : (s.record events₁ t₁).record events₂ t₂ = s.record (events₁ ++ events₂) t₂ := by
    unfold record at hfold ⊢
    rw [hfold]
  refine ⟨?_, ?_⟩
  · rw [← hrecord]
    exact h₁.moves.trans h₂.moves
  · rw [h₂.pending, hfold]

/-- Nothing happened but in counters and times, which `Transport.Alike` does not compare. -/
theorem rest {t : Transport} (h : s.transport.Alike t) :
    Accounted mayReset s ([] : List (Event ε)) t :=
  ⟨.single (.rest h), h.resetPending⟩

/-- A refused frame other than a reset leaves no trace: `observe` ignores it, and the counters are
not compared. -/
theorem refused {f : Frame} {failure : SendError ε} {t : Transport} (hf : f.id ≠ .reset)
    (h : s.transport.Alike t) : Accounted mayReset s [.attempted f (.error failure)] t := by
  have hobserve : observe s (.attempted f (.error failure) : Event ε) = s := by simp [observe, hf]
  refine ⟨?_, ?_⟩
  · simpa only [record, List.foldl_cons, List.foldl_nil, hobserve] using .single (.rest h)
  · simpa only [List.foldl_cons, List.foldl_nil, hobserve] using h.resetPending

end Accounted

theorem alike_countUnsent (t : Transport) (failure : SendError ε) :
    t.Alike (t.countUnsent failure) := by
  cases failure <;> exact .of_shape rfl

/-! ### Acknowledgements -/

/-- An acknowledgement that is written is the move `Move.ack`; then only counters and times
change. -/
theorem accounted_sendAck (s : Station) (now : UInt32) (sink : σ) :
    Accounted mayReset s (s.transport.sendAck now sink).events
      (s.transport.sendAck now sink).transport := by
  simp only [Transport.sendAck]
  cases (transmit sink (Frame.ack s.transport.expected)).1 with
  | error failure => exact .refused (by simp [Frame.ack]) (alike_countUnsent _ _)
  | ok n =>
    refine ⟨?_, rfl⟩
    -- First the frame goes on its way, then the times are noted.
    have halike : (s.write (Frame.ack s.transport.expected)).transport.Alike
        (s.transport.afterAck now (.ok n : Except (SendError ε) Nat)) := .of_shape rfl
    exact (Relation.ReflTransGen.single .ack).tail (.rest halike)

theorem accounted_repeatAck (s : Station) (now : UInt32) (sink : σ) :
    Accounted mayReset s (s.transport.repeatAck now sink).events
      (s.transport.repeatAck now sink).transport := by
  unfold Transport.repeatAck
  split
  · exact accounted_sendAck s now sink
  · exact .rest (.of_shape rfl)

theorem control_sendAck (t : Transport) (now : UInt32) (sink : σ) :
    ∀ e ∈ (t.sendAck now sink).events, e.Control := by
  intro e he
  rw [List.mem_singleton.mp he]
  exact .inl rfl

theorem control_repeatAck (t : Transport) (now : UInt32) (sink : σ) :
    ∀ e ∈ (t.repeatAck now sink).events, e.Control := by
  unfold Transport.repeatAck
  split
  · exact control_sendAck t now sink
  · simp

/-! ### Resets -/

/-- A reset that is due is written, which is `Move.announce`, or stays due. -/
theorem accounted_sendReset {t : Transport} (hp : s.transport.resetPending)
    (ht : s.transport.Alike t) (sink : σ) :
    Accounted mayReset s (t.sendReset sink).events (t.sendReset sink).transport := by
  simp only [Transport.sendReset, Transport.settleReset]
  cases (transmit sink Frame.reset).1 with
  | ok n =>
    have halike : (s.write Frame.reset).transport.Alike
        (t.afterReset (.ok n : Except (SendError ε) Nat)) :=
      { ht with resetPending := rfl }
    exact ⟨(Relation.ReflTransGen.single (.announce hp)).tail (.rest halike), rfl⟩
  | error failure =>
    have hcount := alike_countUnsent t failure
    have hp' : (t.countUnsent failure).resetPending = true := by
      rw [hcount.resetPending, ht.resetPending, hp]
    exact ⟨.single (.rest (ht.trans hcount)), hp'⟩

theorem accounted_flushReset (s : Station) (sink : σ) :
    Accounted mayReset s (s.transport.flushReset sink).events
      (s.transport.flushReset sink).transport := by
  unfold Transport.flushReset
  split
  · next hp => exact accounted_sendReset hp (.of_shape rfl) sink
  · exact .rest (.of_shape rfl)

/-- The frames given up are reported under their places. Since `observe` leaves the queue alone,
all of them are looked up in the same one. -/
theorem foldl_observe_abandoned (s : Station) (failures : List DeliveryFailure) :
    (failures.map (Event.abandoned (ε := ε))).foldl observe s =
      { s with reported := s.reported ++ failures.map fun x => s.place x.seq } := by
  induction failures generalizing s with
  | nil => simp
  | cons x failures ih =>
    have hplace : place (observe s (.abandoned x : Event ε)) = s.place := rfl
    rw [List.map_cons, List.foldl_cons, ih, hplace]
    simp [observe]

/-- The oldest frames of the queue have the first places behind those that have `departed`. -/
theorem Sound.place_take (h : s.Sound) {failures : List DeliveryFailure} {n : Nat}
    (hn : n ≤ s.transport.queue.length)
    (hseq : failures.map DeliveryFailure.seq = (s.transport.queue.take n).map Entry.seq) :
    (failures.map fun x => s.place x.seq) = List.range' s.departed n := by
  have hlen := congrArg List.length hseq
  simp only [List.length_map, List.length_take, Nat.min_eq_left hn] at hlen
  refine List.ext_getElem (by simpa using hlen) fun i hi hi' => ?_
  simp only [List.length_map, List.length_range'] at hi hi'
  -- The failure at `i` has the number of the frame at `i`, and that frame is found there.
  have hiq : i < s.transport.queue.length := by omega
  have hget := congrArg (·[i]?) hseq
  simp only [List.getElem?_map, List.getElem?_take, hi', if_true, List.getElem?_eq_getElem hi,
    List.getElem?_eq_getElem hiq, Option.map_some, Option.some.injEq] at hget
  have hsplit : s.transport.queue =
      s.transport.queue.take i ++ s.transport.queue[i] :: s.transport.queue.drop (i + 1) := by
    simp
  have hplace := h.place_eq hsplit
  simp only [List.length_take, Nat.min_eq_left hiq.le] at hplace
  simp [hget, hplace]

/-- A restart that tells the peer: `giveUp` and `reset` differ in how many frames they report. The
reports look frames up in the queue before it. -/
theorem accounted_restart (h : s.Sound) {n : Nat} (hn : n ≤ s.transport.queue.length)
    (hm : s.Move mayReset (s.restart n true)) {failures : List DeliveryFailure}
    (hseq : failures.map DeliveryFailure.seq = (s.transport.queue.take n).map Entry.seq)
    {t : Transport} (ht : (s.restart n true).transport.Alike t) (sink : σ) :
    Accounted mayReset s (failures.map Event.abandoned ++ (t.sendReset sink).events)
      (t.sendReset sink).transport := by
  have hreset : Accounted mayReset (s.restart n true) (t.sendReset sink).events _ :=
    accounted_sendReset rfl ht sink
  -- Reports and frames written are all that is recorded, and the restart reports the same.
  have hfold : (failures.map Event.abandoned ++ (t.sendReset sink).events).foldl observe s =
      (t.sendReset sink).events.foldl observe
        { s.restart n true with transport := s.transport } := by
    rw [List.foldl_append, foldl_observe_abandoned, h.place_take hn hseq]
    rfl
  have hsame : ∀ r : Except (SendError ε) Nat, ∀ t' : Transport,
      { observe { s.restart n true with transport := s.transport } (.attempted Frame.reset r) with
          transport := t' } =
        { observe (s.restart n true) (.attempted Frame.reset r) with transport := t' } := by
    intro r t'
    cases r <;> rfl
  refine ⟨?_, ?_⟩
  · -- The station restarts first and is told to write the reset then.
    apply Relation.ReflTransGen.head hm
    have hmoves := hreset.moves
    simp only [record, hfold] at hmoves ⊢
    simp only [Transport.sendReset, Transport.settleReset, List.foldl_cons, List.foldl_nil]
      at hmoves ⊢
    rwa [hsame]
  · rw [hreset.pending, hfold]
    simp only [Transport.sendReset, Transport.settleReset, List.foldl_cons, List.foldl_nil]
    cases (transmit sink Frame.reset).1 <;> rfl

/-- `Transport.restart` with what is left of the queue does to the transport what
`Station.restart` says. -/
theorem alike_restart {n : Nat} {q : List Entry} (t : Transport)
    (hwindow : t.window = s.transport.window)
    (hspurious : t.stats.spuriousAcks = s.transport.stats.spuriousAcks)
    (hq : q = renumbered (s.transport.queue.drop n)) :
    (s.restart n t.resetPending).transport.Alike (t.restart q) := by
  obtain ⟨hw, hqueue, hnext, hexpected, hpending, hstats⟩ := t.restart_frame q
  have hlen : q.length = s.transport.queue.length - n := by simp [hq]
  rw [hlen] at hnext
  exact ⟨hw.trans hwindow, hqueue.trans hq, hnext, hexpected, hpending,
    (congrArg TransportStats.spuriousAcks hstats).trans hspurious⟩

theorem alike_pending {n : Nat} {pending : Bool} {t : Transport}
    (h : (s.restart n pending).transport.Alike t) :
    (s.restart n true).transport.Alike { t with resetPending := true } :=
  { h with resetPending := rfl }

/-- Giving up restarts without the frames in flight, of which there is at least one. -/
theorem accounted_giveUp (h : s.Sound) (hsent : 0 < s.transport.inFlight) (exhausted : Nat)
    (sink : σ) : Accounted mayReset s (s.transport.giveUp exhausted sink).events
      (s.transport.giveUp exhausted sink).transport := by
  have hseq := Transport.lost_seqs_eq_take h.sentFirst (some exhausted)
  have halike := alike_restart (s.transport.countFailures
    (Transport.lost s.transport.queue (some exhausted)).length) rfl rfl
    (Transport.kept_eq_drop h.sentFirst)
  simp only [Transport.giveUp, Transport.resync]
  exact accounted_restart h s.transport.inFlight_le (.giveUp hsent) hseq (alike_pending halike) sink

/-- A reset by the application restarts without any frame. -/
theorem accounted_reset (h : s.Sound) (hmay : mayReset) (sink : σ) :
    Accounted mayReset s (s.transport.reset true sink).2.events
      (s.transport.reset true sink).2.transport := by
  have hseq : (s.transport.queue.map (Entry.failure · .linkReset)).map DeliveryFailure.seq =
      (s.transport.queue.take s.transport.queue.length).map Entry.seq := by
    simp [Entry.failure]
  have hnone : [] = renumbered (s.transport.queue.drop s.transport.queue.length) := by
    simp [renumbered]
  have halike := alike_restart (s.transport.countFailures
    (s.transport.queue.map (Entry.failure · .linkReset)).length) rfl rfl hnone
  simp only [Transport.reset, if_true]
  exact accounted_restart h le_rfl (.reset hmay) hseq (alike_pending halike) sink

/-! ### A pass over the queue -/

/-- A pass writes the frames that it sends, each behind frames that were sent before. The frames
already dealt with stand in `front`, so the four cases of `Transport.sweep_cons` are moves of a
station whose queue is `front ++ q`. -/
theorem accounted_sweep (policy : RetryPolicy) (now : UInt32) {stats : TransportStats} (sink : σ)
    {front q : List Entry} (hq : s.transport.queue = front ++ q) (hfront : ∀ x ∈ front, x.isSent)
    (hp : ¬ s.transport.resetPending)
    (hstats : stats.spuriousAcks = s.transport.stats.spuriousAcks) :
    Accounted mayReset s (Transport.sweep policy now stats sink q).events
      { s.transport with
        queue := front ++ (Transport.sweep policy now stats sink q).queue
        stats := (Transport.sweep policy now stats sink q).stats } := by
  -- By induction on what is left of the pass, for any `front` that was dealt with before.
  induction q generalizing s front stats sink with
  | nil => exact .rest { queue := hq.symm, spuriousAcks := hstats }
  | cons e rest ih =>
    -- Once dealt with, `e` joins the frames in front, which have to be sent ones.
    have hstep : ∀ x : Entry, x.isSent → ∀ y ∈ front ++ [x], y.isSent := by
      intro x hx y hy
      rcases List.mem_append.mp hy with hy | hy
      · exact hfront y hy
      · rw [List.mem_singleton.mp hy]; exact hx
    obtain ⟨hsent, h⟩ | ⟨-, h⟩ | ⟨n, sink', h⟩ | ⟨failure, sink', h⟩ :=
      Transport.sweep_cons policy now stats sink e rest
    · -- It is not due yet: the pass goes on behind it.
      have hrest := ih sink (by simp [hq]) (hstep e hsent) hp hstats
      simpa [h, Transport.Sweep.cons] using hrest
    · -- It is out of retries, and the pass ends with it.
      rw [h]
      exact .rest { queue := hq.symm, spuriousAcks := hstats }
    · -- What is written is looked up in the queue before the pass, which has the same numbers.
      let t : Transport := { s.transport with queue := front ++ e.markSent now :: rest }
      let wrote : List (Event ε) := [.attempted e.frame (.ok n)]
      have hfirst : Accounted mayReset s wrote t := ⟨.single (.transmit hq hfront hp), rfl⟩
      have hcount : (Transport.countSent stats e.isSent).spuriousAcks =
          t.stats.spuriousAcks := by
        rw [← hstats]
        cases e.isSent <;> rfl
      have hqueue : (s.record wrote t).transport.queue = (front ++ [e.markSent now]) ++ rest := by
        simp [record, t]
      have hrest := ih sink' hqueue (hstep _ rfl) hp hcount
      have hseq : t.queue.map Entry.seq = s.transport.queue.map Entry.seq := by
        simp [t, hq, Entry.markSent]
      have htrans := hfirst.trans hrest (.inr hseq)
      rw [h]
      simpa [Transport.Sweep.cons, record, t, wrote] using htrans
    · -- The sink refused it, and the pass ends without a trace.
      rw [h]
      have hcount : (stats.countUnsent failure).spuriousAcks = s.transport.stats.spuriousAcks := by
        rw [← hstats]
        cases failure <;> rfl
      exact .refused (by simp [Entry.frame]) { queue := hq.symm, spuriousAcks := hcount }

/-! ### The tick -/

/-- The pass over the queue, and giving up behind it where a frame is out of retries. -/
theorem accounted_serviceQueue (h : s.Sound) (hp : ¬ s.transport.resetPending) (now : UInt32)
    (sink : σ) : Accounted mayReset s (s.transport.serviceQueue now sink).events
      (s.transport.serviceQueue now sink).transport := by
  have hnone : ∀ x ∈ ([] : List Entry), x.isSent := by simp
  have hswept : Accounted mayReset s _ _ :=
    accounted_sweep s.transport.policy now sink rfl hnone hp rfl
  simp only [List.nil_append] at hswept
  simp only [Transport.serviceQueue]
  generalize hsweep : Transport.sweep s.transport.policy now s.transport.stats sink
    s.transport.queue = swept at hswept ⊢
  cases hn : swept.exhausted with
  | none => exact hswept
  | some n =>
    -- The frame that is out of retries was sent, so something is on its way.
    obtain ⟨e, rest, hqueue, he⟩ := Transport.isSent_of_exhausted (hsweep ▸ hn)
    rw [hsweep] at hqueue
    have hpos : 0 < Transport.inFlight
        { s.transport with queue := swept.queue, stats := swept.stats } := by
      simp [Transport.inFlight, hqueue, he]
    have hgaveUp : Accounted mayReset _ _ _ :=
      accounted_giveUp (h.moves hswept.moves) hpos n swept.sink
    have hseq : swept.queue.map Entry.seq = s.transport.queue.map Entry.seq := by
      rw [← hsweep, Transport.map_seq_sweep]
    have htrans := hswept.trans hgaveUp (.inr hseq)
    simp only [record] at htrans ⊢
    exact htrans

/-- A tick is a reset that is owed, the queue and a repeated acknowledgement, one after the other;
each part starts with the numbers queued before it. -/
theorem accounted_service (h : s.Sound) (now : UInt32) (sink : σ) :
    Accounted mayReset s (s.transport.service now sink).events
      (s.transport.service now sink).transport := by
  have hflushed : Accounted mayReset s _ _ := accounted_flushReset s sink
  have hqueue := congrArg (List.map Entry.seq) (s.transport.queue_flushReset sink)
  simp only [Transport.service]
  generalize s.transport.flushReset sink = flushed at hflushed hqueue ⊢
  split
  · -- The reset is still owed, and the tick ends here.
    exact hflushed
  · next hp =>
    have hserved := hflushed.trans
      (accounted_serviceQueue (h.moves hflushed.moves) hp now flushed.sink) (.inr hqueue)
    simp only [record] at hserved
    generalize flushed.transport.serviceQueue now flushed.sink = served at hserved ⊢
    exact hserved.trans (accounted_repeatAck _ now served.sink)
      (.inl (control_repeatAck _ now served.sink))

/-! ## Operations of a station -/

/-- A tick is a sequence of moves, whether or not resets are allowed. -/
theorem moves_service (h : s.Sound) (now : UInt32) (sink : σ) :
    Moves mayReset s (s.service now sink) :=
  (accounted_service h now sink).moves

theorem moves_reset (h : s.Sound) (hmay : mayReset) (sink : σ) :
    Moves mayReset s (s.reset sink) :=
  (accounted_reset h hmay sink).moves

/-- A message that is accepted is `Move.send`; one that is refused changes nothing. -/
theorem moves_send (s : Station) (m : Message) : Moves mayReset s (s.send m) := by
  unfold send
  split
  · next seq t henqueue =>
    obtain ⟨id, bytes⟩ := m
    obtain ⟨hroom, -, -, p, rfl, rfl⟩ := Transport.enqueue_eq_ok henqueue
    have hmove : Move mayReset s _ :=
      .send (e := { id, seq := s.transport.nextSeq, payload := p }) hroom rfl
        (by simp [Entry.isSent])
    exact (Relation.ReflTransGen.single hmove).tail (.rest (.of_shape rfl))
  · exact .refl

end Station

/-! ## Operations on the line -/

namespace Link

/-- What a line can come to, the left station being active: any number of `Link.Move`. -/
abbrev Moves (mayReset : Prop) : Link → Link → Prop := Relation.ReflTransGen (Move mayReset)

theorem moves_own {s s' r : Station} (h : s.Moves mayReset s') :
    Moves mayReset ⟨s, r⟩ ⟨s', r⟩ := by
  induction h with
  | refl => exact .refl
  | tail _ hm ih => exact ih.tail (.own hm)

/-- A packet that does nothing but in counters and times counts as lost, so `Takes` needs no
constructor for it. -/
theorem moves_ignored {s r : Station} {p : Packet} {rest : List Packet} {t : Transport}
    (ho : r.outgoing = p :: rest) (halike : s.transport.Alike t) :
    Moves mayReset ⟨s, r⟩ ⟨{ s with transport := t }, { r with outgoing := rest }⟩ := by
  have hlost : Move mayReset ⟨s, r⟩ ⟨s, { r with outgoing := rest }⟩ :=
    .lose (List.Sublist.refl _) (ho ▸ List.sublist_cons_self p rest)
  exact (Relation.ReflTransGen.single hlost).tail (.own (.rest halike))

variable {s r : Station} {p : Packet} {rest : List Packet}

/-- A packet that does something, as `Station.Takes` says, and a change of counters and times. -/
theorem moves_take {s' : Station} {t : Transport} (ho : r.outgoing = p :: rest)
    (ht : s.Takes p s') (halike : s'.transport.Alike t) :
    Moves mayReset ⟨s, r⟩ ⟨{ s' with transport := t }, { r with outgoing := rest }⟩ :=
  (Relation.ReflTransGen.single (.take ho ht)).tail (.own (.rest halike))

/-- An acknowledgement arrives. The three cases are those of `Transport.onAck`, the good ones being
told apart by whether anything is taken off the queue. -/
theorem moves_ack (ho : r.outgoing = p :: rest) (hid : p.frame.id = .ack) (now : UInt32)
    (sink : σ) : Moves mayReset ⟨s, r⟩ ⟨s.receive now p sink, { r with outgoing := rest }⟩ := by
  have hreceive : s.receive now p sink = { s with
      transport := s.transport.onAck p.frame.seq
      acknowledged := s.acknowledged ++ s.acknowledging p (s.transport.onAck p.frame.seq) } := by
    simp [Station.receive, Transport.receive, hid, Station.record, Station.handedOver]
  rw [hreceive]
  unfold Transport.onAck
  simp only
  split
  · next hbad =>
    -- Nothing is taken off, so no acknowledgement is recorded.
    have hnone : ∀ stats, s.acknowledging p { s.transport with stats } = [] := by
      simp [Station.acknowledging, Transport.pending]
    rw [hnone, List.append_nil]
    exact .single (.take ho (.spurious hid hbad))
  · next hgood =>
    obtain ⟨hp, hle⟩ := not_or.mp hgood
    have hle := Nat.le_of_not_lt hle
    generalize hn : (p.frame.seq - s.transport.oldestSeq).toNat = n at hle ⊢
    rcases Nat.eq_zero_or_pos n with rfl | hpos
    · -- An acknowledgement of what was acknowledged before takes nothing off.
      have hnone : s.acknowledging p ({ s.transport with
          queue := s.transport.queue.drop 0 }.note .ackReceived) = [] := by
        simp [Station.acknowledging, Transport.pending, Transport.note]
      rw [hnone, List.append_nil]
      exact moves_ignored ho { queue := by simp [Transport.note] }
    · have hlen := hle.trans s.transport.inFlight_le
      have hsome : s.acknowledging p ({ s.transport with
          queue := s.transport.queue.drop n }.note .ackReceived) = [⟨p, s.epoch, s.heard⟩] := by
        simp only [Station.acknowledging, Transport.pending, Transport.note, List.length_drop]
        rw [if_pos ⟨hid, by omega⟩]
      have htakes := Station.Takes.acked hid hp hn.symm hpos hle
      rw [hsome]
      exact moves_take ho htakes (.of_shape rfl)

/-- A reset arrives: one restart, which is not announced in turn. -/
theorem moves_told (h : s.Sound) (ho : r.outgoing = p :: rest) (hid : p.frame.id = .reset)
    (now : UInt32) (sink : σ) :
    Moves mayReset ⟨s, r⟩ ⟨s.receive now p sink, { r with outgoing := rest }⟩ := by
  have hseq := Transport.lost_seqs_eq_take h.sentFirst none
  have halike : (s.restart s.transport.inFlight false).transport.Alike s.transport.onReset.1 :=
    Station.alike_restart (Transport.countFailures { s.transport with
      stats := { s.transport.stats with resetsReceived := s.transport.stats.resetsReceived + 1 }
      resetPending := false } (Transport.lost s.transport.queue none).length) rfl rfl
      (Transport.kept_eq_drop h.sentFirst)
  have hreceive : s.receive now p sink = { s.restart s.transport.inFlight false with
      heard := p.epoch
      transport := s.transport.onReset.1 } := by
    have hnone : s.handedOver p ((Transport.lost s.transport.queue none).map
        (Event.abandoned (ε := ε))) = [] := by
      simp [Station.handedOver]
    -- The failures are those of the frames on their way, which have the oldest places.
    have hplaces := h.place_take s.transport.inFlight_le hseq
    have hevents : (s.transport.receive now p.frame sink).events =
        (Transport.lost s.transport.queue none).map (Event.abandoned (ε := ε)) := by
      simp only [Transport.receive, hid, Transport.onReset, Transport.resync]
    have htransport : (s.transport.receive now p.frame sink).transport =
        s.transport.onReset.1 := by
      simp only [Transport.receive, hid]
    have hacknowledging : ∀ t, s.acknowledging p t = [] := by
      simp [Station.acknowledging, hid]
    simp only [Station.receive, hevents, htransport, hnone, hacknowledging, hid, if_true,
      List.append_nil, Station.record, Station.foldl_observe_abandoned]
    simp only [Station.restart, ← hplaces]
    rfl
  rw [hreceive]
  exact moves_take ho (.told hid) halike

/-- A data frame arrives. It is taken or ignored, and in both cases answered; the answer is a move
of its own. -/
theorem moves_data (ho : r.outgoing = p :: rest) {id : UInt8} (hid : p.frame.id = .data id)
    (now : UInt32) (sink : σ) :
    Moves mayReset ⟨s, r⟩ ⟨s.receive now p sink, { r with outgoing := rest }⟩ := by
  have hacknowledging : ∀ t, s.acknowledging p t = [] := by
    simp [Station.acknowledging, hid]
  -- The acknowledgement is written by the station that took the frame or left it.
  have hack : ∀ (s' : Station) (t : Transport), t.resetPending = s'.transport.resetPending →
      Moves mayReset ⟨{ s' with transport := t }, { r with outgoing := rest }⟩
        ⟨s'.record (t.sendAck now sink).events (t.sendAck now sink).transport,
          { r with outgoing := rest }⟩ := by
    intro s' t hp
    have hsent : Station.Accounted mayReset { s' with transport := t } _ _ :=
      Station.accounted_sendAck { s' with transport := t } now sink
    have hmoves := hsent.moves
    rw [Station.record_congr hp (Station.control_sendAck t now sink)] at hmoves
    exact moves_own hmoves
  generalize hu : { s.transport with lastData := some now }.note .frameReceived = u
  have halike : s.transport.Alike u := by subst hu; exact .of_shape rfl
  by_cases hseq : p.frame.seq = s.transport.expected
  · have hseq' : p.frame.seq = u.expected := by rw [hseq, halike.expected]
    generalize ht : ({ u with
      expected := u.expected + 1
      stats := { u.stats with framesDelivered := u.stats.framesDelivered + 1 } } : Transport) = t
    have hreceive : s.receive now p sink =
        Station.record { s with received := s.received ++ [⟨p, s.epoch, s.heard⟩] }
          (t.sendAck now sink).events (t.sendAck now sink).transport := by
      simp [Station.receive, Transport.receive, hid, Transport.onData, hu, Transport.acceptData,
        hseq', ht, Station.record, Station.observe, hacknowledging, Station.handedOver,
        Transport.sendAck]
    have htaken := Station.Takes.accepted hid hseq
    have halike' : Transport.Alike { s.transport with expected := s.transport.expected + 1 } t := by
      subst ht
      exact { halike with expected := by rw [halike.expected] }
    have hacked := hack { s with received := s.received ++ [⟨p, s.epoch, s.heard⟩] } t
      halike'.resetPending
    rw [hreceive]
    exact (moves_take ho htaken halike').trans hacked
  · -- The frame is counted as a duplicate or as out of order.
    have hseq' : p.frame.seq ≠ u.expected := by rwa [halike.expected]
    obtain ⟨t, ht, hdata⟩ : ∃ t, u.Alike t ∧
        u.acceptData (ε := ε) p.frame = (t, []) := by
      unfold Transport.acceptData
      rw [if_neg hseq']
      split
      · refine ⟨_, ?_, rfl⟩
        exact .of_shape rfl
      · refine ⟨_, ?_, rfl⟩
        exact .of_shape rfl
    have hreceive : s.receive now p sink =
        s.record (t.sendAck now sink).events (t.sendAck now sink).transport := by
      simp [Station.receive, Transport.receive, hid, Transport.onData, hu, hdata,
        hacknowledging, Station.handedOver, Transport.sendAck]
    have halike' : s.transport.Alike t := halike.trans ht
    rw [hreceive]
    exact (moves_ignored ho halike').trans (hack s t halike'.resetPending)

/-- A packet that arrives, whatever its `FrameId`. Application frames do not concern the station. -/
theorem moves_receive (h : s.Sound) (ho : r.outgoing = p :: rest) (now : UInt32) (sink : σ) :
    Moves mayReset ⟨s, r⟩ ⟨s.receive now p sink, { r with outgoing := rest }⟩ := by
  cases hid : p.frame.id with
  | data id => exact moves_data ho hid now sink
  | ack => exact moves_ack ho hid now sink
  | reset => exact moves_told h ho hid now sink
  | app id =>
    have hreceive : s.receive now p sink = s := by
      simp [Station.receive, Transport.receive, hid, Station.record, Station.handedOver,
        Station.acknowledging]
    rw [hreceive]
    exact moves_ignored ho (.of_shape rfl)

/-- **Whatever happens at the left station is a sequence of moves.** -/
theorem moves_act {l : Link} (h : l.Sound) (a : Action σ)
    (hmay : ∀ sink, a = .reset sink → mayReset) : Moves mayReset l (l.act a) := by
  obtain ⟨s, r⟩ := l
  cases a with
  | send m => exact moves_own (Station.moves_send s m)
  | service now sink => exact moves_own (Station.moves_service h.1 now sink)
  | reset sink => exact moves_own (Station.moves_reset h.1 (hmay sink rfl) sink)
  | lose i => exact .single (.lose (List.eraseIdx_sublist ..) (List.Sublist.refl _))
  | receive now sink =>
    cases ho : r.outgoing with
    | nil =>
      simp only [act, ho]
      exact .refl
    | cons p rest =>
      simp only [act, ho]
      exact moves_receive h.1 ho now sink

/-! ## Invariants of runs -/

theorem sound_fresh (c₁ c₂ : Config) : (fresh c₁ c₂).Sound :=
  ⟨Station.sound_fresh c₁, Station.sound_fresh c₂⟩

/-- **What both stations may assume alike, and every move keeps, holds all along a run.** The one
induction over a run in these modules: `hmove` is the step lemma that an invariant has to bring, and
`hswap` serves the right station. -/
theorem invariant_run {Inv : Link → Prop} (hswap : ∀ l, Inv l → Inv l.swap)
    (hmove : ∀ l l', l.Sound → Inv l → Move mayReset l l' → Inv l') {l : Link} (hs : l.Sound)
    (h : Inv l) (actions : List (Side × Action σ))
    (hmay : ∀ a ∈ actions, ∀ sink, a.2 = .reset sink → mayReset) :
    (l.run actions).Sound ∧ Inv (l.run actions) := by
  -- First along the moves of one operation, then along the run.
  have hmoves : ∀ {l l' : Link}, l.Sound → Inv l → Moves mayReset l l' → l'.Sound ∧ Inv l' := by
    intro l l' hs h hm
    induction hm with
    | refl => exact ⟨hs, h⟩
    | tail _ hm ih => exact ⟨ih.1.move hm, hmove _ _ ih.1 ih.2 hm⟩
  induction actions generalizing l with
  | nil => exact ⟨hs, h⟩
  | cons a actions ih =>
    have hmay₁ := hmay a (List.mem_cons_self ..)
    have hmay₂ := fun b hb => hmay b (List.mem_cons_of_mem _ hb)
    obtain ⟨side, a⟩ := a
    cases side with
    | left =>
      obtain ⟨hs', h'⟩ := hmoves hs h (moves_act hs a hmay₁)
      exact ih hs' h' hmay₂
    | right =>
      -- The right station acts like the left one of the line seen from the other end.
      have hsw : l.swap.Sound := ⟨hs.2, hs.1⟩
      obtain ⟨hs', h'⟩ := hmoves hsw (hswap l h) (moves_act hsw a hmay₁)
      exact ih ⟨hs'.2, hs'.1⟩ (hswap _ h') hmay₂

end Link

end SerialLink
