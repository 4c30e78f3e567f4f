import SerialLink.Proofs.Transport.Fate

/-!
# What a transport writes

The log of a transport follows rules that can be read off the log alone. Data frames are written for
the first time in the order in which their messages were accepted, under the next number; every
other one repeats a frame that is still on its way. While a reset is owed to the peer, no data frame
is written and no acknowledgement counts.

`Disciplined` states the rules of a list of `Mark`s, with `firsts` for the next number and `owed`
for a reset that the peer has to hear of, and mentions no transport. `Tells` ties a log to a queue:
what is on its way was written since numbering started anew, and what was never sent is numbered
from there on. Each way in which log and queue grow together is a lemma of `Tells` (`again`,
`first`, `written`, `restart`, `release`, `join`), and `History.tells_effect` picks from them for
each case of `Effect`. That a message is found by its number needs `Accounted` from
`Proofs.Transport.Fate`.
-/

namespace SerialLink

variable {σ ε : Type}

/-! ## Reading a log -/

namespace Mark

/-- The `Mark` after which numbering starts anew. -/
def isBoundary : Mark → Bool
  | .resetCalled _ | .resetWritten | .resetHeard => true
  | .data _ _ | .acked _ | .gaveUp => false

/-- The `Mark` of a data frame with this message. -/
def isDataOf (k : Nat) : Mark → Bool
  | .data j _ => j = k
  | _ => false

end Mark

/-- What happened since numbering started anew, with the last `isBoundary` left out. -/
def since (log : List Mark) : List Mark := log.takeWhile fun m => !m.isBoundary

/-- How many messages were sent for the first time since numbering started anew. -/
def firsts : List Mark → Nat
  | [] => 0
  | m :: log =>
    match m with
    | .data k _ => if log.any (Mark.isDataOf k) then firsts log else firsts log + 1
    | .resetCalled _ | .resetWritten | .resetHeard => 0
    | .acked _ | .gaveUp => firsts log

/-- Whether the peer has to be told of a restart: nothing was written or heard that does. -/
def owed : List Mark → Bool
  | [] => false
  | m :: log =>
    match m with
    | .resetCalled true | .gaveUp => true
    | .resetWritten | .resetHeard => false
    | .resetCalled false | .data _ _ | .acked _ => owed log

/-- Every entry of the log, latest first, is one that the entries before it allow. -/
inductive Disciplined : List Mark → Prop where
  | start : Disciplined []
  /-- A message is sent for the first time: it is the latest of all sent, and gets the number that
  is next since numbering started anew. -/
  | first {log : List Mark} {k : Nat} {f : Frame} (h : Disciplined log) (hfree : owed log = false)
      (hlatest : ∀ j g, .data j g ∈ log → j < k) (hseq : f.seq.toNat = firsts log % 256) :
      Disciplined (.data k f :: log)
  /-- A frame is sent again: the same one as before, in the same numbering, not acknowledged yet. -/
  | again {log : List Mark} {k : Nat} {f : Frame} (h : Disciplined log) (hfree : owed log = false)
      (hsame : .data k f ∈ since log) (hopen : .acked k ∉ log) : Disciplined (.data k f :: log)
  | acked {log : List Mark} {k : Nat} (h : Disciplined log) (hfree : owed log = false) :
      Disciplined (.acked k :: log)
  | gaveUp {log : List Mark} (h : Disciplined log) : Disciplined (.gaveUp :: log)
  | boundary {log : List Mark} {m : Mark} (h : Disciplined log) (hm : m.isBoundary) :
      Disciplined (m :: log)

section reading

variable {log : List Mark} {m : Mark} {k : Nat} {f : Frame}

/-- A boundary begins the count of `firsts` anew. -/
theorem firsts_boundary (hm : m.isBoundary) : firsts (m :: log) = 0 := by
  cases m with
  | data | acked | gaveUp => exact absurd hm (by simp [Mark.isBoundary])
  | resetCalled | resetWritten | resetHeard => rfl

theorem mem_of_since (h : m ∈ since log) : m ∈ log :=
  (List.takeWhile_prefix _).subset h

/-- The latest message of all is new, and one more among the `firsts`. -/
theorem firsts_first (hlatest : ∀ j g, .data j g ∈ log → j < k) :
    firsts (.data k f :: log) = firsts log + 1 := by
  -- All messages sent before have smaller places, so this one is not among them.
  have hnew : log.any (Mark.isDataOf k) = false := by
    apply List.any_eq_false.mpr
    intro m hm
    cases m with
    | data j g => simpa [Mark.isDataOf] using Nat.ne_of_lt (hlatest j g hm)
    | acked | gaveUp | resetCalled | resetWritten | resetHeard => simp [Mark.isDataOf]
  simp [firsts, hnew]

/-- A message that was sent before is no more among the `firsts`. -/
theorem firsts_again (hsame : .data k f ∈ log) : firsts (.data k f :: log) = firsts log := by
  have hold : log.any (Mark.isDataOf k) = true :=
    List.any_eq_true.mpr ⟨_, hsame, by simp [Mark.isDataOf]⟩
  simp [firsts, hold]

end reading

/-! ## The log and the queue -/

/-- The frame is a data frame with this message. -/
def Frame.Carries (f : Frame) (m : Message) : Prop :=
  f.id = .data m.id ∧ f.payload.bytes = m.bytes

/-- The log tells of a queue with `next` behind it, after `n` messages left it: what is on its way
was written since numbering started anew, and what was never sent is numbered from there on. -/
structure Tells (accepted : List Message) (log : List Mark) (pending : Bool) (n : Nat)
    (q : List Entry) (next : UInt8) : Prop where
  disciplined : Disciplined log
  carried : ∀ k f, .data k f ∈ log → ∃ m, accepted[k]? = some m ∧ f.Carries m
  owed_eq : owed log = pending
  sentFirst : SentFirst q
  quiet : pending → q.filter Entry.isSent = []
  numbered : Consecutive (if pending then 0 else (firsts log).toUInt8)
    (q.filter fun e => !e.isSent) next
  below : ∀ j f, .data j f ∈ log → j < n + (q.filter Entry.isSent).length
  current : ∀ i f, ((q.filter Entry.isSent).map Entry.frame)[i]? = some f →
    .data (n + i) f ∈ since log
  acked : ∀ k, .acked k ∈ log → k < n

namespace Tells

variable {accepted : List Message} {log : List Mark} {pending : Bool} {n : Nat}
  {q front rest : List Entry} {e : Entry} {next : UInt8}

/-- `Tells` after a frame that is on its way was written again. -/
theorem again (h : Tells accepted log false n (front ++ e :: rest) next)
    (hfront : ∀ x ∈ front, x.isSent) (he : e.isSent) (now : UInt32) :
    Tells accepted (.data (n + front.length) e.frame :: log) false n
      (front ++ e.markSent now :: rest) next := by
  have hmark : (e.markSent now).isSent := rfl
  have hframe : (e.markSent now).frame = e.frame := rfl
  have hsame : .data (n + front.length) e.frame ∈ since log := by
    apply h.current
    simp [filter_isSent_behind hfront, he]
  -- Whatever was acknowledged has left the queue.
  have hopen : .acked (n + front.length) ∉ log := by
    intro hk
    have hlt := h.acked _ hk
    omega
  have hold : ∀ k f, .data k f ∈ Mark.data (n + front.length) e.frame :: log →
      .data k f ∈ log := by
    intro k f hk
    rcases List.mem_cons.mp hk with hk | hk
    · rw [hk]
      exact mem_of_since hsame
    · exact hk
  -- The frames on their way are the same ones, and so are the others.
  have hsent : ((front ++ e.markSent now :: rest).filter Entry.isSent).map Entry.frame =
      ((front ++ e :: rest).filter Entry.isSent).map Entry.frame := by
    simp [filter_isSent_behind hfront, he, hmark, hframe]
  have hunsent : (front ++ e.markSent now :: rest).filter (fun x => !x.isSent) =
      (front ++ e :: rest).filter fun x => !x.isSent := by
    simp [filter_unsent_behind hfront, he, hmark]
  have hlen := congrArg List.length hsent
  rw [List.length_map, List.length_map] at hlen
  refine ⟨.again h.disciplined h.owed_eq hsame hopen, ?_, h.owed_eq,
    h.sentFirst.markSent hfront now, by simp, ?_, ?_, ?_, ?_⟩
  · exact fun k f hk => h.carried k f (hold k f hk)
  · rw [firsts_again (mem_of_since hsame), hunsent]
    exact h.numbered
  · intro j f hj
    rw [hlen]
    exact h.below j f (hold j f hj)
  · intro i f hi
    rw [hsent] at hi
    exact List.mem_cons_of_mem _ (h.current i f hi)
  · intro k hk
    exact h.acked k (by simpa using hk)

/-- `Tells` after the first frame that was never sent was written. -/
theorem first (h : Tells accepted log false n (front ++ e :: rest) next)
    (hfront : ∀ x ∈ front, x.isSent) (he : ¬ e.isSent)
    (hmessage : accepted[n + front.length]? = some e.message) (now : UInt32) :
    Tells accepted (.data (n + front.length) e.frame :: log) false n
      (front ++ e.markSent now :: rest) next := by
  have hmark : (e.markSent now).isSent := rfl
  -- No frame behind this one was sent, so those on their way are the ones before it.
  have htail : SentFirst (e :: rest) := by
    have hdrop := h.sentFirst.drop front.length
    rwa [List.drop_left] at hdrop
  have hrest := htail.filter_isSent_tail he
  have hsent : (front ++ e :: rest).filter Entry.isSent = front := by
    simp [filter_isSent_behind hfront, he, hrest]
  have hsent' : (front ++ e.markSent now :: rest).filter Entry.isSent = front ++ [e.markSent now] :=
    by simp [filter_isSent_behind hfront, hmark, hrest]
  have hunsent : (front ++ e :: rest).filter (fun x => !x.isSent) =
      e :: rest.filter fun x => !x.isSent := by
    simp [filter_unsent_behind hfront, he]
  have hunsent' : (front ++ e.markSent now :: rest).filter (fun x => !x.isSent) =
      rest.filter fun x => !x.isSent := by
    simp [filter_unsent_behind hfront, hmark]
  -- It is the latest of all, and its number is the first of those that are free.
  have hlatest : ∀ j g, .data j g ∈ log → j < n + front.length := by
    intro j g hj
    have hlt := h.below j g hj
    rwa [hsent] at hlt
  have hnumbered := h.numbered
  rw [hunsent] at hnumbered
  obtain ⟨hseq, hnumbered⟩ := hnumbered
  have hnext : e.seq.toNat = firsts log % 256 := by
    simpa using congrArg UInt8.toNat hseq
  refine ⟨.first h.disciplined h.owed_eq hlatest hnext, ?_, h.owed_eq,
    h.sentFirst.markSent hfront now, by simp, ?_, ?_, ?_, ?_⟩
  · intro k f hk
    rcases List.mem_cons.mp hk with hk | hk
    · obtain ⟨rfl, rfl⟩ := Mark.data.inj hk
      exact ⟨e.message, hmessage, rfl, rfl⟩
    · exact h.carried k f hk
  · rw [firsts_first hlatest, hunsent']
    simpa [UInt8.ofNat_add] using hnumbered
  · intro j f hj
    rw [hsent', List.length_append, List.length_singleton]
    rcases List.mem_cons.mp hj with hj | hj
    · obtain ⟨rfl, -⟩ := Mark.data.inj hj
      omega
    · have hlt := hlatest j f hj
      omega
  · -- What was on its way was written before, and the new one has just been.
    intro i f hi
    rw [hsent', List.map_append, List.getElem?_append] at hi
    split at hi
    · have hcurrent := h.current i f (by rw [hsent]; exact hi)
      exact List.mem_cons_of_mem _ hcurrent
    · next hbehind =>
      rw [List.map_singleton, List.getElem?_singleton] at hi
      split at hi
      · next hzero =>
        rw [List.length_map] at hbehind hzero
        obtain rfl : i = front.length := by omega
        obtain rfl := Option.some.inj hi
        exact List.mem_cons_self ..
      · exact absurd hi (by simp)
  · intro k hk
    exact h.acked k (by simpa using hk)

/-- **A frame behind those on their way may be written at any time.** -/
theorem sent (h : Tells accepted log false n (front ++ e :: rest) next)
    (hfront : ∀ x ∈ front, x.isSent)
    (hmessage : accepted[n + front.length]? = some e.message) (now : UInt32) :
    Tells accepted (.data (n + front.length) e.frame :: log) false n
      (front ++ e.markSent now :: rest) next := by
  by_cases he : e.isSent
  · exact h.again hfront he now
  · exact h.first hfront he hmessage now

/-- `Tells` after a reset that was due was written. -/
theorem written (h : Tells accepted log true n q next) :
    Tells accepted (.resetWritten :: log) false n q next := by
  -- Nothing is on its way as long as a reset is due, so nothing is forgotten here.
  have hquiet := h.quiet rfl
  refine ⟨.boundary h.disciplined rfl, ?_, rfl, h.sentFirst, by simp, h.numbered, ?_, ?_, ?_⟩
  · exact fun k f hk => h.carried k f (by simpa using hk)
  · exact fun j f hj => h.below j f (by simpa using hj)
  · intro i f hi
    rw [hquiet] at hi
    exact absurd hi (by simp)
  · exact fun k hk => h.acked k (by simpa using hk)

/-- A restart forgets what is on its way, and numbers from zero what is kept. -/
theorem restart (h : Tells accepted log pending n q next) {m : Mark}
    (hm : m = .gaveUp ∨ m.isBoundary) {n' : Nat} (hn : n + (q.filter Entry.isSent).length ≤ n')
    (q' : List Entry) :
    Tells accepted (m :: log) (owed (m :: log)) n' (renumbered q') q'.length.toUInt8 := by
  have hsent : (renumbered q').filter Entry.isSent = [] :=
    List.filter_eq_nil_iff.mpr fun e he => not_isSent_renumbered he
  have hunsent : (renumbered q').filter (fun e => !e.isSent) = renumbered q' :=
    List.filter_eq_self.mpr fun e he => by simpa using not_isSent_renumbered he
  have hdisciplined : Disciplined (m :: log) := by
    rcases hm with rfl | hm
    · exact .gaveUp h.disciplined
    · exact .boundary h.disciplined hm
  -- Where the peer need not be told any more, numbering starts anew in the log, too.
  have hzero : (if owed (m :: log) then 0 else (firsts (m :: log)).toUInt8) = 0 := by
    rcases hm with rfl | hm
    · rfl
    · rw [firsts_boundary hm]
      simp
  -- The new entry tells of no frame and of no acknowledgement.
  have hold : ∀ m', m' ∈ m :: log → m'.isBoundary = false → m' ≠ .gaveUp → m' ∈ log := by
    intro m' hmem hinner hgaveUp
    rcases List.mem_cons.mp hmem with rfl | hmem
    · simp [hinner, hgaveUp] at hm
    · exact hmem
  refine ⟨hdisciplined, ?_, rfl, sentFirst_renumbered q', fun _ => hsent, ?_, ?_, ?_, ?_⟩
  · exact fun k f hk => h.carried k f (hold _ hk rfl (by simp))
  · rw [hzero, hunsent]
    exact consecutive_renumbered q'
  · intro j f hj
    have hlt := h.below j f (hold _ hj rfl (by simp))
    omega
  · intro i f hi
    rw [hsent] at hi
    exact absurd hi (by simp)
  · intro k hk
    have hlt := h.acked k (hold _ hk rfl (by simp))
    omega

/-- `Tells` after the frame at the front of the queue was acknowledged. -/
theorem release (h : Tells accepted log false n (e :: rest) next) (he : e.isSent) :
    Tells accepted (.acked n :: log) false (n + 1) rest next := by
  have hsent : (e :: rest).filter Entry.isSent = e :: rest.filter Entry.isSent := by simp [he]
  have hunsent : (e :: rest).filter (fun x => !x.isSent) = rest.filter fun x => !x.isSent := by
    simp [he]
  -- The number of the oldest frame moves up by one, and with it every bound of the invariant.
  refine ⟨.acked h.disciplined h.owed_eq, ?_, h.owed_eq, h.sentFirst.tail, by simp, ?_, ?_, ?_, ?_⟩
  · exact fun k f hk => h.carried k f (by simpa using hk)
  · rw [← hunsent]
    exact h.numbered
  · intro j f hj
    have hlt := h.below j f (by simpa using hj)
    rw [hsent, List.length_cons] at hlt
    omega
  · intro i f hi
    have hcurrent := h.current (i + 1) f (by rw [hsent]; exact hi)
    rw [Nat.add_assoc, Nat.add_comm 1 i]
    exact List.mem_cons_of_mem _ hcurrent
  · intro k hk
    rcases List.mem_cons.mp hk with hk | hk
    · obtain rfl := Mark.acked.inj hk
      omega
    · have hlt := h.acked k hk
      omega

/-- Frames at the front of the queue are acknowledged, in order. -/
theorem releases (h : Tells accepted log false n (front ++ q) next)
    (hfront : ∀ e ∈ front, e.isSent) :
    Tells accepted (((List.range' n front.length).map Mark.acked).reverse ++ log) false
      (n + front.length) q next := by
  -- The marks are in order, and the log has the latest first.
  induction front generalizing n log with
  | nil => exact h
  | cons e front ih =>
    have hrest := ih (h.release (hfront e (List.mem_cons_self ..)))
      fun x hx => hfront x (List.mem_cons_of_mem e hx)
    rw [List.length_cons, List.range'_succ, List.map_cons, List.reverse_cons, List.append_assoc]
    rw [Nat.add_assoc, Nat.add_comm 1] at hrest
    exact hrest

/-- `Tells` after a frame was queued behind the others: the log stays as it is. -/
theorem join (h : Tells accepted log pending n q next) (he : ¬ e.isSent) (hseq : e.seq = next) :
    Tells accepted log pending n (q ++ [e]) (next + 1) := by
  have hsent : (q ++ [e]).filter Entry.isSent = q.filter Entry.isSent := by simp [he]
  have hunsent : (q ++ [e]).filter (fun x => !x.isSent) = q.filter (fun x => !x.isSent) ++ [e] := by
    simp [he]
  refine ⟨h.disciplined, h.carried, h.owed_eq, h.sentFirst.append_unsent he, ?_, ?_, ?_, ?_,
    h.acked⟩
  · rw [hsent]
    exact h.quiet
  · rw [hunsent]
    exact h.numbered.append hseq
  · rw [hsent]
    exact h.below
  · rw [hsent]
    exact h.current

/-- `Tells` after more messages were accepted. -/
theorem accept (h : Tells accepted log pending n q next) (more : List Message) :
    Tells (accepted ++ more) log pending n q next := by
  refine { h with carried := ?_ }
  intro k f hk
  obtain ⟨m, hm, hcarries⟩ := h.carried k f hk
  obtain ⟨hlt, -⟩ := List.getElem?_eq_some_iff.mp hm
  exact ⟨m, by rwa [List.getElem?_append_left hlt], hcarries⟩

end Tells

/-! ## What is logged of an operation -/

open Transport

namespace History

variable {h : History} {accepted : List Message} {log : List Mark} {pending : Bool} {n : Nat}
  {q : List Entry} {next : UInt8}

theorem marks_repeat {events : List (Event ε)} {expected : UInt8} (hr : Repeat expected events) :
    events.filterMap h.mark? = [] := by
  cases hr with
  | none => rfl
  | @sent r => cases r <;> rfl

/-- `Tells` after an attempt to send a reset that is due, as the `Notice` says it ended. -/
theorem tells_notice {events : List (Event ε)} (hn : Notice events pending)
    (ht : Tells accepted log true n q next) :
    Tells accepted ((events.filterMap h.mark?).reverse ++ log) pending n q next := by
  cases hn with
  | written => exact ht.written
  | due => exact ht

/-- Behind a flush no reset is due, whether one was or not. -/
theorem tells_flush {t : Transport} {flush : List (Event ε)}
    (hflush : if t.resetPending then Notice flush false else flush = [])
    (ht : Tells accepted log t.resetPending n q next) :
    Tells accepted ((flush.filterMap h.mark?).reverse ++ log) false n q next := by
  split at hflush
  · next hpending =>
    rw [hpending] at ht
    exact tells_notice hflush ht
  · next hfree =>
    rw [Bool.not_eq_true] at hfree
    rw [hflush]
    rwa [hfree] at ht

theorem marks_linkReset (q : List Entry) :
    (((q.map (Entry.failure · .linkReset)).map (Event.abandoned (ε := ε))).filterMap h.mark?) =
      [] := by
  rw [List.map_map, List.filterMap_map]
  exact List.filterMap_eq_nil_iff.mpr fun e _ => rfl

/-- Of the frames that are given up together, one ran out of retries. -/
theorem marks_exhausted {k : Nat} (hk : k < q.length) :
    ((failuresOf (reasonAt (some k)) q).map (Event.abandoned (ε := ε))).filterMap h.mark? =
      [.gaveUp] := by
  induction q generalizing k with
  | nil => exact absurd hk (by simp)
  | cons e rest ih =>
    cases k with
    | zero =>
      rw [failuresOf_oldest, List.map_cons, List.filterMap_cons, marks_linkReset]
      rfl
    | succ k =>
      have hothers : (fun i => reasonAt (some (k + 1)) (i + 1)) = reasonAt (some k) := by
        funext i
        simp [reasonAt]
      rw [failuresOf_cons, List.map_cons, List.filterMap_cons, hothers,
        ih (Nat.lt_of_succ_lt_succ hk)]
      rfl

/-! ## A pass over the queue -/

section pass

variable {front rest : List Entry} {e : Entry}

/-- The `place` of a queued frame, looked up by its number, is where it stands. -/
theorem place_eq (hreg : h.transport.Regular)
    (hframes : (front ++ e :: rest).map Entry.frame = h.transport.queue.map Entry.frame) :
    h.place e.seq = h.departed.length + front.length := by
  have hlen := congrArg List.length hframes
  rw [List.length_map, List.length_map, List.length_append] at hlen
  have hle := Nat.le_trans hreg.length_le hreg.window_le
  have hfront : front.length < 256 := by
    simp only [Config.maxWindow] at hle
    omega
  have hseqs := congrArg (List.map Frame.seq) hframes
  rw [List.map_map, List.map_map] at hseqs
  have hnotMem := (hreg.oldestSeq.congr hseqs).notMem_front hfront
  have hseqs' : (front ++ e :: rest).map Entry.seq = h.transport.queue.map Entry.seq := hseqs
  unfold place
  rw [← hseqs', List.map_append, List.idxOf_append, if_neg hnotMem, List.map_cons,
    List.idxOf_cons_self, List.length_map, Nat.zero_add]

/-- The message of a queued frame is the one that its place names. -/
theorem message_eq (ha : h.Accounted)
    (hframes : (front ++ e :: rest).map Entry.frame = h.transport.queue.map Entry.frame) :
    h.accepted[h.departed.length + front.length]? = some e.message := by
  rw [ha.accepted, ← map_message_congr hframes, List.getElem?_append_right (by simp)]
  simp

/-- **A `sweep` logs what it writes, frame by frame.** -/
theorem tells_pass [ByteSink σ ε] (ha : h.Accounted) (policy : RetryPolicy) (now : UInt32)
    (stats : TransportStats) (sink : σ)
    (ht : Tells h.accepted log false h.departed.length h.transport.queue next) :
    Tells h.accepted
      (((sweep (ε := ε) policy now stats sink h.transport.queue).events.filterMap
        h.mark?).reverse ++ log) false h.departed.length
      (sweep (ε := ε) policy now stats sink h.transport.queue).queue next := by
  -- The frames that were passed are on their way, and the queue has the frames it had before.
  have hpass := sweep_rule (ε := ε) policy now
    (fun done rest events =>
      (∀ e ∈ done, e.isSent) ∧
        (done ++ rest).map Entry.frame = h.transport.queue.map Entry.frame ∧
        Tells h.accepted ((events.filterMap h.mark?).reverse ++ log) false h.departed.length
          (done ++ rest) next)
    ?wait ?sent ?refused stats sink ⟨by simp, rfl, ht⟩
  · obtain ⟨done, rest, hqueue, ⟨-, -, htells⟩, -⟩ := hpass
    rw [hqueue]
    exact htells
  case wait =>
    -- The frame has to wait, so it was sent before.
    rintro done e rest events hact ⟨hdone, hframes, htells⟩
    have hne : e.action policy now ≠ .send := by simp [hact]
    rw [List.append_cons] at hframes htells
    exact ⟨isSent_concat hdone (Entry.isSent_of_action hne), hframes, htells⟩
  case sent =>
    -- The frame is written, and the log has it before the pass goes on.
    rintro done e rest events m hact ⟨hdone, hframes, htells⟩
    have hmark : h.mark? (.attempted (ε := ε) e.frame (.ok m)) =
        some (.data (h.departed.length + done.length) e.frame) := by
      rw [← place_eq ha.regular hframes]
      rfl
    have hframe : (e.markSent now).frame = e.frame := rfl
    have hwritten := htells.sent hdone (message_eq ha hframes) now
    rw [List.append_cons] at hwritten
    refine ⟨isSent_concat hdone (show (e.markSent now).isSent from rfl), ?_, ?_⟩
    · rw [← hframes]
      simp [hframe]
    · rw [List.filterMap_append, List.filterMap_cons, hmark, List.reverse_append]
      exact hwritten
  case refused =>
    -- What the sink refuses is not logged.
    rintro done e rest events failure ⟨hdone, hframes, htells⟩
    refine ⟨hdone, hframes, ?_⟩
    rw [List.filterMap_append, List.reverse_append]
    exact htells

end pass

/-! ## What an operation does to log and queue -/

section step

variable {op : Transport.Operation σ} {events : List (Event ε)} {t : Transport}

/-- The log of the history `Tells` of the queue of its transport. -/
def Told (h : History) : Prop :=
  Tells h.accepted h.log h.transport.resetPending h.departed.length h.transport.queue
    h.transport.nextSeq

theorem pending_le {t t' : Transport} (h : t'.queue = t.queue) : t.pending ≤ t'.pending :=
  Nat.le_of_eq (congrArg List.length h.symm)

theorem length_left (h : History) (t : Transport) :
    (h.left t).length = h.transport.pending - t.pending := by
  rw [left, List.length_take]
  exact Nat.min_eq_left (Nat.sub_le ..)

theorem marks_of_not_ack (hack : op.isAck = false) (t : Transport) :
    h.marks op events t = op.mark?.toList ++ events.filterMap h.mark? := by
  simp [marks, hack]

/-- Where no frame leaves the queue, the log tells of the events only. -/
theorem tells_of_stay (hlen : h.transport.pending ≤ t.pending) (hop : op.mark? = none)
    (ht : Tells h.accepted ((events.filterMap h.mark?).reverse ++ h.log) t.resetPending
      h.departed.length t.queue t.nextSeq) :
    Tells h.accepted ((h.marks op events t).reverse ++ h.log) t.resetPending
      (h.departed.length + (h.left t).length) t.queue t.nextSeq := by
  have hleft : (h.left t).length = 0 := by
    rw [h.length_left]
    omega
  have hmarks : h.marks op events t = events.filterMap h.mark? := by
    simp [marks, hop, hleft]
  rw [hmarks, hleft]
  exact ht

/-- `Tells` after a restart with the frames `q'`, none of which was on its way. -/
theorem tells_renew {m : Mark} (q' : List Entry) {k : Nat} {due : Bool}
    (ht : Tells h.accepted log pending h.departed.length q next)
    (hq : q.length = h.transport.pending)
    (hq' : (q.filter Entry.isSent).length + q'.length ≤ q.length)
    (hm : m = .gaveUp ∨ m.isBoundary)
    (hu : Unmoved (h.transport.renew (renumbered q') k due) t) :
    Tells h.accepted (m :: log) (owed (m :: log)) (h.departed.length + (h.left t).length) t.queue
      t.nextSeq := by
  have hlen : t.queue.length = q'.length := by
    rw [hu.queue]
    exact length_renumbered q'
  have hnext : t.nextSeq = q'.length.toUInt8 := by
    rw [hu.nextSeq]
    simp only [renew, length_renumbered]
  rw [hu.queue, hnext, h.length_left]
  apply ht.restart hm
  unfold Transport.pending at hq ⊢
  omega

/-- `Tells` after `n` frames on their way were acknowledged. -/
theorem tells_acked {now : UInt32} {f : Frame} {sink : σ} {n : Nat} (ht : h.Told)
    (hid : f.id = .ack) (hfree : h.transport.resetPending = false)
    (hle : n ≤ h.transport.inFlight) (hqueue : t.queue = h.transport.queue.drop n) :
    Tells h.accepted ((h.marks (.receive now f sink) ([] : List (Event ε)) t).reverse ++ h.log)
      false (h.departed.length + (h.left t).length) t.queue h.transport.nextSeq := by
  have hle' := Nat.le_trans hle h.transport.inFlight_le
  have hdropped : h.transport.pending - t.pending = n := by
    unfold Transport.pending
    rw [hqueue, List.length_drop]
    omega
  have hleft : h.left t = h.transport.queue.take n :=
    congrArg (List.take · h.transport.queue) hdropped
  unfold Told at ht
  rw [hfree, ← List.take_append_drop n h.transport.queue] at ht
  have hreleased := ht.releases (isSent_of_mem_take hle)
  unfold marks
  rw [hleft, hqueue]
  simpa [Operation.mark?, Operation.isAck, hid] using hreleased

/-- A tick finds a frame out of retries, after it wrote what came before. -/
theorem tells_gaveUp [ByteSink σ ε] {now : UInt32} {stats : TransportStats} {sink sink' : σ}
    {k : Nat} {due : Bool} {flush notice acks : List (Event ε)} (ha : h.Accounted) (ht : h.Told)
    (hflush : if h.transport.resetPending then Notice flush false else flush = [])
    (hnotice : Notice notice due) (hacks : Repeat 0 acks) {swept : Sweep σ ε}
    (hswept : swept = sweep h.transport.policy now stats sink' h.transport.queue)
    (hsome : swept.exhausted = some k)
    (hu : Unmoved
      (h.transport.renew (kept swept.queue) (lost swept.queue (some k)).length due) t) :
    Tells h.accepted
      ((h.marks (.service now sink) (flush ++
        (swept.events ++ ((lost swept.queue (some k)).map .abandoned ++ notice)) ++ acks)
        t).reverse ++ h.log)
      due (h.departed.length + (h.left t).length) t.queue t.nextSeq := by
  subst hswept
  have hsentFirst := ha.regular.sentFirst
  have hflushed := tells_flush (h := h) hflush ht
  have hwritten := tells_pass ha h.transport.policy now stats sink' hflushed
  -- What the pass has written so far is lost with the restart that ends it.
  have hshape := sentFirst_sweep h.transport.policy now stats sink' hsentFirst
  have hlen := length_sweep h.transport.policy now stats sink' h.transport.queue
  have hgaveUp := tells_renew (m := .gaveUp) _ hwritten hlen
    (Nat.le_of_eq hshape.length_filters) (.inl rfl) hu
  have hnoticed := tells_notice (h := h) hnotice hgaveUp
  have hk := exhausted_lt h.transport.policy now stats sink' hsentFirst hsome
  rw [marks_of_not_ack rfl, List.filterMap_append, List.filterMap_append, List.filterMap_append,
    List.filterMap_append, marks_repeat hacks, lost_eq hshape, marks_exhausted hk]
  simpa [Operation.mark?] using hnoticed

/-- **Every operation adds to the log what it does to the queue.** -/
theorem tells_effect [ByteSink σ ε] (ha : h.Accounted) (ht : h.Told)
    (he : h.transport.Effect op events t) :
    Tells h.accepted ((h.marks op events t).reverse ++ h.log) t.resetPending
      (h.departed.length + (h.left t).length) t.queue t.nextSeq := by
  unfold Told at ht
  have hsentFirst := ha.regular.sentFirst
  cases he with
  | refused => exact tells_of_stay (Nat.le_refl _) rfl ht
  | heard => exact tells_of_stay (Nat.le_refl _) rfl ht
  | @queued e seq t' hsend hroom hid hseq hnew hzero hu =>
    have hunsent : ¬ e.isSent := by simp [Entry.isSent, hnew]
    apply tells_of_stay
    · unfold Transport.pending
      rw [hu.queue, List.length_append]
      omega
    · rfl
    · rw [hu.queue, hu.nextSeq, hu.resetPending]
      exact ht.join hunsent hseq
  | blocked hpending hnotice hu =>
    -- The reset stays due, so its attempt is not logged.
    apply tells_of_stay (pending_le hu.queue) rfl
    rw [hu.queue, hu.nextSeq, hu.resetPending, hpending]
    rw [hpending] at ht
    exact tells_notice hnotice ht
  | @swept now _ _ _ _ _ hflush hswept hnone hacks hu =>
    obtain ⟨stats, sink, rfl⟩ := hswept
    have hflushed := tells_flush (h := h) hflush ht
    have hwritten := tells_pass ha h.transport.policy now stats sink hflushed
    have hlen : t.pending = h.transport.pending :=
      (congrArg List.length hu.queue).trans (length_sweep ..)
    apply tells_of_stay
    · exact Nat.le_of_eq hlen.symm
    · rfl
    · rw [hu.queue, hu.nextSeq, hu.resetPending, List.filterMap_append, List.filterMap_append,
        marks_repeat hacks, List.append_nil, List.reverse_append, List.append_assoc]
      exact hwritten
  | @gaveUp now _ _ k due _ _ _ _ hflush hswept hsome hnotice hacks hu =>
    obtain ⟨stats, sink, hswept⟩ := hswept
    have hdue : t.resetPending = due := hu.resetPending
    rw [hdue]
    exact tells_gaveUp ha ht hflush hnotice hacks hswept hsome hu
  | passed hid => exact tells_of_stay (Nat.le_refl _) (by simp [Operation.mark?, hid]) ht
  | spurious hid hbad hu =>
    apply tells_of_stay (pending_le hu.queue) (by simp [Operation.mark?, hid])
    rw [hu.queue, hu.nextSeq, hu.resetPending]
    exact ht
  | acked hid hpending hn hle =>
    have hfree : h.transport.resetPending = false := by simpa using hpending
    rw [hfree]
    exact tells_acked ht hid hfree hle rfl
  | @delivered now f sink id r t' hid hseq hu | @unexpected now f sink id r t' hid hseq hu =>
    apply tells_of_stay (pending_le hu.queue) (by simp [Operation.mark?, hid])
    rw [hu.queue, hu.nextSeq, hu.resetPending]
    cases r <;> exact ht
  | @told now f sink t' hid hu =>
    -- A reset that was heard settles one that is due.
    have htold := tells_renew (m := .resetHeard) _ ht rfl (Nat.le_of_eq hsentFirst.length_filters)
      (.inr rfl) hu
    have hdue : t.resetPending = owed (.resetHeard :: h.log) := hu.resetPending
    rw [marks_of_not_ack (by simp [Operation.isAck, hid]), hdue, lost_none hsentFirst,
      marks_linkReset]
    simpa [Operation.mark?, hid] using htold
  | dropped hu =>
    -- A reset that the peer need not hear of leaves one that is due.
    have hcleared := tells_renew (m := .resetCalled false) [] ht rfl
      (List.length_filter_le ..) (.inr rfl) hu
    have hdue : t.resetPending = owed (.resetCalled false :: h.log) :=
      hu.resetPending.trans ht.owed_eq.symm
    rw [marks_of_not_ack rfl, marks_linkReset, hdue]
    exact hcleared
  | @reset sink pending _ _ hnotice hu =>
    have hcleared := tells_renew (m := .resetCalled true) [] ht rfl
      (List.length_filter_le ..) (.inr rfl) hu
    have hnoticed := tells_notice (h := h) hnotice hcleared
    have hdue : t.resetPending = pending := hu.resetPending
    rw [marks_of_not_ack rfl, List.filterMap_append, marks_linkReset, hdue]
    simpa [Operation.mark?] using hnoticed

end step

/-! ## Runs -/

variable [ByteSink σ ε]

theorem told_fresh (c : Config) : Told { transport := .ofConfig c } where
  disciplined := .start
  carried := by simp
  owed_eq := rfl
  sentFirst := (regular_ofConfig c).sentFirst
  quiet := fun _ => rfl
  numbered := rfl
  below := by simp
  current := by simp [ofConfig]
  acked := by simp

/-- **Every operation keeps `Told`.** -/
theorem Told.perform (ht : h.Told) (ha : h.Accounted) (op : Transport.Operation σ) :
    (h.perform (ε := ε) op).Told := by
  have heffect := tells_effect ha ht (h.transport.perform_effect (ε := ε) op)
  have haccept := heffect.accept (op.accepted h.transport)
  unfold Told History.perform
  simp only [List.length_append, List.length_map]
  exact haccept

theorem told_run (c : Config) (ops : List (Transport.Operation σ)) :
    (run (ε := ε) c ops).Told := by
  unfold run
  suffices hfrom : ∀ h : History, h.Accounted → h.Told →
      (ops.foldl (History.perform (ε := ε)) h).Told from
    hfrom _ (accounted_fresh c) (told_fresh c)
  induction ops with
  | nil => exact fun h _ ht => ht
  | cons op ops ih => exact fun h ha ht => ih _ (ha.perform op) (ht.perform ha op)

/-- **What a transport writes follows the rules, whatever was done with it.** -/
theorem disciplined_run (c : Config) (ops : List (Transport.Operation σ)) :
    let h := run (ε := ε) c ops
    Disciplined h.log ∧
      (∀ k f, .data k f ∈ h.log → ∃ m, h.accepted[k]? = some m ∧ f.Carries m) ∧
      ((Transport.ofConfig c).run (ε := ε) ops).resetPending = owed h.log := by
  intro h
  have htold : h.Told := told_run c ops
  refine ⟨htold.disciplined, htold.carried, ?_⟩
  rw [← transport_run]
  exact htold.owed_eq.symm

end History

end SerialLink
