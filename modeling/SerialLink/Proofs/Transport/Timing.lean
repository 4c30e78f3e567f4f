import SerialLink.Proofs.Transport.Discipline
import SerialLink.Proofs.Transmit
import Mathlib.Data.List.Chain

/-!
# When messages are sent

Each data frame that is written gets a stamp with the place of its message and the time. Times can
be anything; a clock tells which time the transport saw. An entry of the queue holds the last time
of its message and how many there were, and so the retry policy is kept over all of them.

`Entry.Recorded` says it of one entry, and `RetryPolicy.Permits` of the times of one message;
`Recorded.markSent` and `Recorded.exhausted` are the two places where the policy decides. `Timed`
says it of a queue with the stamps so far, and has a lemma for each way in which queues change:
`append`, `drop`, `restart` and `sent`. `timed_sweep` is `Transport.sweep_rule` with the stamps kept
along, for what else is to hold at every frame of a pass: `Proofs.Transport.Diary` uses it for the
messages that the stamps carry, and `Proofs.Transport.Exhaustion` for their ranks.
-/

namespace SerialLink

variable {σ ε τ : Type}

/-! ## Stamps -/

/-- A data frame, and when something happened to it. -/
structure Stamp (τ : Type) where
  /-- The place of its message among those accepted. -/
  index : Nat
  frame : Frame
  time : τ
  deriving DecidableEq

/-- The times at which something happened to the message with this `index`, in the order of the
stamps. -/
def timesOf (stamps : List (Stamp τ)) (index : Nat) : List τ :=
  (stamps.filter (·.index = index)).map Stamp.time

section stamps

variable {stamps : List (Stamp τ)} {index k : Nat} {f : Frame} {time : τ}

theorem timesOf_cons_self :
    timesOf (⟨index, f, time⟩ :: stamps) index = time :: timesOf stamps index := by
  simp [timesOf]

theorem timesOf_cons_of_ne (h : index ≠ k) :
    timesOf (⟨index, f, time⟩ :: stamps) k = timesOf stamps k := by
  simp [timesOf, h]

end stamps

/-! ## The times of one message -/

section entries

variable {clock : τ → UInt32} {policy : RetryPolicy} {times : List τ} {time : τ} {e : Entry}

/-- A message may be sent at these times, latest first: not too often, and each time no sooner than
the timeout allows. -/
structure RetryPolicy.Permits (policy : RetryPolicy) (clock : τ → UInt32) (times : List τ) :
    Prop where
  length_le : times.length ≤ policy.maxRetransmits.toNat + 1
  spaced : times.IsChain fun later earlier =>
    policy.timeout ≤ elapsed (clock later) (clock earlier)

theorem RetryPolicy.permits_nil : policy.Permits clock [] := ⟨Nat.zero_le _, .nil⟩

namespace Entry

/-- What each `RetryAction` for a queued frame says of it. -/
theorem action_spec (e : Entry) (policy : RetryPolicy) (now : UInt32) :
    match e.action policy now with
    | .send => e.lastSent = none
    | .wait => ∃ since, e.lastSent = some since ∧ elapsed now since < policy.timeout
    | .resend => ∃ since, e.lastSent = some since ∧ policy.timeout ≤ elapsed now since ∧
        e.retransmits < policy.maxRetransmits
    | .giveUp => ∃ since, e.lastSent = some since ∧ policy.timeout ≤ elapsed now since ∧
        policy.maxRetransmits ≤ e.retransmits := by
  unfold action RetryPolicy.action
  cases e.lastSent with
  | none => rfl
  | some since =>
    dsimp only
    by_cases hdue : elapsed now since < policy.timeout
    · rw [if_pos hdue]
      exact ⟨since, rfl, hdue⟩
    · have hdue' := UInt32.not_lt.mp hdue
      rw [if_neg hdue]
      by_cases hmax : policy.maxRetransmits ≤ e.retransmits
      · rw [if_pos hmax]
        exact ⟨since, rfl, hdue', hmax⟩
      · rw [if_neg hmax]
        exact ⟨since, rfl, hdue', UInt8.not_le.mp hmax⟩

/-- A frame that is sent again has a repetition left, so `retransmits` is below its largest value,
and `markSent` makes it grow. -/
theorem retransmits_markSent {e : Entry} {policy : RetryPolicy} {now : UInt32}
    (hact : e.action policy now = .resend) :
    e.retransmits.toNat < policy.maxRetransmits.toNat ∧
      (e.markSent now).retransmits.toNat = e.retransmits.toNat + 1 := by
  have hspec := e.action_spec policy now
  rw [hact] at hspec
  obtain ⟨since, hlast, -, hlt⟩ := hspec
  have hmax := policy.maxRetransmits.toNat_lt
  rw [UInt8.lt_iff_toNat_lt] at hlt
  have hbelow : e.retransmits < 255 :=
    UInt8.lt_iff_toNat_lt.mpr (Nat.lt_of_lt_of_le hlt (Nat.le_of_lt_succ hmax))
  have hmark : (e.markSent now).retransmits = e.retransmits + 1 :=
    if_pos ⟨by simp [isSent, hlast], hbelow⟩
  refine ⟨hlt, ?_⟩
  rw [hmark, UInt8.toNat_add, UInt8.toNat_one]
  omega

/-- The entry holds the last time at which it was sent, and counts the times. -/
structure Recorded (clock : τ → UInt32) (times : List τ) (e : Entry) : Prop where
  lastSent : e.lastSent = times.head?.map clock
  count : times.length = e.retransmits.toNat + e.isSent.toNat

/-- An entry that was never sent has no times. -/
theorem recorded_new (hnew : e.lastSent = none) (hzero : e.retransmits = 0) :
    e.Recorded clock [] where
  lastSent := hnew
  count := by simp [isSent, hnew, hzero]

namespace Recorded

theorem eq_nil (h : e.Recorded clock times) (he : ¬ e.isSent) : times = [] := by
  have hlast := h.lastSent
  cases times with
  | nil => rfl
  | cons last earlier => exact absurd (by simp [isSent, hlast]) he

/-- The times of an entry that `isSent` have a last one, which the entry holds, and are as many as
its repetitions and the first time. -/
theorem eq_cons (h : e.Recorded clock times) (he : e.isSent) :
    ∃ last earlier, times = last :: earlier ∧ e.lastSent = some (clock last) ∧
      times.length = e.retransmits.toNat + 1 := by
  have hlast := h.lastSent
  have hcount := h.count
  rw [he] at hcount
  cases times with
  | nil => exact absurd he (by simp [isSent, hlast])
  | cons last earlier => exact ⟨last, earlier, rfl, hlast, hcount⟩

/-- What is sent when it is due is sent neither too soon nor too often, and its entry keeps
count. -/
theorem markSent (h : e.Recorded clock times) (hpermits : policy.Permits clock times)
    (hact : e.action policy (clock time) = .send ∨ e.action policy (clock time) = .resend) :
    (e.markSent (clock time)).Recorded clock (time :: times) ∧
      policy.Permits clock (time :: times) := by
  have hspec := e.action_spec policy (clock time)
  have hcount := h.count
  rcases hact with hact | hact
  -- For the first time: there are no times yet, and the repetitions are not counted.
  · rw [hact] at hspec
    have he : e.isSent = false := by simp [isSent, hspec]
    obtain rfl := h.eq_nil (by simp [he])
    have hmark : (e.markSent (clock time)).retransmits = e.retransmits :=
      if_neg fun hboth => by simp [he] at hboth
    rw [he] at hcount
    refine ⟨⟨rfl, ?_⟩, by simp, .singleton time⟩
    rw [hmark]
    exact congrArg (· + 1) hcount
  -- Again: the timeout since the last time has passed, and a repetition was left.
  · rw [hact] at hspec
    obtain ⟨since, hlast, hdue, -⟩ := hspec
    obtain ⟨hlt, hmark⟩ := retransmits_markSent hact
    obtain ⟨last, earlier, rfl, hlast', hcount'⟩ := h.eq_cons (by simp [isSent, hlast])
    obtain rfl : clock last = since := Option.some.inj (hlast'.symm.trans hlast)
    refine ⟨⟨rfl, ?_⟩, ?_, hpermits.spaced.cons_cons hdue⟩
    · rw [hmark, List.length_cons, hcount']
      rfl
    · rw [List.length_cons, hcount']
      omega

/-- A frame that is given up was sent as often as allowed, and its last timeout has passed. -/
theorem exhausted (h : e.Recorded clock times) (hpermits : policy.Permits clock times)
    (hact : e.action policy (clock time) = .giveUp) :
    times.length = policy.maxRetransmits.toNat + 1 ∧
      ∃ last ∈ times.head?, policy.timeout ≤ elapsed (clock time) (clock last) := by
  have hspec := e.action_spec policy (clock time)
  rw [hact] at hspec
  obtain ⟨since, hlast, hdue, hmax⟩ := hspec
  obtain ⟨last, earlier, rfl, hlast', hcount⟩ := h.eq_cons (by simp [isSent, hlast])
  obtain rfl : clock last = since := Option.some.inj (hlast'.symm.trans hlast)
  have hle := hpermits.length_le
  rw [UInt8.le_iff_toNat_le] at hmax
  exact ⟨by omega, last, rfl, hdue⟩

end Recorded

end Entry

end entries

/-! ## The times of a queue -/

/-- The stamps are those of the data frames sent on the way to a queue, after `n` messages left
it. -/
structure Timed (clock : τ → UInt32) (policy : RetryPolicy) (stamps : List (Stamp τ)) (n : Nat)
    (q : List Entry) : Prop where
  permits : ∀ k, policy.Permits clock (timesOf stamps k)
  recorded : ∀ (i : Nat) (e : Entry), q[i]? = some e → e.Recorded clock (timesOf stamps (n + i))
  ahead : ∀ k, n + q.length ≤ k → timesOf stamps k = []

namespace Timed

variable {clock : τ → UInt32} {policy : RetryPolicy} {stamps : List (Stamp τ)} {n : Nat}
  {q front back : List Entry} {e : Entry}

/-- An entry behind `front` has the times of the message at this place. -/
theorem recorded_at (h : Timed clock policy stamps n (front ++ e :: back)) :
    e.Recorded clock (timesOf stamps (n + front.length)) :=
  h.recorded front.length e (by simp)

/-- `Timed` after a message was accepted, which goes behind the others. -/
theorem append (h : Timed clock policy stamps n q) (hnew : e.lastSent = none)
    (hzero : e.retransmits = 0) : Timed clock policy stamps n (q ++ [e]) where
  permits := h.permits
  recorded := by
    intro i x hx
    rw [List.getElem?_append] at hx
    split at hx
    · exact h.recorded i x hx
    · next hge =>
      have hmem := List.mem_of_getElem? hx
      rw [h.ahead _ (Nat.add_le_add_left (Nat.le_of_not_lt hge) n), List.mem_singleton.mp hmem]
      exact Entry.recorded_new hnew hzero
  ahead := by
    intro k hk
    rw [List.length_append] at hk
    exact h.ahead k (by omega)

/-- `Timed` after messages left the queue at its front. -/
theorem drop (h : Timed clock policy stamps n q) (m : Nat) (hm : m ≤ q.length) :
    Timed clock policy stamps (n + m) (q.drop m) where
  permits := h.permits
  recorded := by
    intro i x hx
    rw [List.getElem?_drop] at hx
    rw [Nat.add_assoc]
    exact h.recorded (m + i) x hx
  ahead := by
    intro k hk
    rw [List.length_drop] at hk
    exact h.ahead k (by omega)

/-- `Timed` after numbering started anew, when all that were sent have left. -/
theorem restart (h : Timed clock policy stamps n q) {m : Nat} {q' : List Entry}
    (hunsent : ∀ (i : Nat) (e : Entry), m ≤ i → q[i]? = some e → ¬ e.isSent)
    (hnew : ∀ e ∈ q', e.lastSent = none ∧ e.retransmits = 0) :
    Timed clock policy stamps (n + m) q' := by
  -- No message was sent whose place is not before those that are kept.
  have hnil : ∀ k, n + m ≤ k → timesOf stamps k = [] := by
    intro k hk
    obtain ⟨i, rfl⟩ : ∃ i, k = n + i := ⟨k - n, by omega⟩
    cases hi : q[i]? with
    | none =>
      apply h.ahead
      have hle := List.getElem?_eq_none_iff.mp hi
      omega
    | some e => exact (h.recorded i e hi).eq_nil (hunsent i e (by omega) hi)
  refine ⟨h.permits, ?_, ?_⟩
  · intro i e he
    obtain ⟨hlast, hzero⟩ := hnew e (List.mem_of_getElem? he)
    rw [hnil _ (by omega)]
    exact Entry.recorded_new hlast hzero
  · exact fun k hk => hnil k (by omega)

/-- `Timed` after a data frame that was due was written. -/
theorem sent (h : Timed clock policy stamps n (front ++ e :: back)) {time : τ} {f : Frame}
    (hact : e.action policy (clock time) = .send ∨ e.action policy (clock time) = .resend) :
    Timed clock policy (⟨n + front.length, f, time⟩ :: stamps) n
      (front ++ e.markSent (clock time) :: back) := by
  obtain ⟨hrecorded, hpermits⟩ := h.recorded_at.markSent (h.permits _) hact
  -- Only the times of this message, and the entry at this place, are other ones.
  refine ⟨fun k => ?_, fun i x hx => ?_, fun k hk => ?_⟩
  · by_cases hk : n + front.length = k
    · subst hk
      rw [timesOf_cons_self]
      exact hpermits
    · rw [timesOf_cons_of_ne hk]
      exact h.permits k
  · by_cases hi : front.length = i
    · subst hi
      rw [timesOf_cons_self]
      obtain rfl : e.markSent (clock time) = x := by simpa using hx
      exact hrecorded
    · rw [timesOf_cons_of_ne (by omega)]
      apply h.recorded
      rw [← hx, List.getElem?_append, List.getElem?_append]
      split
      · rfl
      · rw [List.getElem?_cons, List.getElem?_cons, if_neg (by omega), if_neg (by omega)]
  · rw [List.length_append, List.length_cons] at hk
    rw [timesOf_cons_of_ne (by omega)]
    apply h.ahead
    rw [List.length_append, List.length_cons]
    omega

end Timed

/-! ## Stamps of an operation -/

/-- The data frames that were written, in order. -/
def dataWritten (events : List (Event ε)) : List Frame := (written events).filter Frame.isData

/-- The frames reported with `retriesExhausted`. -/
def exhausted (events : List (Event ε)) : List Frame :=
  ((failures events).filter (·.reason = .retriesExhausted)).map DeliveryFailure.frame

theorem dataWritten_append (events events' : List (Event ε)) :
    dataWritten (events ++ events') = dataWritten events ++ dataWritten events' := by
  simp [dataWritten]

namespace Transport

theorem dataWritten_abandoned (xs : List DeliveryFailure) :
    dataWritten (xs.map (Event.abandoned (ε := ε))) = [] := by
  simp [dataWritten]

theorem Notice.dataWritten_eq {events : List (Event ε)} {pending : Bool}
    (h : Notice events pending) : dataWritten events = [] := by
  cases h <;> rfl

theorem Repeat.dataWritten_eq {expected : UInt8} {events : List (Event ε)}
    (h : Repeat expected events) : dataWritten events = [] := by
  cases h with
  | none => rfl
  | @sent r => cases r <;> rfl

theorem dataWritten_flush {t : Transport} {flush : List (Event ε)}
    (h : if t.resetPending then Notice flush false else flush = []) : dataWritten flush = [] := by
  split at h
  · exact h.dataWritten_eq
  · rw [h]
    rfl

/-- Where numbering starts anew without a give-up, no frame runs out of retries. -/
theorem exhausted_linkReset (q : List Entry) (events : List (Event ε))
    (h : failures events = q.map (Entry.failure · .linkReset)) : exhausted events = [] := by
  have hnone : (q.map (Entry.failure · .linkReset)).filter (·.reason = .retriesExhausted) = [] :=
    List.filter_eq_nil_iff.mpr fun x hx => by
      obtain ⟨e, -, rfl⟩ := List.mem_map.mp hx
      simp [Entry.failure]
  rw [exhausted, h, hnone, List.map_nil]

/-- A part of the queue in which no frame ran out of retries. -/
theorem exhausted_others {k : Nat} (q : List Entry) (n : Nat)
    (h : ∀ i, i < q.length → k ≠ n + i) :
    ((q.zipIdx n).filterMap fun x =>
      if x.1.isSent then some (x.1.failure (reasonAt (some k) x.2)) else none).filter
        (·.reason = .retriesExhausted) = [] := by
  apply List.filter_eq_nil_iff.mpr
  intro x hx
  obtain ⟨⟨e, i⟩, he, hx⟩ := List.mem_filterMap.mp hx
  obtain ⟨hge, hlt, -⟩ := List.mem_zipIdx he
  have hplace := h (i - n) (by omega)
  rw [Nat.add_sub_cancel' hge] at hplace
  split at hx
  · obtain rfl := Option.some.inj hx
    simp [Entry.failure, reasonAt, hplace]
  · exact absurd hx (by simp)

/-- Of the frames that are `lost` together, the one at the place named ran out of retries. -/
theorem exhausted_lost {front back : List Entry} {e : Entry} (he : e.isSent) :
    (lost (front ++ e :: back) (some front.length)).filter (·.reason = .retriesExhausted) =
      [e.failure .retriesExhausted] := by
  have hself : reasonAt (some front.length) (0 + front.length) = .retriesExhausted := by
    simp [reasonAt]
  have hreported : (e.failure .retriesExhausted).reason = .retriesExhausted := rfl
  have hlost : lost (front ++ e :: back) (some front.length) =
      (front ++ e :: back).zipIdx.filterMap fun x =>
        if x.1.isSent then some (x.1.failure (reasonAt (some front.length) x.2)) else none := rfl
  rw [hlost, List.zipIdx_append, List.filterMap_append, List.filter_append,
    exhausted_others front 0 (by omega), List.zipIdx_cons, List.filterMap_cons]
  simp only [if_pos he, hself, hreported, decide_true, List.filter_cons_of_pos, List.nil_append]
  rw [exhausted_others back _ (by omega)]

end Transport

namespace History

open Transport

/-- A `Stamp` for a data frame, which is looked up in the queue before the operation. -/
def stamp (h : History) (time : τ) (f : Frame) : Stamp τ := ⟨h.place f.seq, f, time⟩

/-- The stamps with those of the data frames written, latest first. -/
def enter (h : History) (time : τ) (events : List (Event ε)) (stamps : List (Stamp τ)) :
    List (Stamp τ) :=
  ((dataWritten events).map (h.stamp time)).reverse ++ stamps

/-- The stamp is for the message that its frame carries. -/
def Carried (accepted : List Message) (s : Stamp τ) : Prop :=
  ∃ m, accepted[s.index]? = some m ∧ s.frame.Carries m

theorem Carried.append {accepted : List Message} {s : Stamp τ} (h : Carried accepted s)
    (more : List Message) : Carried (accepted ++ more) s := by
  obtain ⟨m, hm, hcarries⟩ := h
  obtain ⟨hlt, -⟩ := List.getElem?_eq_some_iff.mp hm
  exact ⟨m, by rwa [List.getElem?_append_left hlt], hcarries⟩

/-- The message of a stamp has left the queue, after it was sent as often as allowed and its last
timeout has passed. -/
def Spent (clock : τ → UInt32) (policy : RetryPolicy) (stamps : List (Stamp τ)) (n : Nat)
    (x : Stamp τ) : Prop :=
  x.index < n ∧ (timesOf stamps x.index).length = policy.maxRetransmits.toNat + 1 ∧
    ∃ last ∈ (timesOf stamps x.index).head?, policy.timeout ≤ elapsed (clock x.time) (clock last)

section pass

variable {h : History} {clock : τ → UInt32} {policy : RetryPolicy} {time : τ}
  {events : List (Event ε)} {stamps : List (Stamp τ)}

theorem enter_of_no_data (hnone : dataWritten events = []) :
    h.enter time events stamps = stamps := by
  simp [enter, hnone]

/-- A frame of the queue that is written gets the stamp of its `place`. -/
theorem enter_sent (e : Entry) (n : Nat) :
    h.enter time (events ++ [.attempted e.frame (.ok n)]) stamps =
      ⟨h.place e.seq, e.frame, time⟩ :: h.enter time events stamps := by
  have hdata : dataWritten [Event.attempted (ε := ε) e.frame (.ok n)] = [e.frame] := rfl
  rw [enter, dataWritten_append, hdata, List.map_append, List.reverse_append]
  rfl

/-- What the sink refuses gets no stamp. -/
theorem enter_refused (f : Frame) (failure : SendError ε) :
    h.enter time (events ++ [.attempted f (.error failure)]) stamps =
      h.enter time events stamps := by
  simp [enter, dataWritten]

/-- **The loop rule of a pass with its stamps.** What is passed, what is ahead and the stamps so far
go together at every frame of the pass. -/
theorem timed_sweep [ByteSink σ ε] (ha : h.Accounted)
    (P : List Entry → List Entry → List (Stamp τ) → Prop)
    (wait : ∀ {done e rest stamps},
      Timed clock policy stamps h.departed.length (done ++ e :: rest) →
      e.action policy (clock time) = .wait → P done (e :: rest) stamps →
        P (done ++ [e]) rest stamps)
    (sent : ∀ {done e rest stamps},
      Timed clock policy stamps h.departed.length (done ++ e :: rest) →
      (done ++ e :: rest).map Entry.frame = h.transport.queue.map Entry.frame →
      e.action policy (clock time) = .send ∨ e.action policy (clock time) = .resend →
      P done (e :: rest) stamps →
        P (done ++ [e.markSent (clock time)]) rest
          (⟨h.departed.length + done.length, e.frame, time⟩ :: stamps))
    (stats : TransportStats) (sink : σ)
    (htimed : Timed clock policy stamps h.departed.length h.transport.queue)
    (start : P [] h.transport.queue stamps) :
    let swept := Transport.sweep policy (clock time) stats sink h.transport.queue
    let stamps' := h.enter time swept.events stamps
    ∃ done rest, swept.queue = done ++ rest ∧
      (Timed clock policy stamps' h.departed.length (done ++ rest) ∧ P done rest stamps' ∧
        (done ++ rest).map Entry.frame = h.transport.queue.map Entry.frame) ∧
      ∀ k, swept.exhausted = some k →
        k = done.length ∧
          ∃ e others, rest = e :: others ∧ e.action policy (clock time) = .giveUp := by
  intro swept stamps'
  -- The rule of a pass, with the stamps that its events so far give in place of the events.
  refine Transport.sweep_rule (ε := ε) policy (clock time)
    (fun done rest events =>
      Timed clock policy (h.enter time events stamps) h.departed.length (done ++ rest) ∧
        P done rest (h.enter time events stamps) ∧
        (done ++ rest).map Entry.frame = h.transport.queue.map Entry.frame)
    ?wait ?sent ?refused stats sink ?start
  case wait =>
    rintro done e rest events hact ⟨ht, hP, hframes⟩
    have hP' := wait ht hact hP
    rw [List.append_cons] at ht hframes
    exact ⟨ht, hP', hframes⟩
  case sent =>
    rintro done e rest events m hact ⟨ht, hP, hframes⟩
    have hP' := sent ht hframes hact hP
    have ht' := ht.sent (f := e.frame) hact
    have hframe : (e.markSent (clock time)).frame = e.frame := rfl
    rw [enter_sent, place_eq ha.regular hframes]
    rw [List.append_cons] at ht'
    refine ⟨ht', hP', ?_⟩
    rw [← hframes]
    simp [hframe]
  case refused =>
    rintro done e rest events failure hkept
    rwa [enter_refused]
  case start => exact ⟨htimed, start, rfl⟩

end pass

end History

end SerialLink
