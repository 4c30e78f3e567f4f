import SerialLink.Frame.Wire

/-!
# Taking stuffed bytes apart

Reading stuffed bytes gives the bytes back, up to any point of them, so that of two stuffed forms
one begins with the other only if the bytes do. Each byte of a stuffed form is a byte that was
stuffed or a stuff byte, and what stands behind it depends on no more than the run of marker bytes
before it.

All of this is about the functions `stuffFrom` and `unstuffFrom` of `SerialLink.Stuffing`, by
induction on the bytes with the run generalized. `runAfter` and `readRun` are the runs that the two
leave open, so that each of them splits at any cut (`stuffFrom_append`, `unstuffFrom_append`).
`Proofs.Decoder.RoundTrip` and `Proofs.Frame.PrefixCode` use the first half. The last section, up to
`eq_of_changed`, compares what stands behind a byte that was changed on the wire; it is the
combinatorial half of `Proofs.Decoder.Changed`.
-/

namespace SerialLink.Stuffing

variable {run : Nat}

/-! ## Runs across a cut -/

/-- The run of marker bytes that `stuffFrom` leaves open behind `bytes`, `run` of them standing
before. -/
def runAfter : Nat → List UInt8 → Nat
  | run, [] => run
  | run, b :: rest =>
    if b = marker then
      if run = 1 then runAfter 0 rest else runAfter (run + 1) rest
    else runAfter 0 rest

theorem stuffFrom_append (run : Nat) (xs ys : List UInt8) :
    stuffFrom run (xs ++ ys) = stuffFrom run xs ++ stuffFrom (runAfter run xs) ys := by
  induction xs generalizing run with
  | nil => rfl
  | cons b rest ih =>
    rw [List.cons_append, stuffFrom, stuffFrom, runAfter]
    split
    · split
      · simp only [List.cons_append, ih]
      · simp only [List.cons_append, ih]
    · simp only [List.cons_append, ih]

theorem runAfter_append (run : Nat) (xs ys : List UInt8) :
    runAfter run (xs ++ ys) = runAfter (runAfter run xs) ys := by
  induction xs generalizing run with
  | nil => rfl
  | cons b rest ih =>
    rw [List.cons_append, runAfter, runAfter]
    split
    · split
      · exact ih 0
      · exact ih (run + 1)
    · exact ih 0

theorem runAfter_le (hrun : run ≤ 1) (bytes : List UInt8) : runAfter run bytes ≤ 1 := by
  induction bytes generalizing run with
  | nil => exact hrun
  | cons b rest ih =>
    unfold runAfter
    split
    · split
      · exact ih (Nat.zero_le 1)
      · exact ih (by omega)
    · exact ih (Nat.zero_le 1)

/-! ## Reading -/

/-- The run of marker bytes that `unstuffFrom` has open behind `wire`, `run` of them standing
before. Unlike `runAfter` it may be two: the reader has then to expect a stuff byte. -/
def readRun : Nat → List UInt8 → Nat
  | run, [] => run
  | run, b :: rest =>
    if run = 2 then readRun 0 rest else readRun (if b = marker then run + 1 else 0) rest

theorem unstuffFrom_append (run : Nat) (xs ys : List UInt8) :
    unstuffFrom run (xs ++ ys) = unstuffFrom run xs ++ unstuffFrom (readRun run xs) ys := by
  induction xs generalizing run with
  | nil => rfl
  | cons b rest ih =>
    rw [List.cons_append, unstuffFrom, unstuffFrom, readRun]
    split
    · exact ih 0
    · rw [List.cons_append, ih]

theorem readRun_append (run : Nat) (xs ys : List UInt8) :
    readRun run (xs ++ ys) = readRun (readRun run xs) ys := by
  induction xs generalizing run with
  | nil => rfl
  | cons b rest ih =>
    rw [List.cons_append, readRun, readRun]
    split
    · exact ih 0
    · exact ih _

/-- **Reading undoes stuffing**, and goes on behind the stuffed bytes with the run that they leave
open. -/
theorem unstuffFrom_stuffFrom (hrun : run ≤ 1) (bytes behind : List UInt8) :
    unstuffFrom run (stuffFrom run bytes ++ behind) =
      bytes ++ unstuffFrom (runAfter run bytes) behind := by
  -- Reader and stuffer count the same run, but for the byte that completes a pair: the stuff byte
  -- behind it sets the reader back.
  induction bytes generalizing run with
  | nil => rfl
  | cons b rest ih =>
    have hne : run ≠ 2 := by omega
    have hzero := ih (Nat.zero_le 1)
    unfold stuffFrom runAfter
    split
    · next hb =>
      split
      · next hone => simp [unstuffFrom, hb, hone, hzero]
      · next hone =>
        have hnext := @ih (run + 1) (by omega)
        simp [unstuffFrom, hb, hne, hnext]
    · next hb => simp [unstuffFrom, hb, hne, hzero]

theorem unstuff_stuff (bytes : List UInt8) : unstuff (stuff bytes) = bytes := by
  have hread := unstuffFrom_stuffFrom (Nat.zero_le 1) bytes []
  rwa [List.append_nil, unstuffFrom, List.append_nil] at hread

theorem unstuffFrom_mono (run : Nat) {as bs : List UInt8} (h : as <+: bs) :
    unstuffFrom run as <+: unstuffFrom run bs := by
  induction as generalizing run bs with
  | nil => exact List.nil_prefix
  | cons a as ih =>
    cases bs with
    | nil => exact absurd (List.prefix_nil.mp h) (by simp)
    | cons b bs =>
      obtain ⟨rfl, hrest⟩ := List.cons_prefix_cons.mp h
      unfold unstuffFrom
      split
      · exact ih 0 hrest
      · exact List.cons_prefix_cons.mpr ⟨rfl, ih _ hrest⟩

theorem unstuffFrom_endByte (hrun : run ≤ 1) : unstuffFrom run [endByte] = [endByte] := by
  have hne : run ≠ 2 := by omega
  simp [unstuffFrom, hne]

/-- If a stuffed form begins with another one, then so do the bytes: `unstuffFrom` is monotone. -/
theorem prefix_of_stuffFrom (hrun : run ≤ 1) {as bs : List UInt8}
    (h : stuffFrom run as ++ [endByte] <+: stuffFrom run bs ++ [endByte]) :
    as ++ [endByte] <+: bs ++ [endByte] := by
  have hread (bytes : List UInt8) :
      unstuffFrom run (stuffFrom run bytes ++ [endByte]) = bytes ++ [endByte] := by
    rw [unstuffFrom_stuffFrom hrun, unstuffFrom_endByte (runAfter_le hrun bytes)]
  have hprefix := unstuffFrom_mono run h
  rwa [hread, hread] at hprefix

/-! ## The place of a byte -/

/-- What the stuffed form of `b :: rest` has behind `b`. -/
def behind (run : Nat) (b : UInt8) (rest : List UInt8) : List UInt8 :=
  if b = marker then
    if run = 1 then stuffByte :: stuffFrom 0 rest else stuffFrom (run + 1) rest
  else stuffFrom 0 rest

theorem stuffFrom_cons (run : Nat) (b : UInt8) (rest : List UInt8) :
    stuffFrom run (b :: rest) = b :: behind run b rest := by
  unfold stuffFrom behind
  split
  · split <;> rfl
  · rfl

theorem behind_of_ne {b : UInt8} (hb : b ≠ marker) (run : Nat) (rest : List UInt8) :
    behind run b rest = stuffFrom 0 rest := if_neg hb

theorem behind_marker_one (rest : List UInt8) :
    behind 1 marker rest = stuffByte :: stuffFrom 0 rest := rfl

theorem behind_marker_zero (rest : List UInt8) : behind 0 marker rest = stuffFrom 1 rest := rfl

/-- A byte that is no `marker` is stuffed in the same way whatever the run before it. -/
theorem stuffFrom_cons_of_ne {b : UInt8} (hb : b ≠ marker) (run : Nat) (rest : List UInt8) :
    stuffFrom run (b :: rest) = b :: stuffFrom 0 rest := by
  rw [stuffFrom_cons, behind_of_ne hb]

theorem stuffFrom_append_cons (run : Nat) (front : List UInt8) (b : UInt8) (rest : List UInt8) :
    stuffFrom run (front ++ b :: rest) =
      stuffFrom run front ++ b :: behind (runAfter run front) b rest := by
  rw [stuffFrom_append, stuffFrom_cons]

theorem stuffFrom_singleton (run : Nat) (b : UInt8) :
    stuffFrom run [b] = [b] ∨ stuffFrom run [b] = [b, stuffByte] ∧ b = marker ∧ run = 1 := by
  unfold stuffFrom
  split
  · next hb =>
    split
    · next hone => exact .inr ⟨rfl, hb, hone⟩
    · exact .inl rfl
  · exact .inl rfl

/-- **Each byte of a stuffed form is one that was stuffed, or the stuff byte behind one.** -/
theorem exists_place {bytes : List UInt8} {i : Nat} (hi : i < (stuffFrom run bytes).length) :
    ∃ front b rest, bytes = front ++ b :: rest ∧
      (i = (stuffFrom run front).length ∨
        i = (stuffFrom run front).length + 1 ∧ b = marker ∧ runAfter run front = 1) := by
  -- The stuffed form of the first byte is one byte or two, and behind it the same is asked of the
  -- rest.
  induction bytes generalizing run i with
  | nil => exact absurd hi (Nat.not_lt_zero i)
  | cons c rest ih =>
    have hstuff : ∀ bytes, stuffFrom run (c :: bytes) =
        stuffFrom run [c] ++ stuffFrom (runAfter run [c]) bytes := stuffFrom_append run [c]
    have hafter : ∀ bytes, runAfter run (c :: bytes) = runAfter (runAfter run [c]) bytes :=
      runAfter_append run [c]
    by_cases hfirst : i < (stuffFrom run [c]).length
    · refine ⟨[], c, rest, rfl, ?_⟩
      rw [runAfter, stuffFrom, List.length_nil]
      rcases stuffFrom_singleton run c with hone | ⟨htwo, hc, hrun⟩
      · rw [hone, List.length_singleton] at hfirst
        exact .inl (by omega)
      · -- `c` completes a pair, and `i` is its place or that of the stuff byte.
        rw [htwo, List.length_cons, List.length_singleton] at hfirst
        exact (Nat.lt_succ_iff_lt_or_eq.mp hfirst).imp (by omega) fun hi => ⟨hi, hc, hrun⟩
    · rw [hstuff, List.length_append] at hi
      have hlater :
          i - (stuffFrom run [c]).length < (stuffFrom (runAfter run [c]) rest).length := by
        omega
      obtain ⟨front, b, rest', hrest, hplace⟩ := ih hlater
      refine ⟨c :: front, b, rest', by rw [hrest]; rfl, ?_⟩
      rw [hstuff front, hafter front, List.length_append]
      rcases hplace with hplace | ⟨hplace, hb, hone⟩
      · exact .inl (by omega)
      · exact .inr ⟨by omega, hb, hone⟩

/-- A stuffed form ends in a `marker` exactly if it leaves a run open, by `runAfter`. -/
theorem exists_last (hrun : run ≤ 1) {bytes : List UInt8} (hne : bytes ≠ []) :
    ∃ front last, stuffFrom run bytes = front ++ [last] ∧
      (last = marker ↔ runAfter run bytes = 1) := by
  have hstuff : stuffByte ≠ marker := by decide
  obtain ⟨front, b, rfl⟩ : ∃ front b, bytes = front ++ [b] :=
    ⟨bytes.dropLast, bytes.getLast hne, (List.dropLast_concat_getLast hne).symm⟩
  have hle := runAfter_le hrun front
  rw [stuffFrom_append, runAfter_append]
  by_cases hb : b = marker
  · by_cases hone : runAfter run front = 1
    · -- The last byte completes a pair, and the stuff byte behind it closes the run.
      refine ⟨stuffFrom run front ++ [marker], stuffByte, ?_, ?_⟩
      · simp [stuffFrom, hb, hone]
      · simp [runAfter, hb, hone, hstuff]
    · have hzero : runAfter run front = 0 := by omega
      exact ⟨stuffFrom run front, marker, by simp [stuffFrom, hb, hzero],
        by simp [runAfter, hb, hzero]⟩
  · exact ⟨stuffFrom run front, b, by simp [stuffFrom, hb], by simp [runAfter, hb]⟩

/-! ## Comparing stuffed forms -/

theorem length_le_of_stuffFrom (hrun : run ≤ 1) {as bs : List UInt8}
    (h : stuffFrom run as ++ [endByte] <+: stuffFrom run bs ++ [endByte]) :
    as.length ≤ bs.length := by
  have hle := (prefix_of_stuffFrom hrun h).length_le
  simpa using hle

/-- Behind runs of the same length no two stuffed forms of as many bytes agree. -/
theorem eq_of_stuffFrom (hrun : run ≤ 1) {as bs : List UInt8} (hlen : as.length = bs.length)
    (h : stuffFrom run as ++ [endByte] <+: stuffFrom run bs ++ [endByte]) : as = bs := by
  have heq := (prefix_of_stuffFrom hrun h).eq_of_length (by simp [hlen])
  exact List.append_cancel_right heq

/-- A stuff byte that is read as a byte moves the others by one place: what it stands in front of
ends one byte early. -/
theorem eq_of_shifted (hrun : run ≤ 1) {as bs : List UInt8} (hlen : as.length = bs.length)
    (h : stuffFrom run as ++ [endByte] <+: stuffByte :: stuffFrom 0 bs ++ [endByte]) :
    stuffByte :: stuffFrom 0 bs = stuffFrom run as ++ [endByte] := by
  have hstuff : stuffByte ≠ marker := by decide
  have hend : endByte ≠ marker := by decide
  rw [← stuffFrom_cons_of_ne hstuff run] at h ⊢
  -- Read as a byte of its own, the stuff byte pushes the last byte out.
  have hread := prefix_of_stuffFrom hrun h
  have heq : as ++ [endByte] = stuffByte :: bs := by
    apply List.IsPrefix.eq_of_length _ (by simp [hlen])
    exact List.prefix_of_prefix_length_le hread (List.prefix_append ..) (by simp [hlen])
  rw [← heq, stuffFrom_append, stuffFrom_cons_of_ne hend, stuffFrom]

/-- Behind runs of different lengths two stuffed forms of as many bytes agree up to the first byte
at most, and beyond it only if it is a marker byte. -/
theorem eq_or_marker {run' : Nat} {as bs : List UInt8} (hlen : as.length = bs.length)
    (h : stuffFrom run as ++ [endByte] <+: stuffFrom run' bs ++ [endByte]) :
    as = bs ∨ ∃ as' bs', as = marker :: as' ∧ bs = marker :: bs' ∧ as'.length = bs'.length ∧
      behind run marker as' ++ [endByte] <+: behind run' marker bs' ++ [endByte] := by
  cases as with
  | nil => exact .inl (List.eq_nil_of_length_eq_zero hlen.symm).symm
  | cons a as =>
    cases bs with
    | nil => exact absurd hlen (by simp)
    | cons b bs =>
      rw [stuffFrom_cons, stuffFrom_cons] at h
      obtain ⟨rfl, hrest⟩ := List.cons_prefix_cons.mp h
      by_cases ha : a = marker
      · rw [ha] at hrest ⊢
        exact .inr ⟨as, bs, rfl, rfl, Nat.succ.inj hlen, hrest⟩
      · rw [behind_of_ne ha, behind_of_ne ha] at hrest
        exact .inl (congrArg _ (eq_of_stuffFrom (Nat.zero_le 1) (Nat.succ.inj hlen) hrest))

/-- A stuff byte that is to stand where there is none would have to be a byte of its own, and there
are not so many. -/
theorem not_made (hrun : run ≤ 1) {as bs : List UInt8} (hlen : as.length = bs.length) :
    ¬ stuffByte :: stuffFrom 0 as ++ [endByte] <+: stuffFrom run bs ++ [endByte] := by
  have hstuff : stuffByte ≠ marker := by decide
  intro h
  rw [← stuffFrom_cons_of_ne hstuff run] at h
  have hle := length_le_of_stuffFrom hrun h
  rw [List.length_cons] at hle
  omega

/-- Behind a byte that has become a `marker` there is no stuffed form of as many bytes but the one
that was there. -/
theorem eq_of_made (hrun : run ≤ 1) {b : UInt8} (hb : b ≠ marker) {as bs : List UInt8}
    (hlen : as.length = bs.length)
    (h : behind run marker as ++ [endByte] <+: behind run b bs ++ [endByte]) : as = bs := by
  rw [behind_of_ne hb] at h
  obtain rfl | rfl : run = 0 ∨ run = 1 := by omega
  · -- The marker byte opens a run, and another one behind it completes a pair.
    rw [behind_marker_zero] at h
    rcases eq_or_marker hlen h with heq | ⟨as', bs', -, -, hlen', hrest⟩
    · exact heq
    · exact absurd hrest (not_made (Nat.le_refl 1) hlen')
  · -- It completes a pair by itself.
    exact absurd h (not_made (Nat.zero_le 1) hlen)

/-- Behind a byte that was a `marker` there is the stuffed form that was there, or one that ends a
byte early, since a `stuffByte` is read as a byte. -/
theorem eq_of_broken (hrun : run ≤ 1) {b : UInt8} (hb : b ≠ marker) {as bs : List UInt8}
    (hlen : as.length = bs.length)
    (h : behind run b as ++ [endByte] <+: behind run marker bs ++ [endByte]) :
    as = bs ∨ behind run marker bs = behind run b as ++ [endByte] := by
  rw [behind_of_ne hb] at h ⊢
  obtain rfl | rfl : run = 0 ∨ run = 1 := by omega
  · -- The pair that is broken is the one that the next byte completed.
    rw [behind_marker_zero] at h ⊢
    rcases eq_or_marker hlen h with heq | ⟨as', bs', rfl, rfl, hlen', hrest⟩
    · exact .inl heq
    · refine .inr ?_
      rw [stuffFrom_cons, stuffFrom_cons, List.cons_append]
      exact congrArg _ (eq_of_shifted (Nat.le_refl 1) hlen' hrest)
  · exact .inr (eq_of_shifted (Nat.zero_le 1) hlen h)

/-- **What stands behind a byte that was changed.** If it is the end of a stuffed form of as many
bytes, with the end byte, then the bytes are the same; or the byte was a marker byte, and the
stuffed form ends a byte early. -/
theorem eq_of_changed (hrun : run ≤ 1) {b b' : UInt8} (hne : b' ≠ b) {as bs : List UInt8}
    (hlen : as.length = bs.length)
    (h : behind run b' as ++ [endByte] <+: behind run b bs ++ [endByte]) :
    as = bs ∨ b = marker ∧ behind run b bs = behind run b' as ++ [endByte] := by
  -- A marker byte was broken, one was made, or neither of the two bytes is one.
  by_cases hb : b = marker
  · subst hb
    exact (eq_of_broken hrun hne hlen h).imp id fun heq => ⟨rfl, heq⟩
  · refine .inl ?_
    by_cases hb' : b' = marker
    · subst hb'
      exact eq_of_made hrun hb hlen h
    · rw [behind_of_ne hb, behind_of_ne hb'] at h
      exact eq_of_stuffFrom (Nat.zero_le 1) hlen h

end SerialLink.Stuffing
