import SerialLink.Crc32
import Mathlib.Algebra.Group.Nat.Defs

/-!
# Which errors a checksum sees

The register works by exclusive or alone, and no shift loses anything, so that two registers that
differ stay different whatever bytes they take in. Up to four bytes are taken in as the one word
that they make up: byte strings that differ in four neighbouring bytes only never have the same
checksum.

The two facts on `shift` are `shift_xor`, linearity, and `shift_injective`; both are carried over to
`shifts` by induction. `word` packs bytes as the register sees them, and `update_eq_shifts` says
that taking in up to four of them is one exclusive or with their word and as many shifts. From there
`eq_of_checksum` follows by cancelling: what stands before the bytes has no influence on the
difference, and what stands behind them cannot remove it. `Proofs.Frame.Body` uses it for a single
byte of a frame body, and `Proofs.Decoder.Burst` for payloads, as `Burst.checksum_ne`.
-/

namespace SerialLink.Crc32

/-! ## Shifting -/

theorem toNat_half (r : UInt32) : (r >>> 1).toNat = r.toNat / 2 := by
  rw [UInt32.toNat_shiftRight]
  exact Nat.shiftRight_eq_div_pow ..

theorem toNat_lowBit (r : UInt32) : (r &&& 1).toNat = r.toNat % 2 := by
  rw [UInt32.toNat_and]
  exact Nat.and_one_is_mod _

theorem lowBit_eq_zero_iff {r : UInt32} : r &&& 1 = 0 ↔ r.toNat % 2 = 0 := by
  rw [← UInt32.toNat_inj, toNat_lowBit, UInt32.toNat_zero]

theorem lowBit_cases (r : UInt32) : r &&& 1 = 0 ∨ r &&& 1 = 1 := by
  rw [← UInt32.toNat_inj, ← UInt32.toNat_inj, toNat_lowBit]
  exact Nat.mod_two_eq_zero_or_one _

theorem lowBit_xor (a b : UInt32) : (a ^^^ b) &&& 1 = (a &&& 1) ^^^ (b &&& 1) := by
  apply UInt32.toNat_inj.mp
  simp only [UInt32.toNat_and, UInt32.toNat_xor, Nat.and_xor_distrib_right]

/-- What `shift` takes off a register for the bit that it shifts out. -/
def feedback (bit : UInt32) : UInt32 := if bit = 0 then 0 else polynomial

theorem shift_eq (r : UInt32) : shift r = (r >>> 1) ^^^ feedback (r &&& 1) := by
  unfold shift feedback
  split
  · rw [UInt32.xor_zero]
  · rfl

/-- **Shifting is linear**: `shift` commutes with exclusive or. -/
theorem shift_xor (a b : UInt32) : shift (a ^^^ b) = shift a ^^^ shift b := by
  have hfeedback : feedback ((a &&& 1) ^^^ (b &&& 1)) =
      feedback (a &&& 1) ^^^ feedback (b &&& 1) := by
    rcases lowBit_cases a with ha | ha <;> rcases lowBit_cases b with hb | hb <;> rw [ha, hb] <;>
      decide
  rw [shift_eq, shift_eq, shift_eq, lowBit_xor, UInt32.shiftRight_xor, hfeedback]
  ac_rfl

theorem shifts_xor (n : Nat) (a b : UInt32) : shifts n (a ^^^ b) = shifts n a ^^^ shifts n b := by
  induction n generalizing a b with
  | zero => rfl
  | succ n ih => rw [shifts, shift_xor, ih, shifts, shifts]

theorem shifts_add (m n : Nat) (r : UInt32) : shifts (m + n) r = shifts n (shifts m r) := by
  induction m generalizing r with
  | zero => rw [Nat.zero_add, shifts]
  | succ m ih => rw [Nat.succ_add, shifts, shifts, ih]

/-- By linearity injectivity is about zero alone. -/
theorem eq_zero_of_shift {r : UInt32} (h : shift r = 0) : r = 0 := by
  have hhalf := toNat_half r
  have hlt := r.toNat_lt
  unfold shift at h
  split at h
  · next heven =>
    -- No bit was lost, and none of the others is set.
    have hmod := lowBit_eq_zero_iff.mp heven
    rw [h, UInt32.toNat_zero] at hhalf
    apply UInt32.toNat_inj.mp
    rw [UInt32.toNat_zero]
    omega
  · -- The highest bit of the polynomial stays.
    rw [UInt32.xor_eq_zero_iff.mp h] at hhalf
    have hhigh : polynomial.toNat = 0xEDB88320 := rfl
    omega

theorem shift_injective : Function.Injective shift := by
  intro a b h
  rw [← UInt32.xor_eq_zero_iff] at h ⊢
  rw [← shift_xor] at h
  exact eq_zero_of_shift h

/-- **No number of shifts loses anything**: `shifts n` is injective for every `n`. -/
theorem shifts_injective (n : Nat) : Function.Injective (shifts n) := by
  induction n with
  | zero => exact fun _ _ h => h
  | succ n ih => exact fun _ _ h => shift_injective (ih h)

/-- As long as the bits that are shifted out are clear, `shifts` only moves the others down. -/
theorem toNat_shifts {n : Nat} {r : UInt32} (h : 2 ^ n ∣ r.toNat) :
    (shifts n r).toNat = r.toNat / 2 ^ n := by
  induction n generalizing r with
  | zero => rw [shifts, Nat.pow_zero, Nat.div_one]
  | succ n ih =>
    obtain ⟨k, hk⟩ := h
    rw [Nat.pow_succ', Nat.mul_assoc] at hk
    -- The bit that is shifted out is clear, so that the polynomial is not taken off.
    have heven : r &&& 1 = 0 := lowBit_eq_zero_iff.mpr (by omega)
    have hhalf : (shift r).toNat = 2 ^ n * k := by
      rw [shift, if_pos heven, toNat_half]
      omega
    rw [shifts, ih ⟨k, hhalf⟩, hhalf, hk, Nat.pow_succ', Nat.mul_div_mul_left _ _ (by decide)]

theorem toNat_shiftLeft_eight {c : UInt32} (h : c.toNat < 2 ^ 24) :
    (c <<< 8).toNat = c.toNat * 2 ^ 8 := by
  have height : (8 : UInt32).toNat % 32 = 8 := rfl
  rw [UInt32.toNat_shiftLeft, height, Nat.shiftLeft_eq]
  omega

/-- A word of three bytes that was moved up by a byte is moved down again whole. -/
theorem shifts_shiftLeft {c : UInt32} (h : c.toNat < 2 ^ 24) : shifts 8 (c <<< 8) = c := by
  have hup := toNat_shiftLeft_eight h
  apply UInt32.toNat_inj.mp
  rw [toNat_shifts ⟨c.toNat, by rw [hup, Nat.mul_comm]⟩, hup]
  exact Nat.mul_div_cancel _ (by decide)

/-! ## Four bytes at once -/

/-- The word that bytes make up, the first one lowest. -/
def word : List UInt8 → UInt32
  | [] => 0
  | b :: rest => b.toUInt32 ^^^ (word rest <<< 8)

theorem toNat_word_lt {bytes : List UInt8} (h : bytes.length ≤ 4) :
    (word bytes).toNat < 2 ^ (8 * bytes.length) := by
  induction bytes with
  | nil => decide
  | cons b rest ih =>
    rw [List.length_cons] at h ⊢
    have hrest := ih (by omega)
    have hb := b.toNat_lt
    have hpos : 2 ^ 8 ≤ 2 ^ (8 * (rest.length + 1)) := Nat.pow_le_pow_right (by decide) (by omega)
    have hsmall : 2 ^ (8 * rest.length) ≤ 2 ^ 24 := Nat.pow_le_pow_right (by decide) (by omega)
    have hup := toNat_shiftLeft_eight (Nat.lt_of_lt_of_le hrest hsmall)
    rw [word, UInt32.toNat_xor, UInt8.toNat_toUInt32, hup]
    -- The first byte and the others, moved up by eight bits, both stay below the bound.
    apply Nat.xor_lt_two_pow
    · omega
    · rw [Nat.mul_add, Nat.pow_add]
      exact Nat.mul_lt_mul_of_pos_right hrest (by decide)

theorem toNat_word_lt_of_length {bytes : List UInt8} (h : bytes.length ≤ 3) :
    (word bytes).toNat < 2 ^ 24 :=
  Nat.lt_of_lt_of_le (toNat_word_lt (by omega)) (Nat.pow_le_pow_right (by decide) (by omega))

/-- **Up to four bytes go into the register as one `word`.** -/
theorem update_eq_shifts {bytes : List UInt8} (h : bytes.length ≤ 4) (r : UInt32) :
    update r bytes = shifts (8 * bytes.length) (r ^^^ word bytes) := by
  induction bytes generalizing r with
  | nil => rw [update_nil, word, UInt32.xor_zero]; rfl
  | cons b rest ih =>
    rw [List.length_cons] at h
    have hshort : rest.length ≤ 3 := by omega
    have hlow := shifts_shiftLeft (toNat_word_lt_of_length hshort)
    -- The bytes behind the first one stand eight shifts above it.
    have hstep : step r b ^^^ word rest = shifts 8 (r ^^^ word (b :: rest)) := by
      rw [word, ← UInt32.xor_assoc, shifts_xor, hlow, step]
    rw [update_cons, ih (by omega), hstep, ← shifts_add, List.length_cons, Nat.mul_add,
      Nat.add_comm]

theorem word_injective {as bs : List UInt8} (hlen : as.length = bs.length) (hle : as.length ≤ 4)
    (h : word as = word bs) : as = bs := by
  induction as generalizing bs with
  | nil => exact (List.eq_nil_of_length_eq_zero hlen.symm).symm
  | cons a as ih =>
    cases bs with
    | nil => exact absurd hlen (by simp)
    | cons b bs =>
      simp only [List.length_cons, Nat.add_right_cancel_iff] at hlen hle
      -- The first byte is the lowest one of the word, and the others stand above it whole.
      have hlow : ∀ (c : UInt8) (cs : List UInt8), (word (c :: cs)).toUInt8 = c := by
        intro c cs
        rw [word, UInt32.toUInt8_xor]
        have hclear : (word cs <<< 8).toUInt8 = 0 := by
          apply UInt8.toNat_inj.mp
          simp [UInt32.toNat_toUInt8, UInt32.toNat_shiftLeft, Nat.shiftLeft_eq]
        rw [hclear]
        simp
      have hab : a = b := by rw [← hlow a as, h, hlow]
      rw [word, word, hab, UInt32.xor_right_inj] at h
      have hshort : as.length ≤ 3 := by omega
      have has := shifts_shiftLeft (toNat_word_lt_of_length hshort)
      have hbs := shifts_shiftLeft (toNat_word_lt_of_length (hlen ▸ hshort))
      rw [hab, ih hlen (by omega) (by rw [← has, h, hbs])]

/-! ## Bursts -/

theorem step_left_injective {b : UInt8} : Function.Injective (step · b) :=
  fun _ _ h => (UInt32.xor_left_inj _).mp (shifts_injective 8 h)

/-- Registers that differ stay different under `update`. -/
theorem update_left_injective (bytes : List UInt8) : Function.Injective (update · bytes) := by
  induction bytes with
  | nil => exact fun _ _ h => h
  | cons b rest ih => exact fun _ _ h => step_left_injective (ih h)

/-- **Up to four bytes are told apart by the checksum**, whatever stands before and behind them. -/
theorem eq_of_checksum (front back : List UInt8) {as bs : List UInt8}
    (hlen : as.length = bs.length) (hle : as.length ≤ 4)
    (h : checksum (front ++ as ++ back) = checksum (front ++ bs ++ back)) : as = bs := by
  rw [checksum, checksum, UInt32.xor_left_inj, update_append, update_append, update_append,
    update_append] at h
  -- The bytes behind the window are taken off first, then those before it cancel.
  have hregister := update_left_injective back h
  have hle' : bs.length ≤ 4 := by omega
  rw [update_eq_shifts hle, update_eq_shifts hle', ← hlen] at hregister
  exact word_injective hlen hle ((UInt32.xor_right_inj _).mp (shifts_injective _ hregister))

/-- Two byte strings of one length that differ within four bytes in a row only. -/
def Burst (p q : List UInt8) : Prop :=
  p.length = q.length ∧ ∃ start, ∀ i, p[i]? ≠ q[i]? → start ≤ i ∧ i < start + 4

theorem burst_append (front back : List UInt8) {as bs : List UInt8} (hlen : as.length = bs.length)
    (hle : as.length ≤ 4) : Burst (front ++ as ++ back) (front ++ bs ++ back) := by
  refine ⟨by simp only [List.length_append, hlen], front.length, fun i hne => ?_⟩
  refine Decidable.byContradiction fun hout => hne ?_
  -- Outside the window both strings have the byte of `front` or of `back` there.
  by_cases hfront : i < front.length
  · rw [List.append_assoc, List.append_assoc, List.getElem?_append_left hfront,
      List.getElem?_append_left hfront]
  · rw [List.getElem?_append_right, List.getElem?_append_right]
    · simp only [List.length_append, hlen]
    · simp only [List.length_append]
      omega
    · simp only [List.length_append]
      omega

theorem Burst.exists_eq_append {p q : List UInt8} (h : Burst p q) :
    ∃ front as bs back, p = front ++ as ++ back ∧ q = front ++ bs ++ back ∧
      as.length = bs.length ∧ as.length ≤ 4 := by
  obtain ⟨hlen, start, hwithin⟩ := h
  -- Both strings are cut where the window begins and where it ends.
  have hsame : ∀ i, i < start ∨ start + 4 ≤ i → p[i]? = q[i]? := by
    intro i hi
    refine Decidable.byContradiction fun hne => ?_
    have := hwithin i hne
    omega
  have hfront : q.take start = p.take start := by
    apply List.ext_getElem?
    intro i
    by_cases hi : i < start
    · rw [List.getElem?_take_of_lt hi, List.getElem?_take_of_lt hi, hsame i (.inl hi)]
    · simp only [List.getElem?_take, if_neg hi]
  have hback : q.drop (start + 4) = p.drop (start + 4) := by
    apply List.ext_getElem?
    intro i
    rw [List.getElem?_drop, List.getElem?_drop, hsame _ (.inr (Nat.le_add_right ..))]
  have hsplit : ∀ bytes : List UInt8, bytes =
      bytes.take start ++ (bytes.drop start).take 4 ++ bytes.drop (start + 4) := by
    intro bytes
    rw [List.append_assoc, ← List.drop_drop, List.take_append_drop, List.take_append_drop]
  refine ⟨p.take start, (p.drop start).take 4, (q.drop start).take 4, p.drop (start + 4),
    hsplit p, ?_, ?_, ?_⟩
  · rw [← hfront, ← hback]
    exact hsplit q
  · simp only [List.length_take, List.length_drop, hlen]
  · simp only [List.length_take]
    omega

/-- **A `Burst` changes the checksum.** -/
theorem Burst.checksum_ne {p q : List UInt8} (h : Burst p q) (hne : p ≠ q) (front : List UInt8) :
    checksum (front ++ p) ≠ checksum (front ++ q) := by
  obtain ⟨front', as, bs, back, rfl, rfl, hlen, hle⟩ := h.exists_eq_append
  intro hsum
  apply hne
  have has : as = bs := by
    apply eq_of_checksum (front ++ front') back hlen hle
    simpa only [List.append_assoc] using hsum
  rw [has]

end SerialLink.Crc32
