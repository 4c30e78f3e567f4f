import SerialLink.Varint
import Mathlib.Algebra.Group.Nat.Defs

/-!
# Reading words back

A field is read back from the bytes that were written for it, whatever follows them, and is not read
where they are cut off. So it is with a word of variable length, since its last byte is the only one
without the high bit.

`Reads` states both halves for any reader, and `bind_whole` and `bind_cut` carry them across one
field of a record; `Proofs.Config.Stored` chains them over the fields of a `Config`. For words
`reads_encode` is proved from `digits` and `readDigits`, by induction on the places left. The other
forms of a word, which are read but never written, are bounded by their fifth byte
(`decode?_fifth`).
-/

namespace SerialLink

/-! ## Fields -/

/-- The bytes `part` are `bytes` without one byte or more at the end: a proper prefix, see
`cutOff_iff`. -/
def CutOff (part bytes : List UInt8) : Prop := ∃ b rest, bytes = part ++ b :: rest

theorem cutOff_iff {part bytes : List UInt8} :
    CutOff part bytes ↔ part <+: bytes ∧ part ≠ bytes := by
  constructor
  · rintro ⟨b, rest, rfl⟩
    exact ⟨List.prefix_append .., by simp⟩
  · rintro ⟨⟨rest, rfl⟩, hne⟩
    cases rest with
    | nil => exact absurd (List.append_nil part).symm hne
    | cons b rest => exact ⟨b, rest, rfl⟩

theorem not_cutOff_nil (part : List UInt8) : ¬ CutOff part [] := by
  rintro ⟨b, rest, h⟩
  exact absurd h.symm (by simp)

/-- What is cut off ends in the first of two parts, or in the second. -/
theorem CutOff.of_append {part xs ys : List UInt8} (h : CutOff part (xs ++ ys)) :
    CutOff part xs ∨ ∃ part', part = xs ++ part' ∧ CutOff part' ys := by
  obtain ⟨b, rest, heq⟩ := h
  rcases List.append_eq_append_iff.mp heq with ⟨part', hpart, hys⟩ | ⟨missing, hxs, hrest⟩
  · exact .inr ⟨part', hpart, b, rest, hys⟩
  · cases missing with
    | nil => exact .inr ⟨[], by simpa using hxs.symm, b, rest, by simpa using hrest.symm⟩
    | cons c missing => exact .inl ⟨c, missing, hxs⟩

/-- How a field with the value `a` is read that was written as `bytes`: given back from `whole`
bytes, and not at all from those that are `cut`. -/
structure Reads {α : Type} (read : List UInt8 → Option (α × List UInt8)) (bytes : List UInt8)
    (a : α) : Prop where
  whole : ∀ rest, read (bytes ++ rest) = some (a, rest)
  cut : ∀ part, CutOff part bytes → read part = none

namespace Reads

variable {α β : Type} {read : List UInt8 → Option (α × List UInt8)} {bytes : List UInt8} {a : α}
  {next : α × List UInt8 → Option β}

theorem bind_whole (h : Reads read bytes a) (rest : List UInt8) :
    (read (bytes ++ rest)).bind next = next (a, rest) := by
  rw [h.whole, Option.bind_some]

/-- Where the bytes of a field and those behind it are cut off, the field is not read, or else the
bytes behind it are cut off. -/
theorem bind_cut (h : Reads read bytes a) {behind part : List UInt8}
    (hcut : CutOff part (bytes ++ behind))
    (hnext : ∀ part', CutOff part' behind → next (a, part') = none) :
    (read part).bind next = none := by
  rcases hcut.of_append with hfirst | ⟨part', rfl, hrest⟩
  · rw [h.cut part hfirst, Option.bind_none]
  · rw [h.bind_whole]
    exact hnext part' hrest

end Reads

namespace Varint

/-! ## Words -/

variable {places n : Nat}

/-- A byte with the high bit stands for the lowest bits, and others follow. -/
theorem readDigits_carry {b : UInt8} (hb : ¬ b.toNat < 128) (rest : List UInt8) :
    readDigits (places + 1) (b :: rest) =
      (readDigits places rest).map fun p => (b.toNat - 128 + 128 * p.1, p.2) := by
  rw [readDigits, if_neg hb]

theorem length_digits_le (places n : Nat) : (digits places n).length ≤ places := by
  induction places generalizing n with
  | zero => exact Nat.le_refl 0
  | succ places ih =>
    unfold digits
    split
    · exact Nat.le_add_left 1 places
    · exact Nat.succ_le_succ (ih _)

/-- The byte that stands for seven bits with others behind them. -/
theorem toNat_carry (n : Nat) : (n % 128 + 128).toUInt8.toNat = n % 128 + 128 := by
  rw [Nat.toUInt8_eq, UInt8.toNat_ofNat']
  omega

theorem toNat_digit (hn : n < 128) : n.toUInt8.toNat = n := by
  rw [Nat.toUInt8_eq, UInt8.toNat_ofNat']
  omega

theorem readDigits_digits (hn : n < 128 ^ places) (hplaces : 0 < places) (rest : List UInt8) :
    readDigits places (digits places n ++ rest) = some (n, rest) := by
  induction places generalizing n with
  | zero => exact absurd hplaces (Nat.lt_irrefl 0)
  | succ places ih =>
    unfold digits
    split
    · next hlast => simp [readDigits, toNat_digit hlast, hlast]
    · next hmore =>
      -- A number that does not fit the last place has places left.
      have hpos : 0 < places := by
        apply Nat.pos_of_ne_zero
        rintro rfl
        exact hmore hn
      have hdiv : n / 128 < 128 ^ places := by
        rw [Nat.pow_succ] at hn
        omega
      have hcarry : ¬ (n % 128 + 128).toUInt8.toNat < 128 := by
        rw [toNat_carry]
        omega
      have hsum : n % 128 + 128 - 128 + 128 * (n / 128) = n := by omega
      rw [List.cons_append, readDigits_carry hcarry, ih hdiv hpos, toNat_carry, Option.map_some,
        hsum]

/-- Every byte but the last asks for another one. -/
theorem readDigits_cut {part : List UInt8} (hcut : CutOff part (digits places n)) :
    readDigits places part = none := by
  induction places generalizing n part with
  | zero => rfl
  | succ places ih =>
    cases part with
    | nil => rfl
    | cons b part =>
      obtain ⟨c, rest, hdigits⟩ := hcut
      unfold digits at hdigits
      split at hdigits
      · -- The last byte has nothing behind it that could be missing.
        exact absurd hdigits (by simp)
      · rw [List.cons_append] at hdigits
        obtain ⟨rfl, hrest⟩ := List.cons.inj hdigits
        have hcarry : ¬ (n % 128 + 128).toUInt8.toNat < 128 := by
          rw [toNat_carry]
          omega
        rw [readDigits_carry hcarry, ih ⟨c, rest, hrest⟩, Option.map_none]

theorem length_encode_le (w : UInt32) : (encode w).length ≤ maxLength := length_digits_le ..

/-- **A word is read back**, by `decode?` from what `encode` wrote, and only from all of it. -/
theorem reads_encode (w : UInt32) : Reads decode? (encode w) w where
  whole := by
    intro rest
    have hlt := w.toNat_lt
    have hread : readDigits maxLength (encode w ++ rest) = some (w.toNat, rest) := by
      apply readDigits_digits _ (by decide)
      exact Nat.lt_trans hlt (by decide)
    simp only [decode?, hread]
    rw [if_pos hlt]
    simp
  cut := by
    intro part hcut
    rw [decode?, readDigits_cut hcut]

/-! ## Other forms of a word -/

/-- `readDigits` does not look beyond the longest form. -/
theorem readDigits_eq_none {front : List UInt8} (hfront : ∀ b ∈ front, ¬ b.toNat < 128)
    (hlen : places ≤ front.length) (rest : List UInt8) :
    readDigits places (front ++ rest) = none := by
  induction front generalizing places with
  | nil =>
    obtain rfl := Nat.le_zero.mp hlen
    rfl
  | cons b front ih =>
    cases places with
    | zero => rfl
    | succ places =>
      have hothers := ih (fun c hc => hfront c (List.mem_cons_of_mem b hc))
        (Nat.le_of_succ_le_succ hlen)
      rw [List.cons_append, readDigits_carry (hfront b List.mem_cons_self), hothers,
        Option.map_none]

/-- The last byte of a form, wherever it stands, counts for the highest bits. -/
theorem readDigits_eq_some {front : List UInt8} {last : UInt8}
    (hfront : ∀ b ∈ front, ¬ b.toNat < 128) (hlast : last.toNat < 128)
    (hlen : front.length < places) (rest : List UInt8) :
    ∃ low < 128 ^ front.length, readDigits places (front ++ last :: rest) =
      some (low + 128 ^ front.length * last.toNat, rest) := by
  induction front generalizing places with
  | nil =>
    obtain ⟨places, rfl⟩ := Nat.exists_eq_succ_of_ne_zero (Nat.ne_of_gt hlen)
    exact ⟨0, by decide, by simp [readDigits, hlast]⟩
  | cons b front ih =>
    obtain ⟨places, rfl⟩ := Nat.exists_eq_succ_of_ne_zero (Nat.ne_of_gt (Nat.zero_lt_of_lt hlen))
    obtain ⟨low, hlow, hread⟩ := ih (fun c hc => hfront c (List.mem_cons_of_mem b hc))
      (Nat.lt_of_succ_lt_succ hlen)
    have hb := b.toNat_lt
    refine ⟨b.toNat - 128 + 128 * low, ?_, ?_⟩
    · rw [List.length_cons, Nat.pow_succ]
      omega
    · have hsum : b.toNat - 128 + 128 * (low + 128 ^ front.length * last.toNat) =
          b.toNat - 128 + 128 * low + 128 ^ (b :: front).length * last.toNat := by
        rw [List.length_cons, Nat.pow_succ, Nat.mul_add, Nat.add_assoc,
          Nat.mul_comm (128 ^ front.length) 128, Nat.mul_assoc]
      rw [List.cons_append, readDigits_carry (hfront b List.mem_cons_self), hread,
        Option.map_some, hsum]

/-- **The fifth byte of a form is at most 15**, as the word has no more bits. -/
theorem decode?_fifth {front : List UInt8} (hfront : ∀ b ∈ front, ¬ b.toNat < 128)
    (hlen : front.length = 4) (b : UInt8) (rest : List UInt8) :
    decode? (front ++ b :: rest) ≠ none ↔ b.toNat ≤ 15 := by
  by_cases hlast : b.toNat < 128
  · have hroom : front.length < maxLength := by
      rw [hlen]
      decide
    obtain ⟨low, hlow, hread⟩ := readDigits_eq_some hfront hlast hroom rest
    rw [hlen] at hlow hread
    -- The four bytes before it hold 28 bits, which leaves four for this one.
    simp only [decode?, hread, UInt32.size]
    split
    · simp
      omega
    · simp
      omega
  · -- Such a byte asks for a sixth one.
    have hall : ∀ c ∈ front ++ [b], ¬ c.toNat < 128 := by
      intro c hc
      rcases List.mem_append.mp hc with hc | hc
      · exact hfront c hc
      · rwa [List.mem_singleton.mp hc]
    have hfull : maxLength ≤ (front ++ [b]).length := by simp [hlen, maxLength]
    have hnone := readDigits_eq_none hall hfull rest
    rw [List.append_assoc, List.singleton_append] at hnone
    have hlarge : ¬ b.toNat ≤ 15 := by omega
    simp [decode?, hnone, hlarge]

/-- A form may be longer than the one that is written. -/
example : decode? [0x80, 0x80, 0x00, 7] = some (0, [7]) := by decide

end Varint

end SerialLink
