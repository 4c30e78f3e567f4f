import SerialLink.Retry

/-!
# The wrapping clock and the true time

The clock shows the true time modulo 2³². Of the time between two events it shows what is left after
whole turns: less than one turn apart, they are as far apart as it says, and further apart they may
seem close.

True times are natural numbers here, and `Nat.toUInt32` is the clock. `toNat_elapsed` is the lemma
for statements that exclude a whole turn, as those of `Proofs.Transport.Exhaustion` do;
`elapsed_lt_iff` is the one for statements that do not, as those of `Proofs.Endpoint.Silence`, and
`SeemsShort` is what they come to.
-/

namespace SerialLink

@[simp]
theorem elapsed_self (now : UInt32) : elapsed now now = 0 := UInt32.sub_self now

/-- Of the time that passed `elapsed` shows what is left after whole turns. -/
theorem toNat_elapsed_mod {time since : Nat} (hle : since ≤ time) :
    (elapsed time.toUInt32 since.toUInt32).toNat = (time - since) % UInt32.size := by
  simp only [elapsed, Nat.toUInt32_eq, UInt32.toNat_sub, UInt32.toNat_ofNat', UInt32.size]
  omega

/-- What `elapsed` says is past is as long past as on the true clock, if that is less than one
turn. -/
theorem toNat_elapsed {time since : Nat} (hle : since ≤ time) (hlt : time < since + UInt32.size) :
    (elapsed time.toUInt32 since.toUInt32).toNat = time - since := by
  have hturn : time - since < UInt32.size := Nat.sub_lt_left_of_lt_add hle hlt
  rw [toNat_elapsed_mod hle, Nat.mod_eq_of_lt hturn]

/-! ## Spans of time that seem short -/

/-- On the wrapping clock a span of time looks shorter than the limit: it is shorter, or what is
left of it after whole turns of the clock is. -/
def SeemsShort (span : Nat) (limit : UInt32) : Prop :=
  span < limit.toNat ∨ UInt32.size ≤ span ∧ span % UInt32.size < limit.toNat

/-- Within one turn of the clock a span of time is as short as it looks. -/
theorem SeemsShort.lt {span : Nat} {limit : UInt32} (h : SeemsShort span limit)
    (hturn : span < UInt32.size) : span < limit.toNat := by
  rcases h with h | ⟨hle, -⟩
  · exact h
  · exact absurd hturn (Nat.not_lt.mpr hle)

/-- By `elapsed` a time is past for less than the limit just when the span `SeemsShort`. -/
theorem elapsed_lt_iff {time since : Nat} (hle : since ≤ time) (limit : UInt32) :
    elapsed time.toUInt32 since.toUInt32 < limit ↔ SeemsShort (time - since) limit := by
  have hlimit := limit.toNat_lt
  rw [UInt32.lt_iff_toNat_lt, toNat_elapsed_mod hle]
  -- A limit is a word, so that a span of less than a turn is its own remainder.
  unfold SeemsShort UInt32.size
  omega

end SerialLink
