import SerialLink.Proofs.Decoder.Changed

/-!
# A flipped bit

A frame of which one bit was flipped is discarded, and the frame behind it is read, with two
exceptions. A marker byte that becomes another byte can turn a stuff byte into a byte of the body,
so that the frame ends a byte early; and a byte that becomes a marker byte between two others makes
a header. In both cases another frame is read if its encoding happens to stand there, checksum and
all. Every flip that neither makes nor breaks a marker byte is detected.

`modify_wire` finds the byte at a place of the wire: a byte of the body behind `head`, or a stuff
byte, with what the change makes of the encoding in each case. `modify_wire_spec` then takes what is
read from the `ReadsSpelled` of `Proofs.Decoder.Changed`, where any change of one byte is allowed.
That it is a flipped bit matters twice: `flipBit` changes every byte, and it makes no marker byte of
a stuff byte.
-/

namespace SerialLink

open Stuffing

/-! ## Flipping a bit -/

/-- A byte with one of its bits flipped. -/
def flipBit (k : Fin 8) (b : UInt8) : UInt8 := b ^^^ (1 <<< UInt8.ofNat k)

theorem flipBit_ne (k : Fin 8) (b : UInt8) : flipBit k b ≠ b := by
  have hbit : ∀ k : Fin 8, (1 : UInt8) <<< UInt8.ofNat k ≠ 0 := by decide
  intro h
  refine hbit k ((UInt8.xor_right_inj b).mp ?_)
  rw [UInt8.xor_zero]
  exact h

/-- A stuff byte and a marker byte differ in all bits. -/
theorem flipBit_stuffByte_ne (k : Fin 8) : flipBit k stuffByte ≠ marker := by
  revert k
  decide

namespace Frame

variable {f : Frame} {i : Nat}

/-- The place of the length byte on the `wire`, behind the header and the stuffed identifier and
number. -/
def lengthIndex (f : Frame) : Nat := headerLength + (stuff (f.id.toByte :: f.seqBytes)).length

theorem modify_append_cons (front : List UInt8) (b : UInt8) (rest : List UInt8)
    (change : UInt8 → UInt8) :
    (front ++ b :: rest).modify front.length change = front ++ change b :: rest :=
  List.modifyTailIdx_add _ 0 front (b :: rest)

/-- Where a stuffed form is longer than the one of the bytes before the length byte, the length byte
is among the bytes. -/
theorem head_prefix_of_length {front rest : List UInt8} (hbody : f.body = front ++ rest)
    (hlong : (stuff (f.id.toByte :: f.seqBytes)).length < (stuff front).length) :
    f.head <+: front := by
  have hfront : front <+: f.body := ⟨rest, hbody.symm⟩
  have hhead : f.head <+: f.body := by
    rw [body_eq]
    exact List.prefix_append ..
  -- Otherwise the bytes before the length byte would begin with `front`, and be stuffed to no less.
  refine List.prefix_of_prefix_length_le hhead hfront (Nat.le_of_not_lt fun hshort => ?_)
  have hlow : f.id.toByte :: f.seqBytes <+: f.head := ⟨[f.payload.lengthByte], rfl⟩
  have hle : front.length ≤ (f.id.toByte :: f.seqBytes).length := by
    simp only [head, List.length_cons, List.length_append, List.length_nil] at hshort ⊢
    omega
  obtain ⟨tail, htail⟩ := List.prefix_of_prefix_length_le hfront (hlow.trans hhead) hle
  rw [← htail, stuff, stuff, stuffFrom_append, List.length_append] at hlong
  omega

/-- **What a change of one byte makes of an encoding.** The byte is one of the `body`, behind its
length byte, or a `stuffByte`; the bytes before it and behind it stay what they are. -/
theorem modify_wire (hlow : f.lengthIndex < i) (hhigh : i + 1 < f.wire.length)
    (change : UInt8 → UInt8) :
    ∃ front b rest, f.body = front ++ b :: rest ∧
      ((f.head <+: front ∧ i = headerLength + (stuff front).length ∧ f.wire[i]? = some b ∧
          f.wire.modify i change = List.replicate headerLength marker ++
            (stuff front ++ change b :: (behind (runAfter 0 front) b rest ++ [endByte]))) ∨
        (b = marker ∧ runAfter 0 front = 1 ∧
          f.wire.modify i change = List.replicate headerLength marker ++
            (stuff front ++ marker :: change stuffByte :: (stuffFrom 0 rest ++ [endByte])))) := by
  unfold lengthIndex at hlow
  have hlength : f.wire.length = headerLength + (stuff f.body).length + 1 := by
    simp only [wire, List.length_append, List.length_replicate, List.length_singleton]
  have hplace : i - headerLength < (stuffFrom 0 f.body).length := by
    rw [← stuff]
    omega
  obtain ⟨front, b, rest, hbody, hplace⟩ := exists_place hplace
  -- The byte at `i` is `b`, or the stuff byte behind it.
  have hwire : f.wire = List.replicate headerLength marker ++
      (stuff front ++ b :: (behind (runAfter 0 front) b rest ++ [endByte])) := by
    rw [wire, hbody, stuff, stuff, stuffFrom_append_cons]
    simp only [List.append_assoc, List.cons_append]
  rw [← stuff] at hplace
  refine ⟨front, b, rest, hbody, ?_⟩
  rcases hplace with hplace | ⟨hplace, hb, hone⟩
  -- A byte of the body, which stands behind what `front` is stuffed to.
  · have hi : i = (List.replicate headerLength marker ++ stuff front).length := by
      rw [List.length_append, List.length_replicate]
      omega
    refine .inl ⟨head_prefix_of_length hbody (by omega), by omega, ?_, ?_⟩
    · rw [hwire, ← List.append_assoc, hi]
      simp
    · rw [hwire, ← List.append_assoc, hi, modify_append_cons, List.append_assoc]
  -- A stuff byte, which stands one byte further.
  · have hi : i = (List.replicate headerLength marker ++ (stuff front ++ [marker])).length := by
      simp only [List.length_append, List.length_replicate, List.length_singleton]
      omega
    have hsplit : f.wire = List.replicate headerLength marker ++ (stuff front ++ [marker]) ++
        stuffByte :: (stuffFrom 0 rest ++ [endByte]) := by
      rw [hwire, hone, hb, behind_marker_one]
      simp only [List.append_assoc, List.cons_append, List.nil_append]
    refine .inr ⟨hb, hone, ?_⟩
    rw [hsplit, hi, modify_append_cons]
    simp only [List.append_assoc, List.cons_append, List.nil_append]

/-- **A frame with a flipped bit.** What is read from it is what is `SpelledIn` it, and its encoding
is closed by the `endByte`. If an encoding stands at its front, then a marker byte was broken. -/
theorem modify_wire_spec (hid : f.id.Valid) (hlow : f.lengthIndex < i)
    (hhigh : i + 1 < f.wire.length) (k : Fin 8) :
    Decoder.ReadsSpelled (f.wire.modify i (flipBit k)) i ∧
      (∃ bytes, f.wire.modify i (flipBit k) = bytes ++ [endByte]) ∧
      ∀ g : Frame, g.id.Valid → g.wire <+: f.wire.modify i (flipBit k) →
        f.wire[i]? = some marker ∧ f.wire.modify i (flipBit k) = g.wire ++ [endByte] := by
  have hi : headerLength < i := by
    unfold lengthIndex at hlow
    omega
  obtain ⟨front, b, rest, hbody, ⟨hhead, hplace, hbyte, htorn⟩ | ⟨hb, hone, htorn⟩⟩ :=
    modify_wire hlow hhigh (flipBit k)
  · -- A byte of the body was hit: what stands behind it is stuffed as it was.
    have hfront : front ≠ [] := by
      rintro rfl
      exact absurd (List.prefix_nil.mp hhead) (by simp [head])
    have hne := flipBit_ne k b
    rw [htorn]
    refine ⟨?_, ⟨List.replicate headerLength marker ++
      (stuff front ++ flipBit k b :: behind (runAfter 0 front) b rest), ?_⟩, ?_⟩
    · rw [hplace]
      exact Decoder.readsSpelled_changed hid hbody hfront hne
    · simp only [List.append_assoc, List.cons_append]
    · intro g hg hwire
      obtain ⟨rfl, hearly⟩ := spelled_front hid hg hbody hhead hne hwire
      exact ⟨hbyte, hearly⟩
  · -- A stuff byte was hit, which every encoding with this front would have to hold there.
    rw [htorn]
    refine ⟨Decoder.readsSpelled_stuffByte hone (flipBit_stuffByte_ne k) hi,
      ⟨List.replicate headerLength marker ++
        (stuff front ++ marker :: flipBit k stuffByte :: stuffFrom 0 rest), ?_⟩, ?_⟩
    · simp only [List.append_assoc, List.cons_append]
    · intro g hg hwire
      rw [hb] at hbody
      exact absurd hwire (not_spelled_front hid hg hbody hone (flipBit_ne k stuffByte))

end Frame

/-! ## What is read -/

namespace Frame

/-- Where an encoding starts, its header is three `marker` bytes. -/
theorem markers_of_prefix_drop {g : Frame} {torn : List UInt8} {j : Nat}
    (h : g.wire <+: torn.drop j) :
    torn[j]? = some marker ∧ torn[j + 1]? = some marker ∧ torn[j + 2]? = some marker := by
  obtain ⟨rest, hrest⟩ := h
  have hget : ∀ n < 3, torn[j + n]? = some marker := by
    intro n hn
    rw [← List.getElem?_drop, ← hrest, wire_eq]
    obtain rfl | rfl | rfl : n = 0 ∨ n = 1 ∨ n = 2 := by omega
    all_goals rfl
  exact ⟨hget 0 (by decide), hget 1 (by decide), hget 2 (by decide)⟩

end Frame

namespace Decoder

/-- **A frame with a flipped bit is not read, and the next one is**, unless an encoding is spelled
in it. The flip may stand anywhere between the length byte and the end byte, stuff bytes included.
Before the next frame comes at most one that nobody sent: the one whose encoding stands in the bytes
that arrive, checksum and all. It stands at their front, which needs a marker byte that was broken,
and ends one byte early; or it starts just before the flipped byte, which became a marker byte
between two others. So nothing else is read exactly if neither is the case, and never is where the
flip neither makes nor breaks a marker byte. -/
theorem flipped_bit_spells {first second : Frame} (hfirst : first.id.Valid)
    (hsecond : second.id.Valid) {i : Nat} (hlow : first.lengthIndex < i)
    (hhigh : i + 1 < first.wire.length) (k : Fin 8) :
    ∃ w₁ w₂, first.encode = .ok w₁ ∧ second.encode = .ok w₂ ∧
      let torn := w₁.modify i (flipBit k)
      let read := (fresh.feed (torn ++ w₂)).2
      (∃ ghost : Option Frame, read = ghost.toList ++ [second.readBack] ∧
        ∀ g, ghost = some g ↔ g.SpelledIn torn i) ∧
      (read = [second.readBack] ↔ ∀ g : Frame, ¬ g.SpelledIn torn i) ∧
      ∀ g : Frame, g.SpelledIn torn i →
        (w₁[i]? = some marker ∧ torn = g.wire ++ [endByte]) ∨
        (torn[i]? = some marker ∧ w₁[i - 1]? = some marker ∧ w₁[i + 1]? = some marker) := by
  refine ⟨first.wire, second.wire, Frame.encode_eq_wire hfirst, Frame.encode_eq_wire hsecond, ?_⟩
  intro torn read
  obtain ⟨hspelled, ⟨bytes, hbytes⟩, hearly⟩ := Frame.modify_wire_spec hfirst hlow hhigh k
  -- The end byte closes any run of marker bytes, so that the second frame is read.
  have hread : read = (fresh.feed torn).2 ++ [second.readBack] := by
    have hclosed : (fresh.feed torn).1.run = 0 := by
      rw [show torn = bytes ++ [endByte] from hbytes, feed_eq_pushAll]
      exact run_pushAll_eq_zero _ _ (by decide)
    have hid : ∀ f ∈ [second], f.id.Valid := by simpa using hsecond
    have hnext := feed_wires hclosed hid
    simp only [List.flatMap_singleton, List.map_cons, List.map_nil] at hnext
    simp only [read, feed_append, hnext]
  obtain ⟨ghost, hfound, hghost⟩ := exists_option hspelled.length_le
  have hiff : ∀ g, ghost = some g ↔ g.SpelledIn torn i :=
    fun g => (hghost g).trans (hspelled.mem_iff g)
  have hall : read = ghost.toList ++ [second.readBack] :=
    hread.trans (congrArg (· ++ [second.readBack]) hfound)
  refine ⟨⟨ghost, hall, hiff⟩, ?_, ?_⟩
  · simp only [hall, ← hiff]
    cases ghost <;> simp
  · rintro g ⟨hplain, hfront | hlater⟩
    · exact .inl (hearly g hplain.1 hfront)
    -- The flipped byte is the middle one of the three that make the header.
    · obtain ⟨hbefore, hflipped, hbehind⟩ := Frame.markers_of_prefix_drop hlater
      have hpos : i - 1 + 1 = i := by
        unfold Frame.lengthIndex at hlow
        omega
      have hpos' : i - 1 + 2 = i + 1 := by omega
      rw [hpos] at hflipped
      rw [hpos'] at hbehind
      -- Only the byte at `i` was changed.
      have hsame : ∀ j, j ≠ i → torn[j]? = first.wire[j]? := by
        intro j hj
        simp only [torn, List.getElem?_modify, if_neg (Ne.symm hj)]
        simp
      rw [hsame _ (by omega)] at hbefore
      rw [hsame _ (by omega)] at hbehind
      exact .inr ⟨hflipped, hbefore, hbehind⟩

/-- A frame whose payload ends like a frame, behind two marker bytes and a byte between them. -/
def spelling : Frame :=
  let inner : Frame := ⟨.data 1, 7, .singleton 9⟩
  let payload := [marker, 0x2A, marker] ++ inner.wire.drop Frame.headerLength
  ⟨.app 1, 0, (Payload.ofList? payload).getD .empty⟩

/-- A frame that has the checksum of another one where it would be found if the first payload byte
were no marker byte, and the stuff byte behind the second one a byte of its own. -/
def overlong : Frame :=
  ⟨.app 1, 0, ⟨[marker, marker, 0x3C, 0xA1, 0xD0, 0x65, 0xC0, 0xFF], by decide⟩⟩

def follower : Frame := ⟨.app 2, 0, .singleton 5⟩

theorem valid_spelling : spelling.id.Valid := FrameId.valid_app.mpr (by decide)

theorem valid_overlong : overlong.id.Valid := FrameId.valid_app.mpr (by decide)

theorem valid_follower : follower.id.Valid := FrameId.valid_app.mpr (by decide)

/-- With a bit of its second payload byte flipped, the frame that `spelling` spells is read before
the next one; with a bit of its fifth payload byte flipped, the next one is read alone. -/
theorem flipped_bit_spells_spelling :
    spelling.id.Valid ∧ follower.id.Valid ∧ spelling.lengthIndex < 6 ∧
      9 + 1 < spelling.wire.length ∧
      (∃ w₁ w₂, spelling.encode = .ok w₁ ∧ follower.encode = .ok w₂ ∧
        (fresh.feed (w₁.modify 6 (flipBit 7) ++ w₂)).2 =
          [⟨.data 1, 7, .singleton 9⟩, follower]) ∧
      ∃ w₁ w₂, spelling.encode = .ok w₁ ∧ follower.encode = .ok w₂ ∧
        (fresh.feed (w₁.modify 9 (flipBit 0) ++ w₂)).2 = [follower] := by
  have hlow : spelling.lengthIndex < 6 := by decide +kernel
  have hhigh : 9 + 1 < spelling.wire.length := by decide +kernel
  have hencode := Frame.encode_eq_wire valid_spelling
  refine ⟨valid_spelling, valid_follower, hlow, hhigh, ?_, ?_⟩
  · obtain ⟨w₁, w₂, h₁, h₂, ⟨ghost, hread, hghost⟩, -⟩ :=
      flipped_bit_spells valid_spelling valid_follower hlow (by omega) 7
    obtain rfl := Except.ok.inj (h₁.symm.trans hencode)
    refine ⟨_, w₂, h₁, h₂, ?_⟩
    have hplain : Frame.Plain ⟨.data 1, 7, .singleton 9⟩ :=
      ⟨FrameId.valid_data.mpr (by decide), by simp⟩
    rw [hread, (hghost ⟨.data 1, 7, .singleton 9⟩).mpr ⟨hplain, .inr (by decide +kernel)⟩]
    rfl
  · obtain ⟨w₁, w₂, h₁, h₂, -, hsecond, hmarker⟩ :=
      flipped_bit_spells valid_spelling valid_follower (i := 9) (by omega) hhigh 0
    obtain rfl := Except.ok.inj (h₁.symm.trans hencode)
    refine ⟨_, w₂, h₁, h₂, hsecond.mpr fun g hg => ?_⟩
    rcases hmarker g hg with ⟨hbroken, -⟩ | ⟨hmade, -⟩
    · exact absurd hbroken (by decide +kernel)
    · exact absurd hmade (by decide +kernel)

/-- **A flipped bit can make a frame that nobody sent**, by making a header, or by breaking a marker
byte where the checksum happens to fit. -/
theorem flipped_bit_phantom :
    (∃ w₁ w₂, spelling.encode = .ok w₁ ∧ follower.encode = .ok w₂ ∧
        spelling.lengthIndex < 6 ∧ 6 + 1 < w₁.length ∧
        (fresh.feed (w₁.modify 6 (flipBit 7) ++ w₂)).2 ≠ [follower.readBack]) ∧
      ∃ w₁ w₂, overlong.encode = .ok w₁ ∧ follower.encode = .ok w₂ ∧
        overlong.lengthIndex < 5 ∧ 5 + 1 < w₁.length ∧
        (fresh.feed (w₁.modify 5 (flipBit 7) ++ w₂)).2 ≠ [follower.readBack] := by
  have hsecond := Frame.encode_eq_wire valid_follower
  refine ⟨⟨_, _, Frame.encode_eq_wire valid_spelling, hsecond, ?_, ?_, ?_⟩,
    _, _, Frame.encode_eq_wire valid_overlong, hsecond, ?_, ?_, ?_⟩
  all_goals decide +kernel

end Decoder

end SerialLink
