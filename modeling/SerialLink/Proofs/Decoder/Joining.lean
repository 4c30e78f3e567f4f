import SerialLink.Proofs.Decoder.Acceptance
import SerialLink.Proofs.Decoder.Push

/-!
# Joining a stream in the middle

A receiver that misses the first bytes of a stream takes in the end of a cut frame and then whole
frames. The whole ones are read back, wherever the cut is. In the end of the cut one there is no
header to be found, with one exception: the identifier byte `0xAA` behind the last two bytes of a
header makes another header with them. If the encoding of a frame stands there, it is then read.

`Headerless` says of bytes that no header is in them, and `headerless_stuffFrom` says it of every
stuffed body, so that a decoder that is between frames stays there (`feed_headerless`). The end of a
cut frame falls under it but for the first byte missing, where `Frame.Hides` names what may be
found; that nothing else is, and that this is, is `mem_feed_drop_iff`, from the `Saw` of
`Proofs.Decoder.Acceptance`. `remains` finds the cut frame and the whole ones behind it.
`Proofs.Decoder.Changed` uses the same lemmas for a header that a changed byte makes.
-/

namespace SerialLink

/-! ## Streams without a header -/

/-- No three `marker` bytes stand in a row, counting the `run` of them before. -/
def Headerless : Nat → List UInt8 → Prop
  | _, [] => True
  | run, b :: rest => if b = marker then run < 2 ∧ Headerless (run + 1) rest else Headerless 0 rest

namespace Headerless

variable {run run' : Nat} {bytes : List UInt8}

theorem mono (h : Headerless run bytes) (hle : run' ≤ run) : Headerless run' bytes := by
  induction bytes generalizing run run' with
  | nil => trivial
  | cons b rest ih =>
    unfold Headerless at h ⊢
    split
    · next hb =>
      rw [if_pos hb] at h
      exact ⟨by omega, ih h.2 (by omega)⟩
    · next hb =>
      rw [if_neg hb] at h
      exact h

theorem lt_two {b : UInt8} {rest : List UInt8} (h : Headerless run (b :: rest)) (hb : b = marker) :
    run < 2 := by
  rw [Headerless, if_pos hb] at h
  exact h.1

/-- What stands behind a byte is `Headerless` too, with the run that the byte leaves. -/
theorem tail {b : UInt8} {rest : List UInt8} (h : Headerless run (b :: rest)) :
    Headerless (if b = marker then run + 1 else 0) rest := by
  unfold Headerless at h
  split
  · next hb =>
    rw [if_pos hb] at h
    exact h.2
  · next hb =>
    rw [if_neg hb] at h
    exact h

/-- A part that is cut off at the front takes no header away and makes none. -/
theorem drop (h : Headerless run bytes) (n : Nat) : Headerless 0 (bytes.drop n) := by
  induction bytes generalizing run n with
  | nil => simp [Headerless]
  | cons b rest ih =>
    cases n with
    | zero => exact h.mono (Nat.zero_le _)
    | succ n => exact ih h.tail n

end Headerless

/-- Bytes are `Headerless` exactly if the three bytes of a header stand nowhere in them. -/
theorem headerless_iff (bytes : List UInt8) :
    Headerless 0 bytes ↔ ¬ List.replicate Frame.headerLength marker <:+: bytes := by
  constructor
  · rintro h ⟨before, after, rfl⟩
    have hrest := h.drop before.length
    rw [List.append_assoc, List.drop_left] at hrest
    simp [Headerless, Frame.headerLength, List.replicate] at hrest
  · suffices hall : ∀ run ≤ 2, ¬ List.replicate Frame.headerLength marker <:+:
        List.replicate run marker ++ bytes → Headerless run bytes from hall 0 (Nat.zero_le 2)
    -- A run that becomes too long is a header with the bytes before.
    induction bytes with
    | nil => exact fun _ _ _ => trivial
    | cons b rest ih =>
      intro run hrun h
      unfold Headerless
      split
      · next hb =>
        have hmove : List.replicate run marker ++ b :: rest =
            List.replicate (run + 1) marker ++ rest := by
          rw [hb, List.replicate_succ', List.append_assoc]
          rfl
        have hlt : run < 2 := by
          apply Nat.lt_of_le_of_ne hrun
          rintro rfl
          exact h ⟨[], rest, by rw [hmove]; rfl⟩
        exact ⟨hlt, ih (run + 1) hlt (hmove ▸ h)⟩
      · apply ih 0 (Nat.zero_le 2)
        exact fun hin => h (hin.trans ⟨List.replicate run marker ++ [b], [], by simp⟩)

/-- Stuffed bytes hold no header, and leave their run, `runAfter`, to what stands behind them. -/
theorem headerless_append {run : Nat} (hrun : run ≤ 1) (bytes behind : List UInt8) :
    Headerless run (Stuffing.stuffFrom run bytes ++ behind) ↔
      Headerless (Stuffing.runAfter run bytes) behind := by
  have hstuff : stuffByte ≠ marker := by decide
  induction bytes generalizing run with
  | nil => rfl
  | cons b rest ih =>
    unfold Stuffing.stuffFrom Stuffing.runAfter
    split
    · next hb =>
      split
      -- The second of two marker bytes has a stuff byte behind it, which closes the run.
      · next hone => simpa [Headerless, hb, hone, hstuff] using ih (Nat.zero_le 1)
      · next hone =>
        obtain rfl : run = 0 := by omega
        simpa [Headerless, hb] using ih (Nat.le_refl 1)
    · next hb => simpa [Headerless, hb] using ih (Nat.zero_le 1)

/-- **A stuffed body holds no header, also with the end byte behind it.** -/
theorem headerless_stuffFrom {run : Nat} (hrun : run ≤ 1) (bytes : List UInt8) :
    Headerless run (Stuffing.stuffFrom run bytes ++ [endByte]) := by
  have hend : endByte ≠ marker := by decide
  rw [headerless_append hrun]
  simp [Headerless, hend]

namespace Decoder

variable {d : Decoder} {bytes : List UInt8}

/-- A byte that ends no header ends at most the frame that the decoder is in. -/
theorem push_headerless {b : UInt8} (h : b = marker → d.run < 2) :
    (d.push b).1.run = (if b = marker then d.run + 1 else 0) ∧
      (d.push b).2.frame?.toList.length + (d.push b).1.inFrame.toNat ≤ d.inFrame.toNat := by
  constructor
  · split
    · next hb =>
      have hne : d.run ≠ 2 := Nat.ne_of_lt (h hb)
      rw [push, count_run, step, if_neg hne, take, if_pos hb]
    · next hb => exact d.run_push_eq_zero hb
  · -- No frame begins, so what comes out or is left was there before.
    have hends := endsHeader_eq_false_iff.mpr fun hb => Nat.ne_of_lt (h hb)
    have hbalance := d.push_balance b
    rw [hends, Bool.toNat_false] at hbalance
    omega

/-- `push` keeps `Headerless` for what comes behind, and keeps the run at most two. -/
theorem headerless_push {b : UInt8} (h : Headerless d.run (b :: bytes)) :
    Headerless (d.push b).1.run bytes ∧ (d.push b).1.run ≤ 2 := by
  have hrun := (push_headerless h.lt_two).1
  rw [hrun]
  refine ⟨h.tail, ?_⟩
  split
  · next hb => exact h.lt_two hb
  · exact Nat.zero_le 2

/-- **Without a header no more frames come out of `feed` than were started.** -/
theorem length_feed_headerless (h : Headerless d.run bytes) :
    (d.feed bytes).2.length ≤ d.inFrame.toNat := by
  -- What is left of the one frame is handed on from byte to byte.
  induction bytes generalizing d with
  | nil => simp [feed]
  | cons b rest ih =>
    have hframes := (push_headerless h.lt_two).2
    have hothers := ih (headerless_push h).1
    rw [feed_cons, List.length_append]
    omega

/-- Without a header a decoder that is `searching` reads nothing. -/
theorem feed_headerless (h : Headerless d.run bytes) (hphase : d.phase = .searching) :
    (d.feed bytes).2 = [] := by
  have hlen := length_feed_headerless h
  simpa [inFrame, hphase] using hlen

/-! ## The end of a cut frame -/

/-- A decoder that has just seen a header. -/
def behindHeader : Decoder := { phase := .awaitingId }

theorem feed_header (bytes : List UInt8) :
    fresh.feed (marker :: marker :: marker :: bytes) = behindHeader.feed bytes := rfl

/-- The `stuffByte` is no identifier byte, so behind a header it ends the frame before it began. -/
theorem feed_behindHeader_stuffByte (h : Headerless 0 bytes) :
    (behindHeader.feed (stuffByte :: bytes)).2 = [] := by
  have hpush : behindHeader.push stuffByte =
      ({ stats := DecoderStats.countDiscard {} .id }, .discarded .id) := by decide
  unfold feed
  rw [hpush]
  exact feed_headerless h rfl

end Decoder

namespace Frame

theorem wire_eq (f : Frame) :
    f.wire = marker :: marker :: marker :: (Stuffing.stuff f.body ++ [endByte]) := rfl

/-- With one byte of `wire` missing, only the identifier byte can complete a header. -/
theorem feed_drop_one {f : Frame} (hid : f.id.toByte ≠ marker) :
    (Decoder.fresh.feed (f.wire.drop 1)).2 = [] := by
  have hquiet := headerless_stuffFrom (Nat.zero_le 1) f.body
  rw [wire_eq, List.drop_one, List.tail_cons]
  apply Decoder.feed_headerless _ rfl
  simpa [Stuffing.stuff, Stuffing.stuffFrom, body, covered, hid, Headerless,
    Decoder.fresh] using hquiet

/-- The header that an identifier byte completes is the only one. -/
theorem length_feed_drop_one (f : Frame) : (Decoder.fresh.feed (f.wire.drop 1)).2.length ≤ 1 := by
  by_cases hid : f.id.toByte = marker
  · -- The identifier byte stands for the missing one, and behind it no header follows.
    have hquiet := headerless_stuffFrom (Nat.zero_le 1) f.body
    have hrest : Headerless 0 (f.wire.drop 4) := hquiet.drop 1
    have hheader : f.wire.drop 1 = marker :: marker :: marker :: f.wire.drop 4 := by
      simp [wire_eq, Stuffing.stuff, Stuffing.stuffFrom, body, covered, hid]
    rw [hheader, Decoder.feed_header]
    exact Decoder.length_feed_headerless hrest
  · rw [feed_drop_one hid]
    exact Nat.zero_le 1

/-- With two bytes missing, a header can be completed only by two marker bytes of the body, and the
stuff byte behind them is no identifier byte. -/
theorem feed_drop_two (f : Frame) : (Decoder.fresh.feed (f.wire.drop 2)).2 = [] := by
  have hdrop : f.wire.drop 2 = marker :: (Stuffing.stuff f.body ++ [endByte]) := rfl
  have hend : endByte ≠ marker := by decide
  rw [hdrop]
  by_cases hid : f.id.toByte = marker
  · -- One marker byte is left of the header and one is the identifier, so the next one decides.
    obtain ⟨b, rest, hbody⟩ : ∃ b rest, f.body = marker :: b :: rest := by
      unfold body covered
      rw [hid]
      cases f.seqBytes <;> simp
    have hquiet := headerless_stuffFrom (Nat.zero_le 1) rest
    rw [hbody]
    by_cases hb : b = marker
    · -- A header is complete, but the stuffer has put a stuff byte where its identifier would be.
      simpa [Stuffing.stuff, Stuffing.stuffFrom, hb, Decoder.feed_header] using
        Decoder.feed_behindHeader_stuffByte hquiet
    · apply Decoder.feed_headerless _ rfl
      simpa [Stuffing.stuff, Stuffing.stuffFrom, hb, Headerless, Decoder.fresh] using hquiet
  · have hquiet := headerless_stuffFrom (Nat.zero_le 1) f.body
    apply Decoder.feed_headerless _ rfl
    simpa [Stuffing.stuff, Stuffing.stuffFrom, body, covered, hid, Headerless,
      Decoder.fresh] using hquiet

/-- **In the end of a cut frame nothing is found**, unless just one byte is missing in front of a
marker byte as identifier byte. -/
theorem eq_one_of_mem_feed_drop {f g : Frame} {n : Nat} (hpos : 0 < n)
    (h : g ∈ (Decoder.fresh.feed (f.wire.drop n)).2) : n = 1 ∧ f.id.toByte = marker := by
  obtain rfl | rfl | ⟨m, rfl⟩ : n = 1 ∨ n = 2 ∨ ∃ m, n = m + 3 := by
    rcases n with _ | _ | _ | m
    · omega
    · exact .inl rfl
    · exact .inr (.inl rfl)
    · exact .inr (.inr ⟨m, rfl⟩)
  -- One byte is missing, or two, or the whole header.
  · refine ⟨rfl, Decidable.byContradiction fun hid => ?_⟩
    rw [feed_drop_one hid] at h
    exact absurd h List.not_mem_nil
  · rw [f.feed_drop_two] at h
    exact absurd h List.not_mem_nil
  · have hquiet := (headerless_stuffFrom (Nat.zero_le 1) f.body).drop m
    have hnone : (Decoder.fresh.feed (f.wire.drop (m + 3))).2 = [] :=
      Decoder.feed_headerless hquiet rfl
    rw [hnone] at h
    exact absurd h List.not_mem_nil

/-- However much of `wire` is missing, at most one frame is read from the rest. -/
theorem length_feed_drop_le (f : Frame) {n : Nat} (hpos : 0 < n) :
    (Decoder.fresh.feed (f.wire.drop n)).2.length ≤ 1 := by
  cases hread : (Decoder.fresh.feed (f.wire.drop n)).2 with
  | nil => simp
  | cons g others =>
    obtain ⟨rfl, -⟩ := eq_one_of_mem_feed_drop hpos (hread ▸ List.mem_cons_self)
    rw [← hread]
    exact f.length_feed_drop_one

/-- Behind the `endByte` of a frame no run of marker bytes is open. -/
theorem run_feed_drop {f : Frame} {n : Nat} (hlt : n < f.wire.length) :
    (Decoder.fresh.feed (f.wire.drop n)).1.run = 0 := by
  have hend : f.wire.drop n = (f.wire.dropLast).drop n ++ [endByte] := by
    have hsplit : f.wire = f.wire.dropLast ++ [endByte] := by
      simp [wire]
    have hlen : n ≤ f.wire.dropLast.length := by
      rw [List.length_dropLast]
      omega
    rw [hsplit, List.drop_append_of_le_length (by simpa using hlen)]
    simp
  rw [hend, Decoder.feed_eq_pushAll]
  exact Decoder.run_pushAll_eq_zero _ _ (by decide)

/-- The encoding of `g` stands somewhere in what is left of `f` without its first `n` bytes. -/
def Hides (f : Frame) (n : Nat) (g : Frame) : Prop := g.Plain ∧ g.wire <:+: f.wire.drop n

/-- **What is found in the end of a cut frame is what is hidden there.** -/
theorem mem_feed_drop_iff {f g : Frame} {n : Nat} (hpos : 0 < n) :
    g ∈ (Decoder.fresh.feed (f.wire.drop n)).2 ↔ f.Hides n g := by
  constructor
  · -- What a decoder accepts it has seen, byte for byte.
    intro h
    have hsaw := Decoder.saw_of_searching (d := Decoder.fresh) rfl rfl []
    exact hsaw.mem_feed h
  · rintro ⟨hplain, before, after, hsplit⟩
    have hlater : f.wire.drop (n + before.length) = g.wire ++ after := by
      rw [← List.drop_drop, ← hsplit, List.append_assoc, List.drop_left]
    have hread : g ∈ (Decoder.fresh.feed (f.wire.drop (n + before.length))).2 := by
      rw [hlater, Decoder.feed_append, Decoder.feed_wire rfl hplain]
      exact List.mem_cons_self
    -- It is read where it stands, so it stands at the front.
    obtain ⟨hone, -⟩ := eq_one_of_mem_feed_drop (Nat.add_pos_left hpos _) hread
    have hfront : n + before.length = n := by omega
    rwa [hfront] at hread

end Frame

/-! ## What is left of a stream -/

/-- The frames that are left of a stream when its first bytes are missing. -/
structure Remains where
  /-- The frame that is cut, and how many of its bytes are missing. -/
  cut : Option (Frame × Nat)
  /-- The frames of which no byte is missing. -/
  whole : List Frame

/-- What is left of the encodings of frames without their first `k` bytes. -/
def remains (k : Nat) : List Frame → Remains
  | [] => ⟨none, []⟩
  | f :: rest =>
    if k = 0 then ⟨none, f :: rest⟩
    else if k < f.wire.length then ⟨some (f, k), rest⟩
    else remains (k - f.wire.length) rest

namespace Remains

/-- The bytes that are left. -/
def bytes (r : Remains) : List UInt8 :=
  r.cut.toList.flatMap (fun (f, n) => f.wire.drop n) ++ r.whole.flatMap Frame.wire

/-- The encoding of `g` stands in what is left of the frame that is cut. -/
def Hides (r : Remains) (g : Frame) : Prop := ∃ f n, r.cut = some (f, n) ∧ f.Hides n g

end Remains

/-- The frames that `remains` leaves stand behind those that are missing, and a cut is in the first
of them. -/
theorem remains_spec (k : Nat) (frames : List Frame) :
    ∃ missing, frames = missing ++ (remains k frames).cut.toList.map Prod.fst ++
        (remains k frames).whole ∧
      ∀ f n, (remains k frames).cut = some (f, n) →
        0 < n ∧ n < f.wire.length ∧ k = (missing.flatMap Frame.wire).length + n := by
  induction frames generalizing k with
  | nil => exact ⟨[], by simp [remains]⟩
  | cons f rest ih =>
    unfold remains
    split
    · next hzero => exact ⟨[], by simp⟩
    · next hpos =>
      split
      · next hlt =>
        refine ⟨[], by simp, ?_⟩
        intro g n hg
        obtain ⟨rfl, rfl⟩ := Prod.mk.inj (Option.some.inj hg)
        exact ⟨Nat.pos_of_ne_zero hpos, hlt, by simp⟩
      -- The whole of `f` is missing, and the cut is searched for behind it.
      · next hge =>
        obtain ⟨missing, hsplit, hcut⟩ := ih (k - f.wire.length)
        refine ⟨f :: missing, ?_, ?_⟩
        · rw [List.cons_append, List.cons_append, ← hsplit]
        · intro g n hg
          obtain ⟨hn, hlt, hk⟩ := hcut g n hg
          refine ⟨hn, hlt, ?_⟩
          rw [List.flatMap_cons, List.length_append]
          omega

/-- The bytes of `remains k` are the stream without its first `k` bytes. -/
theorem bytes_remains (k : Nat) (frames : List Frame) :
    (remains k frames).bytes = (frames.flatMap Frame.wire).drop k := by
  induction frames generalizing k with
  | nil => simp [remains, Remains.bytes]
  | cons f rest ih =>
    unfold remains
    split
    · next hzero => simp [Remains.bytes, hzero]
    · split
      · next hlt =>
        rw [List.flatMap_cons, List.drop_append_of_le_length (Nat.le_of_lt hlt)]
        simp [Remains.bytes]
      · next hge =>
        rw [ih, List.flatMap_cons, List.drop_append,
          List.drop_eq_nil_of_le (Nat.le_of_not_lt hge), List.nil_append]

/-! ## Joining -/

namespace Decoder

/-- A decoder without an open run reads back what comes, in whatever phase it is. This is
`feed_stream` with the empty stream allowed. -/
theorem feed_wires {d : Decoder} {frames : List Frame} (hrun : d.run = 0)
    (hid : ∀ f ∈ frames, f.id.Valid) :
    (d.feed (frames.flatMap Frame.wire)).2 = frames.map Frame.readBack := by
  cases frames with
  | nil => rfl
  | cons f rest => exact feed_stream hrun (by simp) hid

/-- A list of at most one frame is an option. -/
theorem exists_option {found : List Frame} (hlen : found.length ≤ 1) :
    ∃ ghost : Option Frame, found = ghost.toList ∧ ∀ g, ghost = some g ↔ g ∈ found := by
  match found, hlen with
  | [], _ => exact ⟨none, rfl, by simp⟩
  | [g'], _ => exact ⟨some g', rfl, fun g => by simp [eq_comm]⟩

/-- The frame that is cut gives at most one frame, the one that `Remains.Hides` in what is left of
it. -/
theorem feed_cut {r : Remains} (hcut : ∀ f n, r.cut = some (f, n) → 0 < n ∧ n < f.wire.length)
    (hid : ∀ f ∈ r.whole, f.id.Valid) :
    ∃ ghost : Option Frame, (fresh.feed r.bytes).2 = ghost.toList ++ r.whole.map Frame.readBack ∧
      ∀ g, ghost = some g ↔ r.Hides g := by
  obtain ⟨cut, whole⟩ := r
  cases cut with
  | none =>
    refine ⟨none, ?_, by simp [Remains.Hides]⟩
    simpa [Remains.bytes] using feed_wires (d := fresh) rfl hid
  | some torn =>
    obtain ⟨f, n⟩ := torn
    obtain ⟨hpos, hlt⟩ := hcut f n rfl
    -- The end byte of the torn frame leaves a run of zero, so the whole ones are read as they are.
    have hwhole := feed_wires (Frame.run_feed_drop hlt) hid
    have hread : (fresh.feed (Remains.bytes ⟨some (f, n), whole⟩)).2 =
        (fresh.feed (f.wire.drop n)).2 ++ whole.map Frame.readBack := by
      simp [Remains.bytes, feed_append, hwhole]
    have hlen := f.length_feed_drop_le hpos
    have hhides : ∀ g, g ∈ (fresh.feed (f.wire.drop n)).2 ↔
        Remains.Hides ⟨some (f, n), whole⟩ g := by
      intro g
      rw [Frame.mem_feed_drop_iff hpos]
      constructor
      · exact fun h => ⟨f, n, rfl, h⟩
      · rintro ⟨_, _, ⟨⟩, h⟩
        exact h
    obtain ⟨ghost, hfound, hghost⟩ := exists_option hlen
    exact ⟨ghost, by rw [hread, hfound], fun g => (hghost g).trans (hhides g)⟩

/-- **A receiver that joins a stream in the middle reads back the whole frames**, wherever the cut
is, and before them at most one that nobody sent: the one whose encoding stands in the end of the
frame that is cut. So nothing else is read exactly if no encoding stands there; and one can stand
there only if just the first byte of a frame with identifier byte `0xAA` is missing. -/
theorem joins_midstream {frames : List Frame} (hid : ∀ f ∈ frames, f.id.Valid) (k : Nat) :
    ∃ wires, frames.mapM Frame.encode = .ok wires ∧
      let r := remains k frames
      let read := (fresh.feed (wires.flatten.drop k)).2
      (∃ ghost : Option Frame, read = ghost.toList ++ r.whole.map Frame.readBack ∧
        ∀ g, ghost = some g ↔ r.Hides g) ∧
      (read = r.whole.map Frame.readBack ↔ ∀ g, ¬ r.Hides g) ∧
      ∀ g, r.Hides g → ∃ missing f, frames = missing ++ f :: r.whole ∧
        k = (missing.flatMap Frame.wire).length + 1 ∧ f.id.toByte = marker := by
  refine ⟨frames.map Frame.wire, mapM_encode hid, ?_⟩
  obtain ⟨missing, hsplit, hcut⟩ := remains_spec k frames
  have hbytes := bytes_remains k frames
  rw [List.flatMap_def] at hbytes
  rw [← hbytes]
  generalize remains k frames = r at hsplit hcut
  have hvalid : ∀ f ∈ r.whole, f.id.Valid := by
    intro f hf
    apply hid
    rw [hsplit]
    exact List.mem_append_right _ hf
  obtain ⟨ghost, hread, hghost⟩ :=
    feed_cut (fun f n h => ⟨(hcut f n h).1, (hcut f n h).2.1⟩) hvalid
  refine ⟨⟨ghost, hread, hghost⟩, ?_, ?_⟩
  · simp only [hread, ← hghost]
    cases ghost <;> simp
  · rintro g ⟨f, n, htorn, hhides⟩
    obtain ⟨hpos, -, hk⟩ := hcut f n htorn
    obtain ⟨rfl, hmarker⟩ :=
      Frame.eq_one_of_mem_feed_drop hpos ((Frame.mem_feed_drop_iff hpos).mpr hhides)
    exact ⟨missing, f, by simpa [htorn] using hsplit, hk, hmarker⟩

/-- A frame whose payload is the end of another one, of which its number and its length are the
beginning. -/
def enclosing : Frame :=
  let inner : Frame := ⟨.data 1, 7, .singleton 9⟩
  let payload := [1, 9] ++ Frame.bigEndian inner.checksum ++ [endByte]
  ⟨.data 0x2A, 0x81, (Payload.ofList? payload).getD .empty⟩

def nested : List Frame := [enclosing, ⟨.app 2, 0, .singleton 5⟩]

/-- Without the first byte of `nested` its second frame is read back behind one that was no frame;
without the first two it is read back alone, as nothing is hidden in what is left. -/
theorem joins_midstream_nested :
    (∀ f ∈ nested, f.id.Valid) ∧
    (remains 1 nested).Hides ⟨.data 1, 7, .singleton 9⟩ ∧
    (∃ wires, nested.mapM Frame.encode = .ok wires ∧
      (fresh.feed (wires.flatten.drop 1)).2 =
        [⟨.data 1, 7, .singleton 9⟩, ⟨.app 2, 0, .singleton 5⟩]) ∧
    ∀ g, ¬ (remains 2 nested).Hides g := by
  have hid : ∀ f ∈ nested, f.id.Valid := by decide +kernel
  have hwhole : (remains 1 nested).whole.map Frame.readBack = [⟨.app 2, 0, .singleton 5⟩] := by
    decide +kernel
  have hplain : Frame.Plain ⟨.data 1, 7, .singleton 9⟩ :=
    ⟨FrameId.valid_data.mpr (by decide), by simp⟩
  have hhides : (remains 1 nested).Hides ⟨.data 1, 7, .singleton 9⟩ :=
    ⟨enclosing, 1, by decide +kernel, hplain, List.IsPrefix.isInfix (by decide +kernel)⟩
  refine ⟨hid, hhides, ?_, ?_⟩
  · obtain ⟨wires, hwires, ⟨ghost, hread, hghost⟩, -⟩ := joins_midstream hid 1
    refine ⟨wires, hwires, ?_⟩
    rw [hread, (hghost _).mpr hhides, hwhole]
    rfl
  · obtain ⟨wires, hwires, -, honly, -⟩ := joins_midstream hid 2
    apply honly.mp
    rw [mapM_encode hid] at hwires
    obtain rfl := Except.ok.inj hwires
    decide +kernel

/-- **Payload bytes can be taken for a frame of their own**, contrary to what stuffing is for. -/
theorem phantom_behind_identifier :
    ∃ wires, nested.mapM Frame.encode = .ok wires ∧ (remains 1 nested).whole.length = 1 ∧
      (fresh.feed (wires.flatten.drop 1)).2 ≠ (remains 1 nested).whole.map Frame.readBack := by
  refine ⟨nested.map Frame.wire, mapM_encode (by decide +kernel), ?_, ?_⟩
  all_goals decide +kernel

end Decoder

end SerialLink
