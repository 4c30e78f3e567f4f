import SerialLink.Proofs.Decoder.Joining
import SerialLink.Proofs.Frame.Body

/-!
# A frame with a changed byte

What a decoder reads from a frame of which one byte was changed, in any way, is the frame whose
encoding stands in the bytes that arrive, if there is one: at their front, or at a header that the
changed byte made. At the front it can stand only if a marker byte was changed. The stuff byte
behind it is then read as a byte of the body, and the frame ends a byte early.

`ReadsSpelled` says what is read in terms of `Frame.SpelledIn`, for any change of a body byte
(`readsSpelled_changed`) and for a stuff byte that becomes no marker byte
(`readsSpelled_stuffByte`). It rests on `Within`, the invariant that `Proofs.Decoder.Acceptance`
carries through a frame, and on `Headerless` from `Proofs.Decoder.Joining`: either the change makes
no header, or the header that it makes is the only one. `spelled_front` and `not_spelled_front` say
what an encoding at the front would need, by the checksum lemmas of `Proofs.Frame.Body`. Of the
change nothing is assumed but that it is one, so that `Proofs.Decoder.BitFlip` has only to name it.
-/

namespace SerialLink

open Stuffing

/-! ## Behind a header -/

namespace Decoder

variable {d : Decoder} {lead seen bytes : List UInt8} {g : Frame}

/-- `Within` does not look at the counters. -/
theorem Within.count (h : d.Within lead seen) (p : Progress) : (d.count p).Within lead seen := by
  unfold Within
  rw [count_phase, count_run]
  exact h

/-- Inside a frame, a byte that ends no header joins the body, ends it or discards it. -/
theorem Within.push {b : UInt8} (h : d.Within lead seen) (hle : d.run ≤ 2)
    (hmarker : b = marker → d.run < 2) :
    ((d.push b).2 = .pending ∧ (d.push b).1.Within lead (seen ++ [b])) ∨
      (∃ f : Frame, (d.push b).2 = .frame f ∧ (d.push b).1.phase = .searching ∧ f.Plain ∧
        seen ++ [b] = lead ++ stuff f.body ++ [endByte]) ∨
      ∃ reason, (d.push b).2 = .discarded reason ∧ (d.push b).1.phase = .searching := by
  have hends := endsHeader_eq_false_iff.mpr fun hb => Nat.ne_of_lt (hmarker hb)
  rcases d.push_cases b with
    ⟨p, hheader, -, -⟩ | ⟨-, hrun, hb, hpush⟩ | ⟨-, -, -, -, hpush⟩ | ⟨-, hfree, hpush⟩
  · exact absurd (hheader.symm.trans hends) (by simp)
  · -- A stuff byte was seen, but is no part of the body.
    obtain ⟨part, hpart, hseen, hafter⟩ := h
    rw [if_pos hrun] at hseen
    rw [hrun] at hafter
    rw [hpush]
    exact .inl ⟨rfl, part, hpart, by simpa [hb] using hseen, by simpa using hafter⟩
  · -- Where a stuff byte has to be there is another byte.
    rw [hpush]
    exact .inr (.inr ⟨.stuffing, rfl, rfl⟩)
  · -- The byte is one of the body, and goes by `Within.take`.
    have hin : d.inFrame = true := by
      obtain ⟨part, hpart, -⟩ := h
      exact inFrame_iff.mpr hpart.ne_searching
    have hne := hfree hin
    rw [hpush, count_phase]
    rcases h.take (by omega) b with ⟨hpending, hnext⟩ | hend
    · exact .inl ⟨hpending, hnext.count _⟩
    · exact .inr hend

/-- A frame that is read before another header comes is the one that the decoder is `Within`. -/
theorem Within.mem_feed (h : d.Within lead seen) (hle : d.run ≤ 2)
    (hquiet : Headerless d.run bytes) (hg : g ∈ (d.feed bytes).2) :
    g.Plain ∧ lead ++ stuff g.body ++ [endByte] <+: seen ++ bytes := by
  -- A byte that ends the frame or discards it leaves the decoder between frames, and there nothing
  -- is read without a header.
  induction bytes generalizing d seen with
  | nil => exact absurd hg List.not_mem_nil
  | cons b rest ih =>
    obtain ⟨hrest, hle'⟩ := headerless_push hquiet
    have hsplit : seen ++ b :: rest = seen ++ [b] ++ rest := by simp
    rw [feed_cons] at hg
    rw [hsplit]
    rcases h.push hle hquiet.lt_two with
      ⟨hpending, hnext⟩ | ⟨f, hframe, hphase, hplain, hseen⟩ | ⟨reason, hdiscard, hphase⟩
    · rw [hpending] at hg
      exact ih hnext hle' hrest hg
    · rw [hframe, feed_headerless hrest hphase] at hg
      obtain rfl := List.mem_singleton.mp hg
      rw [hseen]
      exact ⟨hplain, List.prefix_append ..⟩
    · rw [hdiscard, feed_headerless hrest hphase] at hg
      exact absurd hg List.not_mem_nil

/-- Where the encoding of a `Plain` frame comes next, it is read. -/
theorem mem_feed_of_wire (hrun : d.run = 0) (hplain : g.Plain) (h : g.wire <+: bytes) :
    g ∈ (d.feed bytes).2 := by
  obtain ⟨rest, rfl⟩ := h
  rw [feed_append, feed_wire hrun hplain]
  exact List.mem_cons_self

/-- **Behind a header just the frame is read whose encoding stands there**, if no other header
comes. -/
theorem mem_feed_awaitingId {stats : DecoderStats} (hquiet : Headerless 0 bytes) :
    g ∈ (feed ⟨.awaitingId, 0, stats⟩ bytes).2 ↔
      g.Plain ∧ g.wire <+: List.replicate Frame.headerLength marker ++ bytes := by
  constructor
  · -- Behind its header a decoder is `Within` a body of which nothing was seen.
    intro hg
    have hwithin : Within ⟨.awaitingId, 0, stats⟩ [] [] := ⟨[], .awaitingId, rfl, rfl⟩
    obtain ⟨hplain, hbody⟩ := hwithin.mem_feed (Nat.zero_le 2) hquiet hg
    refine ⟨hplain, ?_⟩
    rw [Frame.wire, List.append_assoc]
    exact (List.prefix_append_right_inj _).mpr hbody
  · -- The body is taken in as it is, and its end byte completes the frame.
    rintro ⟨hplain, hwire⟩
    rw [Frame.wire, List.append_assoc, List.prefix_append_right_inj] at hwire
    obtain ⟨rest, rfl⟩ := hwire
    obtain ⟨n, hbody⟩ := pushAll_body hplain.1 stats
    have hread : g ∈ (feed ⟨.awaitingId, 0, stats⟩ (stuff g.body ++ [endByte])).2 := by
      rw [feed_eq_pushAll, hbody, hplain.readBack]
      simp [Progress.frame?]
    rw [feed_append]
    exact List.mem_append_left _ hread

/-! ## Up to a header -/

/-- A marker byte that ends no header is read as nothing, and makes the run longer. -/
theorem feed_marker (hrun : d.run ≤ 1) :
    ∃ d' : Decoder, d'.run = d.run + 1 ∧
      ∀ bytes, (d.feed (marker :: bytes)).2 = (d'.feed bytes).2 := by
  obtain ⟨d', p, hpush, hrun', hframe, -⟩ := push_marker hrun
  refine ⟨d', hrun', fun bytes => ?_⟩
  rw [feed_cons, hpush, hframe]
  rfl

/-- Marker bytes that complete a header leave nothing of what was before. -/
theorem feed_markers {n : Nat} (hrun : d.run + (n + 1) = 3) :
    ∃ stats, ∀ bytes, (d.feed (List.replicate (n + 1) marker ++ bytes)).2 =
      (feed ⟨.awaitingId, 0, stats⟩ bytes).2 := by
  induction n generalizing d with
  | zero =>
    obtain ⟨stats, p, hpush, hframe, -⟩ := push_third_marker (d := d) (by omega)
    refine ⟨stats, fun bytes => ?_⟩
    rw [List.replicate_one, List.singleton_append, feed_cons, hpush, hframe]
    rfl
  | succ n ih =>
    obtain ⟨d', hrun', hfeed⟩ := feed_marker (d := d) (by omega)
    obtain ⟨stats, hall⟩ := ih (d := d') (by omega)
    refine ⟨stats, fun bytes => ?_⟩
    rw [List.replicate_succ, List.cons_append, hfeed, hall]

theorem exists_acceptAll {phase next : Phase} {xs ys : List UInt8}
    (h : phase.acceptAll (xs ++ ys) = some next) : ∃ mid, phase.acceptAll xs = some mid := by
  induction xs generalizing phase with
  | nil => exact ⟨phase, rfl⟩
  | cons b rest ih =>
    rw [List.cons_append] at h
    unfold Phase.acceptAll at h
    split at h
    · next mid hb =>
      rw [Phase.acceptAll_cons hb]
      exact ih h
    · exact absurd h (by simp)

/-- In the first part of a frame nothing is read, and the run is `runAfter` its body bytes. -/
theorem feed_front {f : Frame} (hid : f.id.Valid) {front rest : List UInt8}
    (hbody : f.body = front ++ rest) :
    ∃ d' : Decoder, d'.run = runAfter 0 front ∧
      ∀ bytes, (fresh.feed (List.replicate Frame.headerLength marker ++
        (stuff front ++ bytes))).2 = (d'.feed bytes).2 := by
  obtain ⟨phase, hphase⟩ := exists_acceptAll (hbody ▸ Phase.acceptAll_body hid)
  have hfront := pushAll_stuffFrom (d := behindHeader) (Nat.zero_le 1) hphase
  refine ⟨⟨phase, runAfter 0 front, {}⟩, rfl, fun bytes => ?_⟩
  have hread : behindHeader.feed (stuff front) = (⟨phase, runAfter 0 front, {}⟩, []) := by
    rw [feed_eq_pushAll, stuff]
    dsimp only [behindHeader] at hfront ⊢
    rw [hfront]
    simp [Progress.frame?]
  have hheader : fresh.feed (List.replicate Frame.headerLength marker ++ (stuff front ++ bytes)) =
      behindHeader.feed (stuff front ++ bytes) := feed_header _
  rw [hheader, feed_append, hread, List.nil_append]

end Decoder

/-! ## What is spelled -/

/-- The encoding of `g` stands at the front of `torn`, or just before the byte at `i`. These are the
two places where a change of the byte at `i` can bring one about. -/
def Frame.SpelledIn (g : Frame) (torn : List UInt8) (i : Nat) : Prop :=
  g.Plain ∧ (g.wire <+: torn ∨ g.wire <+: torn.drop (i - 1))

theorem not_headerless_of_wire {g : Frame} {bytes : List UInt8} (h : g.wire <+: bytes) :
    ¬ Headerless 0 bytes := by
  obtain ⟨rest, rfl⟩ := h
  simp [Frame.wire_eq, Headerless]

/-- The `stuffByte` behind two marker bytes is no identifier byte. -/
theorem stuffByte_ne_toByte {id : FrameId} (h : id.Valid) : id.toByte ≠ stuffByte := by
  intro hbyte
  have hread := FrameId.ofByte?_toByte h
  rw [hbyte] at hread
  exact absurd hread (by simp [show FrameId.ofByte? stuffByte = none by decide])

/-- Behind a marker byte that was put in there is no header, or the rest of one. In the second case
a stuff byte follows where the marker byte is the first one of the header. -/
theorem headerless_or_markers {run : Nat} (hrun : run ≤ 1) (rest : List UInt8) :
    Headerless (run + 1) (stuffFrom 0 rest ++ [endByte]) ∨
      ∃ bytes, stuffFrom 0 rest ++ [endByte] = List.replicate (2 - run) marker ++ bytes ∧
        Headerless 0 bytes ∧ (run = 0 → ∃ tail, bytes = stuffByte :: tail) := by
  have hend : endByte ≠ marker := by decide
  have hstuff : stuffByte ≠ marker := by decide
  -- Only if the byte behind is a marker byte too may the run reach three.
  cases rest with
  | nil => exact .inl (by simp [stuffFrom, Headerless, hend])
  | cons c rest =>
    have hquiet := headerless_stuffFrom (Nat.zero_le 1) rest
    by_cases hc : c = marker
    · rw [hc, stuffFrom_cons, behind_marker_zero]
      obtain rfl | rfl : run = 0 ∨ run = 1 := by omega
      · -- Two more marker bytes are needed, and the stuffer has put a stuff byte behind them.
        cases rest with
        | nil => exact .inl (by simp [stuffFrom, Headerless, hend])
        | cons c' rest =>
          have hquiet' := headerless_stuffFrom (Nat.zero_le 1) rest
          by_cases hc' : c' = marker
          · rw [hc', stuffFrom_cons, behind_marker_one]
            refine .inr ⟨stuffByte :: (stuffFrom 0 rest ++ [endByte]), rfl, ?_, fun _ => ⟨_, rfl⟩⟩
            simpa [Headerless, hstuff] using hquiet'
          · rw [stuffFrom_cons_of_ne hc']
            exact .inl (by simpa [Headerless, hc'] using hquiet')
      · -- One was open before, so that the one behind completes a header.
        refine .inr ⟨stuffFrom 1 rest ++ [endByte], rfl, ?_, by simp⟩
        exact (headerless_stuffFrom (Nat.le_refl 1) rest).mono (Nat.zero_le 1)
    · rw [stuffFrom_cons_of_ne hc]
      exact .inl (by simpa [Headerless, hc] using hquiet)

namespace Decoder

/-- What a `fresh` decoder reads from `torn` is what is `SpelledIn` it, at most one frame. -/
structure ReadsSpelled (torn : List UInt8) (i : Nat) : Prop where
  mem_iff : ∀ g : Frame, g ∈ (fresh.feed torn).2 ↔ g.SpelledIn torn i
  length_le : (fresh.feed torn).2.length ≤ 1

variable {bytes : List UInt8} {i : Nat}

/-- If the only header is the first one, only what stands at the front can be read. -/
theorem readsSpelled_headerless (hquiet : Headerless 0 bytes) (hi : Frame.headerLength < i) :
    ReadsSpelled (List.replicate Frame.headerLength marker ++ bytes) i := by
  have hheader : fresh.feed (List.replicate Frame.headerLength marker ++ bytes) =
      behindHeader.feed bytes := feed_header _
  have hdrop : Headerless 0
      ((List.replicate Frame.headerLength marker ++ bytes).drop (i - 1)) := by
    rw [List.drop_append, List.drop_replicate,
      Nat.sub_eq_zero_of_le (by omega : Frame.headerLength ≤ i - 1)]
    exact hquiet.drop _
  constructor
  · intro g
    rw [hheader]
    refine (mem_feed_awaitingId hquiet).trans (and_congr_right fun _ => ?_)
    exact ⟨.inl, fun h => h.resolve_right fun hlater => not_headerless_of_wire hlater hdrop⟩
  · rw [hheader]
    exact length_feed_headerless hquiet

/-- A header that was made within the body discards the frame, and starts another one. If no run was
open before it, a stuff byte follows it, which no encoding has there. -/
theorem readsSpelled_made {f : Frame} (hid : f.id.Valid) {front rest : List UInt8}
    (hbody : f.body = front ++ rest) (hfront : front ≠ []) (hquiet : Headerless 0 bytes)
    (hstuff : runAfter 0 front = 0 → ∃ tail, bytes = stuffByte :: tail) :
    ReadsSpelled (List.replicate Frame.headerLength marker ++
        (stuff front ++ marker :: (List.replicate (2 - runAfter 0 front) marker ++ bytes)))
      (Frame.headerLength + (stuff front).length) := by
  have hle := runAfter_le (Nat.zero_le 1) front
  obtain ⟨d, hrun, hfeed⟩ := feed_front hid hbody
  obtain ⟨stats, hmarkers⟩ := feed_markers (n := 2 - runAfter 0 front) (d := d) (by omega)
  have hread := (hfeed _).trans (hmarkers bytes)
  rw [List.replicate_succ, List.cons_append] at hread
  -- The byte before the flipped one is a marker byte if a run is open there.
  obtain ⟨before, last, hsplit, hlast⟩ := exists_last (Nat.zero_le 1) hfront
  have hdrop : (List.replicate Frame.headerLength marker ++ (stuff front ++
      marker :: (List.replicate (2 - runAfter 0 front) marker ++ bytes))).drop
        (Frame.headerLength + (stuff front).length - 1) =
      last :: marker :: (List.replicate (2 - runAfter 0 front) marker ++ bytes) := by
    rw [stuff, hsplit, List.append_assoc, ← List.append_assoc]
    exact List.drop_left' (by simp)
  have hspelled : ∀ g : Frame, g.id.Valid →
      (g.wire <+: last :: marker :: (List.replicate (2 - runAfter 0 front) marker ++ bytes) ↔
        g.wire <+: List.replicate Frame.headerLength marker ++ bytes) := by
    intro g hg
    obtain hzero | hone : runAfter 0 front = 0 ∨ runAfter 0 front = 1 := by omega
    · -- In neither place does an encoding stand.
      obtain ⟨tail, rfl⟩ := hstuff hzero
      have hne : last ≠ marker := fun h => absurd (hlast.mp h) (by omega)
      refine ⟨fun h => absurd (List.cons_prefix_cons.mp h).1.symm hne, fun h => ?_⟩
      rw [Frame.wire, List.append_assoc, List.prefix_append_right_inj, Frame.body, Frame.covered,
        List.cons_append, stuff, stuffFrom_cons] at h
      exact absurd (List.cons_prefix_cons.mp h).1 (stuffByte_ne_toByte hg)
    · rw [hone, hlast.mpr hone]
      rfl
  constructor
  · intro g
    unfold Frame.SpelledIn
    rw [hdrop]
    constructor
    · intro hg
      rw [hread] at hg
      obtain ⟨hplain, hwire⟩ := (mem_feed_awaitingId hquiet).mp hg
      exact ⟨hplain, .inr ((hspelled g hplain.1).mpr hwire)⟩
    · rintro ⟨hplain, hwire | hwire⟩
      · exact mem_feed_of_wire rfl hplain hwire
      · rw [hread]
        exact (mem_feed_awaitingId hquiet).mpr ⟨hplain, (hspelled g hplain.1).mp hwire⟩
  · rw [hread]
    exact length_feed_headerless hquiet

/-- **What is read from a frame of which a body byte was changed.** -/
theorem readsSpelled_changed {f : Frame} (hid : f.id.Valid) {front rest : List UInt8} {b b' : UInt8}
    (hbody : f.body = front ++ b :: rest) (hfront : front ≠ []) (hne : b' ≠ b) :
    ReadsSpelled (List.replicate Frame.headerLength marker ++
        (stuff front ++ b' :: (behind (runAfter 0 front) b rest ++ [endByte])))
      (Frame.headerLength + (stuff front).length) := by
  have hle := runAfter_le (Nat.zero_le 1) front
  obtain ⟨before, last, hsplit, -⟩ := exists_last (Nat.zero_le 1) hfront
  have hi : Frame.headerLength < Frame.headerLength + (stuff front).length := by
    rw [stuff, hsplit]
    simp
  -- Only a byte that became a marker byte can complete a header.
  by_cases hmade : b' = marker
  · have hb : b ≠ marker := fun hb => hne (hmade.trans hb.symm)
    rw [behind_of_ne hb, hmade]
    rcases headerless_or_markers hle rest with hquiet | ⟨bytes, hmarkers, hquiet, hstuff⟩
    · refine readsSpelled_headerless ((headerless_append (Nat.zero_le 1) _ _).mpr ?_) hi
      simpa [Headerless] using ⟨by omega, hquiet⟩
    · rw [hmarkers]
      exact readsSpelled_made hid hbody hfront hquiet hstuff
  · refine readsSpelled_headerless ((headerless_append (Nat.zero_le 1) _ _).mpr ?_) hi
    have hquiet := headerless_stuffFrom hle (b :: rest)
    rw [stuffFrom_cons] at hquiet
    simpa [Headerless, hmade] using hquiet.tail.mono (Nat.zero_le _)

/-- A `stuffByte` that was changed, but not to a marker byte, makes no header. -/
theorem readsSpelled_stuffByte {front rest : List UInt8} (hone : runAfter 0 front = 1)
    {s : UInt8} (hs : s ≠ marker) {i : Nat} (hi : Frame.headerLength < i) :
    ReadsSpelled (List.replicate Frame.headerLength marker ++
      (stuff front ++ marker :: s :: (stuffFrom 0 rest ++ [endByte]))) i := by
  refine readsSpelled_headerless ((headerless_append (Nat.zero_le 1) _ _).mpr ?_) hi
  have hquiet := headerless_stuffFrom (Nat.zero_le 1) rest
  simpa [Headerless, hone, hs] using hquiet

end Decoder

/-! ## What can be spelled -/

namespace Frame

variable {f g : Frame} {front rest : List UInt8}

/-- **An encoding at the front.** If the encoding of a frame stands at the front of one of which a
body byte behind the length byte was changed, then this byte was a marker byte, and the encoding
ends one byte early. -/
theorem spelled_front {b b' : UInt8} (hf : f.id.Valid) (hg : g.id.Valid)
    (hbody : f.body = front ++ b :: rest) (hhead : f.head <+: front) (hne : b' ≠ b)
    (h : g.wire <+: List.replicate headerLength marker ++
      (stuff front ++ b' :: (behind (runAfter 0 front) b rest ++ [endByte]))) :
    b = marker ∧ List.replicate headerLength marker ++
      (stuff front ++ b' :: (behind (runAfter 0 front) b rest ++ [endByte])) =
        g.wire ++ [endByte] := by
  have hle := runAfter_le (Nat.zero_le 1) front
  rw [wire, List.append_assoc, List.prefix_append_right_inj] at h
  -- What is read from both begins with the same bytes, so that the bodies are of one length.
  have hread := unstuffFrom_mono 0 h
  rw [stuff, stuff, unstuffFrom_stuffFrom (Nat.zero_le 1),
    unstuffFrom_stuffFrom (Nat.zero_le 1)] at hread
  -- The length byte is among these bytes, so that both frames cover as many.
  have hg_read := (List.prefix_append ..).trans hread
  have hcovered := length_covered_of_head hf hg (hhead.trans (List.prefix_append ..)) hg_read
  have hlen : g.body.length = front.length + 1 + rest.length := by
    rw [length_body, ← hcovered, ← length_body, hbody]
    simp
    omega
  obtain ⟨tail, htail⟩ := List.prefix_of_prefix_length_le (List.prefix_append ..) hg_read
    (by omega : front.length ≤ g.body.length)
  rw [← htail, List.length_append] at hlen
  obtain ⟨c, as, rfl⟩ := List.exists_cons_of_length_pos (by omega : 0 < tail.length)
  have has : as.length = rest.length := by
    rw [List.length_cons] at hlen
    omega
  rw [← htail, stuff, stuff, stuffFrom_append_cons, List.append_assoc,
    List.prefix_append_right_inj, List.cons_append] at h
  obtain ⟨rfl, hbehind⟩ := List.cons_prefix_cons.mp h
  rcases eq_of_changed hle hne has hbehind with rfl | ⟨hb, hearly⟩
  · -- Bodies that differ in one byte have different checksums.
    exact absurd (byte_eq_of_body hcovered hbody htail.symm).symm hne
  · refine ⟨hb, ?_⟩
    rw [wire, ← htail, stuff, stuff, stuffFrom_append_cons, hearly]
    simp only [List.append_assoc, List.cons_append]

/-- If a stuff byte was changed, no encoding stands at the front. -/
theorem not_spelled_front {s : UInt8} (hf : f.id.Valid) (hg : g.id.Valid)
    (hbody : f.body = front ++ marker :: rest) (hone : runAfter 0 front = 1) (hs : s ≠ stuffByte) :
    ¬ g.wire <+: List.replicate headerLength marker ++
      (stuff front ++ marker :: s :: (stuffFrom 0 rest ++ [endByte])) := by
  intro h
  rw [wire, List.append_assoc, List.prefix_append_right_inj] at h
  -- Whatever stands in the place of a stuff byte is taken out, so that the body is the one of `f`.
  have hread := unstuffFrom_mono 0 h
  have hall : unstuffFrom 0 (stuff front ++ marker :: s :: (stuffFrom 0 rest ++ [endByte])) =
      f.body ++ [endByte] := by
    have hrest := unstuffFrom_stuffFrom (Nat.zero_le 1) rest [endByte]
    rw [unstuffFrom_endByte (runAfter_le (Nat.zero_le 1) rest)] at hrest
    rw [stuff, unstuffFrom_stuffFrom (Nat.zero_le 1), hone, hbody]
    simp [unstuffFrom, hrest]
  rw [hall, stuff, unstuffFrom_stuffFrom (Nat.zero_le 1)] at hread
  have hg_read := (List.prefix_append ..).trans hread
  have hhead : f.head <+: f.body ++ [endByte] := by
    rw [body_eq, List.append_assoc]
    exact List.prefix_append ..
  have hcovered := length_covered_of_head hf hg hhead hg_read
  have hlen : g.body.length = f.body.length := by rw [length_body, length_body, hcovered]
  have heq : g.body = f.body :=
    (List.prefix_of_prefix_length_le hg_read (List.prefix_append ..)
      (Nat.le_of_eq hlen)).eq_of_length hlen
  rw [heq, hbody, stuff, stuff, stuffFrom_append_cons, hone, behind_marker_one, List.append_assoc,
    List.prefix_append_right_inj, List.cons_append, List.cons_append] at h
  exact hs (List.cons_prefix_cons.mp (List.cons_prefix_cons.mp h).2).1.symm

end Frame

end SerialLink
