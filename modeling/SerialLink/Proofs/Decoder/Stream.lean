import SerialLink.Decoder.Basic

/-!
# Taking bytes in pieces

However a stream is cut into the pieces that a decoder is given, one byte or many at a time, the
same frames come out and the decoder ends in the same state.

`pushAll` is the reference, since it lists all that the bytes brought about. `feed` keeps the frames
of it (`feed_eq_pushAll`), and both of them split at any cut (`pushAll_append`, `feed_append`), by
induction on the bytes before the cut. The projections `Progress.frame?` and `Progress.discard?`
read the list; theorems about a decoder on many bytes are stated with them and with `feed`.
-/

namespace SerialLink

/-! ## What the bytes brought about -/

namespace Progress

/-- The frame that was completed, if the byte completed one. -/
def frame? : Progress → Option Frame
  | .frame f => some f
  | _ => none

theorem frame?_eq_some {p : Progress} {f : Frame} : p.frame? = some f ↔ p = .frame f := by
  cases p <;> simp [frame?]

theorem frame?_eq_none {p : Progress} (h : ∀ f, p ≠ .frame f) : p.frame? = none :=
  Option.eq_none_iff_forall_ne_some.mpr fun f hf => h f (frame?_eq_some.mp hf)

/-- The `Discard` for which a frame was given up, if the byte ended one that is not valid. -/
def discard? : Progress → Option Discard
  | .discarded reason => some reason
  | _ => none

end Progress

/-! ## Pieces of a stream -/

/-- What a decoder is given in one call. -/
inductive Chunk where
  | single (b : UInt8)
  | many (bytes : List UInt8)

/-- The bytes of a `Chunk`. -/
def Chunk.toList : Chunk → List UInt8
  | .single b => [b]
  | .many bytes => bytes

namespace Decoder

/-- Takes a piece with `push` or `feed`, and lists the frames that it completes. -/
def takeChunk (d : Decoder) : Chunk → Decoder × List Frame
  | .single b => ((d.push b).1, (d.push b).2.frame?.toList)
  | .many bytes => d.feed bytes

/-- Takes pieces in order, and lists the frames that they complete. -/
def takeChunks (d : Decoder) : List Chunk → Decoder × List Frame
  | [] => (d, [])
  | c :: rest =>
    let first := d.takeChunk c
    let others := first.1.takeChunks rest
    (others.1, first.2 ++ others.2)

/-! ## Lemmas -/

theorem pushAll_append (d : Decoder) (xs ys : List UInt8) :
    d.pushAll (xs ++ ys) =
      (((d.pushAll xs).1.pushAll ys).1, (d.pushAll xs).2 ++ ((d.pushAll xs).1.pushAll ys).2) := by
  induction xs generalizing d with
  | nil => rfl
  | cons b rest ih => simp [pushAll, ih]

/-- `feed` is `pushAll` with only the frames listed. -/
theorem feed_eq_pushAll (d : Decoder) (bytes : List UInt8) :
    d.feed bytes = ((d.pushAll bytes).1, (d.pushAll bytes).2.filterMap Progress.frame?) := by
  induction bytes generalizing d with
  | nil => rfl
  | cons b rest ih =>
    unfold feed pushAll
    rcases hpush : d.push b with ⟨d', _ | f | reason⟩ <;>
      simp [ih, Progress.frame?, List.filterMap_cons]

theorem feed_cons (d : Decoder) (b : UInt8) (rest : List UInt8) :
    d.feed (b :: rest) = (((d.push b).1.feed rest).1,
      (d.push b).2.frame?.toList ++ ((d.push b).1.feed rest).2) := by
  rw [feed]
  rcases d.push b with ⟨d', _ | f | reason⟩ <;> rfl

theorem feed_append (d : Decoder) (xs ys : List UInt8) :
    d.feed (xs ++ ys) =
      (((d.feed xs).1.feed ys).1, (d.feed xs).2 ++ ((d.feed xs).1.feed ys).2) := by
  simp [feed_eq_pushAll, pushAll_append]

theorem takeChunk_eq_feed (d : Decoder) (c : Chunk) : d.takeChunk c = d.feed c.toList := by
  cases c with
  | many bytes => rfl
  | single b =>
    rw [feed_eq_pushAll]
    cases h : (d.push b).2.frame? <;> simp [takeChunk, Chunk.toList, pushAll, h]

/-- **How a stream is cut makes no difference**: any `Chunk`s give what `feed` gives for their
bytes. -/
theorem takeChunks_eq_feed (d : Decoder) (chunks : List Chunk) :
    d.takeChunks chunks = d.feed (chunks.flatMap Chunk.toList) := by
  induction chunks generalizing d with
  | nil => rfl
  | cons c rest ih => simp [takeChunks, takeChunk_eq_feed, feed_append, ih]

/-! ## The run of marker bytes -/

/-- `count` concerns the counters alone. -/
@[simp] theorem count_phase (d : Decoder) (p : Progress) : (d.count p).phase = d.phase := by
  cases p <;> rfl

@[simp] theorem count_run (d : Decoder) (p : Progress) : (d.count p).run = d.run := by
  cases p <;> rfl

/-- No run of marker bytes is open behind a byte that is no `marker`. -/
theorem run_push_eq_zero {b : UInt8} (d : Decoder) (hb : b ≠ marker) : (d.push b).1.run = 0 := by
  rw [push, count_run]
  -- Behind two markers the byte ends the run, whether it is a stuff byte or not.
  have htake : ∀ d : Decoder, (d.take b).1.run = 0 := by
    intro d
    simp [take, hb]
  unfold step
  split
  · unfold takeAfterMarkers
    rw [if_neg hb]
    split
    · rfl
    · split
      · rfl
      · exact htake _
  · exact htake d

theorem run_pushAll_eq_zero {b : UInt8} (d : Decoder) (bytes : List UInt8) (hb : b ≠ marker) :
    (d.pushAll (bytes ++ [b])).1.run = 0 := by
  rw [pushAll_append]
  exact run_push_eq_zero _ hb

end Decoder

end SerialLink
