import SerialLink.Proofs.Link.Move
import SerialLink.Proofs.Transport.Room

/-!
# A line seen in one direction

For the messages that go one way only a part of each station matters. Of the writer these are its
queue and the data frames on their way; of the reader, what it expects next, what it handed over,
and the acknowledgements on their way back. This says what the operations of a station do to its two
parts when no sink refuses a frame.

`Station.writer` and `Station.reader` cut the two parts out of a station, and the theorems ending in
`views` describe an operation by what it does to each: `send` is `Writer.join`, a tick at which all
is due is `Writer.sendAll` with at most one `Reader.answer`, a data frame is `Reader.take`, and an
acknowledgement takes frames off the writer's queue. What a turn writes is known from the module
about room (`service_due`, `written_receive_data`); here it is only sorted by direction. A station
must be `Calm` for this: a reset on its way would belong to neither part.

The courses of messages in the next modules are about these parts alone.
-/

namespace SerialLink

namespace Frame

/-- The number that the frame acknowledges, if it is an acknowledgement. `Reader.acks` collects
these. -/
def acked? (f : Frame) : Option UInt8 := if f.id = .ack then some f.seq else none

/-- The frame is one of those that carry a number of the present numbering. A reset is not, and an
application frame is never written by a transport. -/
def Numbered (f : Frame) : Prop := (∃ id, f.id = .data id) ∨ f.id = .ack

theorem numbered_ack (expected : UInt8) : (ack expected).Numbered := .inr rfl

end Frame

/-! ## The two parts of a station -/

/-- What matters of a station for the messages that it sends. Compare `Reader`. -/
@[ext]
structure Writer where
  queue : List Entry
  nextSeq : UInt8
  accepted : List Message
  /-- The data frames on their way. -/
  data : List Frame

namespace Writer

/-- A message is queued, as by `Station.send`. -/
def join (w : Writer) (e : Entry) : Writer :=
  { w with
    queue := w.queue ++ [e]
    nextSeq := w.nextSeq + 1
    accepted := w.accepted ++ [e.message] }

/-- All queued frames are sent, and stay queued until they are acknowledged. -/
def sendAll (w : Writer) (now : UInt32) : Writer :=
  { w with
    queue := w.queue.map (·.markSent now)
    data := w.data ++ w.queue.map Entry.frame }

end Writer

/-- What matters of a station for the messages that it is sent. Compare `Writer`. -/
@[ext]
structure Reader where
  expected : UInt8
  messages : List Message
  /-- The numbers acknowledged in the frames on their way. -/
  acks : List UInt8

namespace Reader

/-- What was read so far is acknowledged, by the number of the message that is `expected` next. -/
def answer (r : Reader) : Reader := { r with acks := r.acks ++ [r.expected] }

/-- A data frame arrives, and is handed over if it is the one `expected`. It is answered in either
case. -/
def take (r : Reader) (f : Frame) : Reader :=
  if f.seq = r.expected then
    answer { r with expected := r.expected + 1, messages := r.messages ++ [f.message] }
  else r.answer

end Reader

namespace Station

/-- The part of a station that concerns the messages it sends. -/
def writer (s : Station) : Writer where
  queue := s.transport.queue
  nextSeq := s.transport.nextSeq
  accepted := s.accepted
  data := (s.outgoing.map Packet.frame).filter Frame.isData

/-- The part of a station that concerns the messages it is sent. Its acknowledgements are among the
frames `outgoing` too. -/
def reader (s : Station) : Reader where
  expected := s.transport.expected
  messages := s.received.map (·.packet.frame.message)
  acks := (s.outgoing.map Packet.frame).filterMap Frame.acked?

/-- No reset is due or on its way; there may have been any number of them before. -/
structure Calm (s : Station) : Prop where
  pending : ¬ s.transport.resetPending
  outgoing : ∀ p ∈ s.outgoing, p.frame.Numbered

variable {σ ε : Type} {s : Station} {p : Packet}

/-! ## Frames written and frames gone -/

/-- Of the marks of a `Packet` nothing is seen here. -/
theorem map_frame_write (s : Station) (f : Frame) :
    (s.write f).outgoing.map Packet.frame = s.outgoing.map Packet.frame ++ [f] := by
  unfold write
  cases f.id <;> simp

theorem map_frame_observe (s : Station) (e : Event ε) :
    (observe s e).outgoing.map Packet.frame =
      s.outgoing.map Packet.frame ++ e.written?.toList := by
  cases e with
  | delivered f => simp [observe, Event.written?]
  | abandoned failure => simp [observe, Event.written?]
  | attempted f result =>
    cases result with
    | ok n => exact s.map_frame_write f
    | error failure =>
      simp only [observe, Event.written?, Option.toList_none, List.append_nil]
      split <;> rfl

/-- What a turn puts on its way are the frames `written` in it. -/
theorem record_outgoing (s : Station) (events : List (Event ε)) (t : Transport) :
    (s.record events t).outgoing.map Packet.frame =
      s.outgoing.map Packet.frame ++ written events := by
  unfold record
  simp only
  -- By induction on the effects, each adding its frame at the end.
  induction events generalizing s with
  | nil => simp
  | cons e events ih =>
    rw [List.foldl_cons, ih, map_frame_observe, List.append_assoc]
    congr 1
    simp only [written, List.filterMap_cons]
    cases e.written? <;> rfl

/-- Recording a turn adds neither messages accepted nor messages received. -/
theorem record_frame (s : Station) (events : List (Event ε)) (t : Transport) :
    (s.record events t).accepted = s.accepted ∧ (s.record events t).received = s.received := by
  unfold record
  simp only
  induction events generalizing s with
  | nil => exact ⟨rfl, rfl⟩
  | cons e events ih =>
    -- Messages are entered by `send` and `receive`, and not by the effects of a turn.
    have hobserve : (observe s e).accepted = s.accepted ∧
        (observe s e).received = s.received := by
      cases e with
      | delivered | abandoned => exact ⟨rfl, rfl⟩
      | attempted f result =>
        cases result with
        | ok n =>
          obtain ⟨-, -, -, -, -, haccepted, hreceived, -⟩ := s.write_frame f
          exact ⟨haccepted, hreceived⟩
        | error failure =>
          simp only [observe]
          split <;> exact ⟨rfl, rfl⟩
    rw [List.foldl_cons]
    exact ⟨(ih _).1.trans hobserve.1, (ih _).2.trans hobserve.2⟩

/-- The writer's part after a turn: the data frames `written` join those on their way. -/
theorem writer_record (s : Station) (events : List (Event ε)) (t : Transport) :
    (s.record events t).writer =
      ⟨t.queue, t.nextSeq, s.accepted, s.writer.data ++ (written events).filter Frame.isData⟩ := by
  obtain ⟨haccepted, -⟩ := s.record_frame events t
  simp only [writer, record_outgoing, haccepted, List.filter_append]
  rfl

/-- The reader's part after a turn: the acknowledgements `written` join those on their way. -/
theorem reader_record (s : Station) (events : List (Event ε)) (t : Transport) :
    (s.record events t).reader =
      ⟨t.expected, s.reader.messages,
        s.reader.acks ++ (written events).filterMap Frame.acked?⟩ := by
  obtain ⟨-, hreceived⟩ := s.record_frame events t
  simp only [reader, record_outgoing, hreceived, List.filterMap_append]
  rfl

/-- A turn that writes no reset and leaves none due ends `Calm`. -/
theorem calm_record {events : List (Event ε)} {t : Transport} (hpending : ¬ t.resetPending)
    (hout : ∀ p ∈ s.outgoing, p.frame.Numbered) (hwritten : ∀ f ∈ written events, f.Numbered) :
    (s.record events t).Calm where
  pending := hpending
  outgoing p hp := by
    have hmem : p.frame ∈ (s.record events t).outgoing.map Packet.frame :=
      List.mem_map_of_mem hp
    rw [record_outgoing, List.mem_append] at hmem
    rcases hmem with hmem | hmem
    · obtain ⟨q, hq, heq⟩ := List.mem_map.mp hmem
      exact heq ▸ hout q hq
    · exact hwritten _ hmem

theorem Calm.tail (h : s.Calm) {rest : List Packet} (hout : s.outgoing = p :: rest) :
    Calm { s with outgoing := rest } where
  pending := h.pending
  outgoing q hq := h.outgoing q (hout ▸ List.mem_cons_of_mem p hq)

/-- With nothing on its way, both parts are without frames. -/
theorem views_nil (hout : s.outgoing = []) : s.writer.data = [] ∧ s.reader.acks = [] := by
  simp [writer, reader, hout]

/-- The oldest frame on its way is a data frame: when it arrives, `Writer.data` loses its first
member, and the reader's part stays. -/
theorem views_data {rest : List Packet} (hout : s.outgoing = p :: rest) {id : UInt8}
    (hid : p.frame.id = .data id) :
    (s.writer = { writer { s with outgoing := rest } with
        data := p.frame :: (writer { s with outgoing := rest }).data }) ∧
      reader { s with outgoing := rest } = s.reader := by
  simp [writer, reader, hout, Frame.isData, Frame.acked?, hid]

/-- The oldest frame on its way is an acknowledgement: when it arrives, `Reader.acks` loses its
first member, and the writer's part stays. -/
theorem views_ack {rest : List Packet} (hout : s.outgoing = p :: rest)
    (hid : p.frame.id = .ack) :
    writer { s with outgoing := rest } = s.writer ∧
      s.reader = { reader { s with outgoing := rest } with
        acks := p.frame.seq :: (reader { s with outgoing := rest }).acks } := by
  simp [writer, reader, hout, Frame.isData, Frame.acked?, hid]

/-! ## Messages -/

variable [ByteSink σ ε]

/-- A message is queued as it is, which is `Writer.join`, or refused. -/
theorem send_views (s : Station) (m : Message) :
    (s.send m = s ∨ ∃ e : Entry, e.seq = s.transport.nextSeq ∧ ¬ e.isSent ∧
        (s.send m).writer = s.writer.join e) ∧
      (s.send m).reader = s.reader ∧ (s.Calm → (s.send m).Calm) := by
  unfold send
  cases hsend : s.transport.enqueue m.id m.bytes with
  | error failure => exact ⟨.inl rfl, rfl, id⟩
  | ok queued =>
    obtain ⟨seq, t⟩ := queued
    obtain ⟨e, rfl, -, -, hseq, hnew, -, hu⟩ := Transport.enqueue_effect hsend
    refine ⟨.inr ⟨e, hseq, by simp [Entry.isSent, hnew], ?_⟩, ?_, fun h => ⟨?_, h.outgoing⟩⟩
    · simp only [writer, Writer.join, hu.queue, hu.nextSeq]
    · simp only [reader, hu.expected]
    · have hpending := h.pending
      rwa [← hu.resetPending] at hpending

/-! ## Ticks -/

/-- A tick at which all queued frames are due sends them all, which is `Writer.sendAll`, and perhaps
repeats the last acknowledgement, which is `Reader.answer`. -/
theorem service_views (h : s.Calm) {now : UInt32} {sink : σ}
    (hdue : ∀ e ∈ s.transport.queue, e.Due s.transport.policy now)
    (hsent : Unrefused (s.transport.service now sink).events) :
    (s.service now sink).writer = s.writer.sendAll now ∧
      ((s.service now sink).reader = s.reader ∨ (s.service now sink).reader = s.reader.answer) ∧
      (s.service now sink).Calm := by
  obtain ⟨⟨acks, hacks, hwritten⟩, hu⟩ := Transport.service_due h.pending hdue hsent
  -- Of what is written the queue is all data frames, and none of it acknowledges anything.
  have hdata : (s.transport.queue.map Entry.frame).filter Frame.isData =
      s.transport.queue.map Entry.frame := by
    rw [List.filter_eq_self]
    intro f hf
    obtain ⟨e, -, rfl⟩ := List.mem_map.mp hf
    rfl
  have hnone : (s.transport.queue.map Entry.frame).filterMap Frame.acked? = [] := by
    rw [List.filterMap_eq_nil_iff]
    intro f hf
    obtain ⟨e, -, rfl⟩ := List.mem_map.mp hf
    rfl
  unfold service
  simp only
  refine ⟨?_, ?_, calm_record (hu.resetPending ▸ h.pending) h.outgoing ?_⟩
  · rw [writer_record, hu.queue, hu.nextSeq, hwritten, List.filter_append, hdata]
    rcases hacks with rfl | rfl <;> simp [Writer.sendAll, writer, Frame.isData, Frame.ack]
  · rw [reader_record, hu.expected, hwritten, List.filterMap_append, hnone, List.nil_append]
    rcases hacks with rfl | rfl
    · exact .inl (by simp [reader])
    · exact .inr (by simp [reader, Reader.answer, Frame.acked?, Frame.ack])
  · intro f hf
    rw [hwritten, List.mem_append] at hf
    rcases hf with hf | hf
    · obtain ⟨e, -, rfl⟩ := List.mem_map.mp hf
      exact .inl ⟨e.id, rfl⟩
    · rcases hacks with rfl | rfl
      · simp at hf
      · rw [List.mem_singleton.mp hf]
        exact Frame.numbered_ack _

/-! ## Frames that arrive -/

/-- A data frame concerns the station as a reader only: it is `Reader.take`. -/
theorem receive_data_views (s : Station) {id : UInt8} (hid : p.frame.id = .data id) {now : UInt32}
    {sink : σ} (hsent : Unrefused (s.transport.receive now p.frame sink).events) :
    (s.receive now p sink).writer = s.writer ∧
      (s.receive now p sink).reader = s.reader.take p.frame ∧
      (s.Calm → (s.receive now p sink).Calm) := by
  have hwritten := Transport.written_receive_data hid hsent
  obtain ⟨hevents, hu⟩ := s.transport.receive_data now hid sink
  -- One frame is handed over at most, and it is the packet that arrived.
  have hhanded : s.handedOver p (s.transport.receive now p.frame sink).events =
      if p.frame.seq = s.transport.expected then [⟨p, s.epoch, s.heard⟩] else [] := by
    rw [hevents]
    split <;> rfl
  unfold receive
  simp only
  rw [hhanded]
  refine ⟨?_, ?_, fun h => ?_⟩
  · rw [writer_record, hu.queue, hu.nextSeq, hwritten]
    simp [writer, Transport.answer, Frame.isData, Frame.ack]
  · rw [reader_record, hu.expected, hwritten]
    unfold Reader.take Transport.answer
    by_cases hseq : p.frame.seq = s.transport.expected
    · have hseq' : p.frame.seq = s.reader.expected := hseq
      rw [if_pos hseq, if_pos hseq, if_pos hseq']
      simp [reader, Reader.answer, Frame.acked?, Frame.ack]
    · have hseq' : ¬ p.frame.seq = s.reader.expected := hseq
      rw [if_neg hseq, if_neg hseq, if_neg hseq']
      simp [reader, Reader.answer, Frame.acked?, Frame.ack]
  · refine calm_record (hu.resetPending ▸ h.pending) (by exact h.outgoing) ?_
    rw [hwritten]
    intro f hf
    rw [List.mem_singleton.mp hf]
    exact Frame.numbered_ack _

/-- An acknowledgement concerns the station as a writer only. How much `Transport.onAck` takes off
the queue is left open here. -/
theorem receive_ack_views (s : Station) (hid : p.frame.id = .ack) (now : UInt32) (sink : σ) :
    (s.receive now p sink).writer =
        { s.writer with queue := (s.transport.onAck p.frame.seq).queue } ∧
      (s.receive now p sink).reader = s.reader ∧ (s.Calm → (s.receive now p sink).Calm) := by
  have hreceive : s.transport.receive now p.frame sink =
      { transport := s.transport.onAck p.frame.seq, sink, events := [] } := by
    simp [Transport.receive, hid]
  -- Whether it makes sense or not, it leaves what the reader knows and what is sent next.
  have hframe : (s.transport.onAck p.frame.seq).nextSeq = s.transport.nextSeq ∧
      (s.transport.onAck p.frame.seq).expected = s.transport.expected ∧
      (s.transport.onAck p.frame.seq).resetPending = s.transport.resetPending := by
    simp only [Transport.onAck]
    split <;> exact ⟨rfl, rfl, rfl⟩
  obtain ⟨hnext, hexpected, hpending⟩ := hframe
  unfold receive
  rw [hreceive]
  refine ⟨?_, ?_, fun h => ?_⟩
  · simp only [writer_record, hnext]
    simp [writer]
  · simp only [reader_record, hexpected]
    simp [reader, handedOver]
  · refine calm_record (hpending ▸ h.pending) (by exact h.outgoing) ?_
    intro f hf
    simp at hf

end Station

end SerialLink
