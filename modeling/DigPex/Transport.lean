import DigPex.Library.Stuttering
import DigPex.Pair
import DigPex.Stream

/-!
# One direction of a connection as a stream of bytes

What the sender's engine returns is framed and written to a stream, whose
bytes arrive in pieces of any size.  The receiver reads a frame when all of it
is there and feeds the engine with what it decodes.  However the bytes are cut
into pieces, this is the connection that carries whole messages.
-/

namespace DigPex

/-- A message that survives its frame: its numbers fit the wire types, its
body is parsed as it was rendered, and is within the bound. -/
structure PexMessage.Sendable (parse : List UInt8 → Option Json)
    (message : PexMessage) : Prop where
  inRange : message.InRange
  parsed : parse message.toJsonBytes = some message.toJson
  bounded : message.toJsonBytes.length ≤ pexMaxFrame

/-- The frames of messages in a row. -/
def frames (messages : List PexMessage) : List UInt8 :=
  messages.flatMap PexMessage.encode

/-- A sender, a receiver, the bytes on their way and the bytes that have
arrived and are still to be read. -/
structure StreamPair where
  sender : PexEngine
  receiver : PexEngine
  pipe : List UInt8
  buffer : List UInt8

/-- A call of either side, the arrival of some bytes, or an attempt of the
receiver to read a frame. -/
inductive StreamEvent where
  | sender (call : Call)
  | receiver (call : Call)
  | arrive (count : Nat)
  | poll (nowMs : Nat)

namespace StreamReader

variable {Value Result : Type}

theorem read_bind_of_error {reader : StreamReader Value}
    {stream rest : List UInt8} {error : DecodeError}
    (failed : reader.read stream = (rest, .error error))
    (next : Value → StreamReader Result) :
    (reader >>= next).read stream = (rest, .error error) := by
  have run := congrArg Prod.swap failed
  simp only [read, Prod.swap_swap, Prod.swap_prod_mk] at run
  simp only [read, ExceptT.run_bind, StateT.run_bind, run]
  rfl

end StreamReader

theorem readExact_short {count : Nat} {stream : List UInt8}
    (short : stream.length < count) :
    (readExact count).read stream = ([], .error .unexpectedEof) := by
  rw [readExact, StreamReader.read_bind_of_ok (StreamReader.read_get _),
    if_neg (Nat.not_le.mpr short),
    StreamReader.read_bind_of_ok (StreamReader.read_set _ _),
    StreamReader.read_throw]

namespace PexMessage

variable {parse : List UInt8 → Option Json} {message : PexMessage}

theorem Sendable.decode_encode (sendable : message.Sendable parse)
    (rest : List UInt8) :
    (decode parse).read (message.encode ++ rest) = (rest, .ok message) :=
  reader_framed _ _ (framed_encode sendable.inRange sendable.parsed
    sendable.bounded) rest

/-- What is left of a stream when a part of its last frame is missing. -/
def Cut (tail : List UInt8) : Prop :=
  tail.length < 4 ∨
    ∃ length body, length ≤ pexMaxFrame ∧
      tail = lengthPrefix length ++ body ∧ body.length < length

theorem decode_cut {tail : List UInt8} (cut : Cut tail) :
    (decode parse).read tail = ([], .error .unexpectedEof) := by
  rw [decode]
  rcases cut with short | ⟨length, body, bounded, rfl, missing⟩
  · exact StreamReader.read_bind_of_error (readExact_short short) _
  · have small : pexMaxFrame < 2 ^ 32 := by decide
    have fits := Nat.lt_of_le_of_lt bounded small
    rw [StreamReader.read_bind_of_ok (readExact_lengthPrefix _ body)]
    simp only [fromBigEndian_lengthPrefix fits,
      if_neg (Nat.not_lt.mpr bounded)]
    exact StreamReader.read_bind_of_error (readExact_short missing) _

theorem Sendable.decode_part (sendable : message.Sendable parse)
    {part : List UInt8} (start : part <+: message.encode)
    (missing : part.length < message.encode.length) :
    (decode parse).read part = ([], .error .unexpectedEof) := by
  apply decode_cut
  by_cases short : part.length < 4
  · exact .inl short
  · have header : (lengthPrefix message.toJsonBytes.length).length ≤
        part.length := by
      rw [length_lengthPrefix]
      omega
    obtain ⟨body, rfl⟩ := List.prefix_of_prefix_length_le
      (List.prefix_append _ message.toJsonBytes) start header
    rw [length_encode, List.length_append, length_lengthPrefix] at missing
    exact .inr ⟨_, body, sendable.bounded, rfl, by omega⟩

/-- A stream that is cut anywhere yields exactly the whole messages.  Of the
frames of any messages in a row, cut after any number of bytes, repeated
decoding answers every message whose frame is complete, in order, then that
the stream ended too early, and leaves nothing. -/
theorem cut_stream (parse : List UInt8 → Option Json)
    (messages : List PexMessage)
    (sendable : ∀ message ∈ messages, message.Sendable parse)
    (count : Nat) :
    let arrived := (frames messages).take count
    ∃ whole ≤ messages.length,
      (frames (messages.take whole)).length ≤ arrived.length ∧
      (whole < messages.length →
        arrived.length < (frames (messages.take (whole + 1))).length) ∧
      (reader parse).outputs arrived (List.replicate (whole + 1) ()) =
        (messages.take whole).map .ok ++ [.error .unexpectedEof] ∧
      (reader parse).final arrived (List.replicate (whole + 1) ()) = [] := by
  intro arrived
  induction messages generalizing count with
  | nil =>
      have ended : (decode parse).read [] = ([], .error .unexpectedEof) :=
        StreamReader.read_bind_of_error (readExact_short (by decide)) _
      exact ⟨0, le_rfl, by simp [frames], by simp,
        by simp [arrived, frames, reader, ended],
        by simp [arrived, frames, reader, ended]⟩
  | cons message messages induction =>
      have first := sendable message List.mem_cons_self
      have split : frames (message :: messages) =
          message.encode ++ frames messages := List.flatMap_cons
      by_cases part : count < message.encode.length
      · have front : arrived = message.encode.take count := by
          simp only [arrived, split]
          exact List.take_append_of_le_length part.le
        have short : arrived.length < message.encode.length := by
          rw [front, List.length_take]
          omega
        have ended := first.decode_part (front ▸ List.take_prefix _ _) short
        refine ⟨0, Nat.zero_le _, by simp [frames], fun _ => ?_, ?_, ?_⟩
        · simpa [frames] using short
        · simp [reader, ended]
        · simp [reader, ended]
      · obtain ⟨whole, within, complete, next, answers, rest⟩ :=
          induction (fun later member => sendable later
            (List.mem_cons_of_mem _ member)) (count - message.encode.length)
        have front : arrived = message.encode ++
            (frames messages).take (count - message.encode.length) := by
          simp only [arrived, split]
          rw [List.take_append, List.take_of_length_le (by omega)]
        have read := fun later => first.decode_encode later
        refine ⟨whole + 1, by simpa using within, ?_, ?_, ?_, ?_⟩
        · simpa [front, frames] using complete
        · intro more
          simpa [front, frames] using next (by simpa using more)
        · rw [List.replicate_succ, Machine.outputs_cons, front]
          simp only [reader, read, List.take_succ_cons, List.map_cons,
            List.cons_append]
          exact congrArg _ answers
        · rw [List.replicate_succ, Machine.final_cons, front]
          simp only [reader, read]
          exact rest

end PexMessage

/-! ## The stream refines the queue of messages -/

variable [DefaultHasher]

/-- One event of a connection over a byte stream.  A frame the receiver cannot
read yet stays in the buffer; a frame that cannot be decoded is recorded as a
violation. -/
def streamStep (parse : List UInt8 → Option Json)
    (senderId receiverId : String) :
    Machine StreamPair StreamEvent (Option PexOutcome) :=
  fun pair event =>
    match event with
    | .sender call =>
        let stepped := engineStep pair.sender call
        ({ pair with
            sender := stepped.1
            pipe := pair.pipe ++
              frames (messagesFor receiverId (call, stepped.2)) }, none)
    | .receiver call =>
        ({ pair with receiver := (engineStep pair.receiver call).1 }, none)
    | .arrive count =>
        ({ pair with
            pipe := pair.pipe.drop count
            buffer := pair.buffer ++ pair.pipe.take count }, none)
    | .poll nowMs =>
        let fed (rest : List UInt8) (answered : PexEngine × PexOutcome) :=
          ({ pair with
              receiver := answered.1
              buffer := rest }, some answered.2)
        match (PexMessage.decode parse).read pair.buffer with
        | (_, .error .unexpectedEof) => (pair, none)
        | (rest, .error .frameTooLarge) =>
            fed rest (pair.receiver.recordViolation senderId .oversized nowMs)
        | (rest, .error .invalidBody) =>
            fed rest (pair.receiver.recordViolation senderId .badMessage nowMs)
        | (rest, .ok message) =>
            fed rest (pair.receiver.onMessage senderId message nowMs)

omit [DefaultHasher] in
/-- What an event over the stream is over the queue of messages: the arrival
of bytes and a frame that cannot be read yet are nothing. -/
def shownOver : StreamEvent × Option PexOutcome →
    List (PairEvent × Option PexOutcome)
  | (.sender call, _) => [(.sender call, none)]
  | (.receiver call, _) => [(.receiver call, none)]
  | (.poll nowMs, some outcome) => [(.deliver nowMs, some outcome)]
  | _ => []

/-- Everything the sender returns for the receiver survives its frame. -/
def SendsFramed (parse : List UInt8 → Option Json) (receiverId : String)
    (pair : StreamPair) : StreamEvent → Prop
  | .sender call => ∀ message ∈ messagesFor receiverId
      (call, (engineStep pair.sender call).2), message.Sendable parse
  | _ => True

omit [DefaultHasher] in
/-- The bytes on their way and in the buffer are the frames of the messages in
flight. -/
structure CarriedBy (parse : List UInt8 → Option Json)
    (stream : StreamPair) (pair : Pair) : Prop where
  sender : stream.sender = pair.sender
  receiver : stream.receiver = pair.receiver
  bytes : stream.buffer ++ stream.pipe =
    frames (pair.inFlight.map Prod.fst)
  sendable : ∀ message ∈ pair.inFlight.map Prod.fst,
    message.Sendable parse

section Step

variable {parse : List UInt8 → Option Json} {senderId receiverId : String}
  {stream : StreamPair} {pair : Pair}

omit [DefaultHasher] in
theorem CarriedBy.decode_buffer (carried : CarriedBy parse stream pair) :
    ((PexMessage.decode parse).read stream.buffer =
        ([], .error .unexpectedEof) ∧
      ∀ oldest ∈ pair.inFlight.head?,
        stream.buffer.length < oldest.1.encode.length) ∨
      ∃ message sent rest buffer,
        pair.inFlight = (message, sent) :: rest ∧
        (PexMessage.decode parse).read stream.buffer = (buffer, .ok message) ∧
        buffer ++ stream.pipe = frames (rest.map Prod.fst) := by
  have bytes := carried.bytes
  cases queue : pair.inFlight with
  | nil =>
      rw [queue] at bytes
      refine .inl ⟨?_, by simp⟩
      rw [(List.append_eq_nil_iff.mp bytes).1, PexMessage.decode]
      exact StreamReader.read_bind_of_error (readExact_short (by decide)) _
  | cons oldest rest =>
      obtain ⟨message, sent⟩ := oldest
      have sendable := carried.sendable message (by simp [queue])
      simp only [queue, List.map_cons, frames, List.flatMap_cons] at bytes
      have front : stream.buffer <+:
          message.encode ++ frames (rest.map Prod.fst) :=
        bytes ▸ List.prefix_append _ _
      by_cases missing : stream.buffer.length < message.encode.length
      · refine .inl ⟨sendable.decode_part ?_ missing, by simpa using missing⟩
        exact List.prefix_of_prefix_length_le front
          (List.prefix_append _ _) missing.le
      · right
        obtain ⟨buffer, split⟩ := List.prefix_of_prefix_length_le
          (List.prefix_append _ _) front (Nat.le_of_not_lt missing)
        refine ⟨message, sent, rest, buffer, rfl, ?_, ?_⟩
        · rw [← split]
          exact sendable.decode_encode buffer
        · rw [← split, List.append_assoc] at bytes
          exact List.append_cancel_left bytes

/-- Each event over the stream is what it shows over the queue. -/
theorem CarriedBy.step {event : StreamEvent}
    (carried : CarriedBy parse stream pair)
    (framed : SendsFramed parse receiverId stream event) :
    let stepped := streamStep parse senderId receiverId stream event
    let events := shownOver (event, stepped.2)
    CarriedBy parse stepped.1
        ((pairStep senderId receiverId).final pair (events.map Prod.fst)) ∧
      (pairStep senderId receiverId).trace pair (events.map Prod.fst) =
        events := by
  cases event with
  | sender call =>
      refine ⟨⟨?_, carried.receiver, ?_, ?_⟩, rfl⟩
      · simp [streamStep, shownOver, pairStep, carried.sender]
      · simp [streamStep, shownOver, pairStep, frames, carried.sender,
          ← List.append_assoc, carried.bytes, Function.comp_def]
      · intro message member
        simp only [shownOver, List.map_cons, List.map_nil,
          Machine.final_cons, Machine.final_nil, pairStep, List.map_append,
          List.map_map, List.mem_append] at member
        rcases member with old | new
        · exact carried.sendable message old
        · apply framed
          rw [carried.sender]
          simpa using new
  | receiver call =>
      refine ⟨⟨carried.sender, ?_, carried.bytes, carried.sendable⟩, rfl⟩
      simp [streamStep, shownOver, pairStep, carried.receiver]
  | arrive count =>
      refine ⟨⟨carried.sender, carried.receiver, ?_, carried.sendable⟩, rfl⟩
      simp only [streamStep, List.append_assoc, List.take_append_drop]
      exact carried.bytes
  | poll nowMs =>
      rcases carried.decode_buffer with ⟨waits, -⟩ | ⟨message, sent, rest, buffer,
        queue, decoded, bytes⟩
      · simp only [streamStep, waits]
        exact ⟨carried, rfl⟩
      · simp only [streamStep, decoded, shownOver, List.map_cons,
          List.map_nil, Machine.final_cons, Machine.final_nil,
          Machine.trace_cons, Machine.trace_nil, pairStep, queue,
          carried.receiver]
        refine ⟨⟨carried.sender, rfl, bytes, ?_⟩, trivial⟩
        intro later member
        exact carried.sendable later (by simp [queue, member])

end Step

/-- Fragmentation is invisible.  However a connection's bytes are cut into
pieces and whenever the receiver tries to read, over every run in which all
the sender returns survives its frame, the two engines go through a run of the
connection that carries whole messages, with the same answers; what is left
of the bytes are the frames of the messages in flight; and the receiver waits
only while a part of the oldest frame is missing. -/
theorem bytes_refine_messages (parse : List UInt8 → Option Json)
    (senderId receiverId : String) (sender receiver : PexEngine)
    (events : List StreamEvent) :
    let stream : StreamPair :=
      { sender := sender
        receiver := receiver
        pipe := []
        buffer := [] }
    let pair : Pair :=
      { sender := sender
        receiver := receiver
        inFlight := [] }
    let low := streamStep parse senderId receiverId
    let high := pairStep senderId receiverId
    let visible := (low.trace stream events).flatMap shownOver
    let reached := low.final stream events
    let spec := high.final pair (visible.map Prod.fst)
    low.Along (SendsFramed parse receiverId) stream events →
      high.trace pair (visible.map Prod.fst) = visible ∧
      (spec.sender = reached.sender ∧ spec.receiver = reached.receiver) ∧
      frames (spec.inFlight.map Prod.fst) = reached.buffer ++ reached.pipe ∧
      ∀ message sent rest nowMs, spec.inFlight = (message, sent) :: rest →
        message.encode.length ≤ reached.buffer.length →
          (low reached (.poll nowMs)).2 =
            some (reached.receiver.onMessage senderId message nowMs).2 := by
  intro stream pair low high visible reached spec framed
  have start : CarriedBy parse stream pair :=
    ⟨rfl, rfl, rfl, fun message member => by cases member⟩
  obtain ⟨carried, trace⟩ := Machine.stuttering
    (fun state spec event carried framed =>
      @CarriedBy.step _ parse senderId receiverId state spec event carried
        framed) start framed
  refine ⟨trace, ⟨carried.sender.symm, carried.receiver.symm⟩,
    carried.bytes.symm, ?_⟩
  intro message sent rest nowMs queue whole
  rcases carried.decode_buffer with ⟨-, missing⟩ | ⟨oldest, time, others,
    buffer, same, decoded, -⟩
  · exact absurd (missing (message, sent) (List.head?_eq_some_iff.mpr
      ⟨rest, queue⟩)) (Nat.not_lt.mpr whole)
  · obtain ⟨rfl, -⟩ := Prod.mk.inj
      (List.cons.inj (queue.symm.trans same)).1
    simp only [low, streamStep]
    rw [show (PexMessage.decode parse).read reached.buffer =
      (buffer, .ok message) from decoded]

section Examples

/-- The two messages a link without entries is opened with. -/
def exampleOpening : List PexMessage :=
  [.pexHandshake 1 "network" 60 [], .pexSnapshot []]

/-- A parser that knows their bodies. -/
def exampleParse (body : List UInt8) : Option Json :=
  (exampleOpening.find? fun message =>
    message.toJsonBytes = body).map PexMessage.toJson

omit [DefaultHasher] in
theorem exampleOpening_sendable :
    ∀ message ∈ exampleOpening, message.Sendable exampleParse := by
  have handshake : exampleParse
      (PexMessage.pexHandshake 1 "network" 60 []).toJsonBytes =
        some (PexMessage.pexHandshake 1 "network" 60 []).toJson := rfl
  have snapshot : exampleParse (PexMessage.pexSnapshot []).toJsonBytes =
      some (PexMessage.pexSnapshot []).toJson := by
    have other : (PexMessage.pexHandshake 1 "network" 60 []).toJsonBytes ≠
        (PexMessage.pexSnapshot []).toJsonBytes := by decide +kernel
    simp [exampleParse, exampleOpening, other]
  intro message member
  rcases List.mem_cons.mp member with rfl | member
  · exact ⟨by simp [PexMessage.InRange], handshake, by decide +kernel⟩
  · rw [List.mem_singleton.mp member]
    exact ⟨by simp [PexMessage.InRange], snapshot, by decide +kernel⟩

omit [DefaultHasher] in
/-- An opening cut in the body of the snapshot. -/
theorem cut_stream_opening :
    ∃ whole ≤ 2, ∃ arrived,
      arrived = (frames exampleOpening).take 110 ∧
      (PexMessage.reader exampleParse).outputs arrived
          (List.replicate (whole + 1) ()) =
        (exampleOpening.take whole).map .ok ++ [.error .unexpectedEof] := by
  obtain ⟨whole, within, _, _, answers, _⟩ := PexMessage.cut_stream
    exampleParse exampleOpening exampleOpening_sendable 110
  exact ⟨whole, within, _, rfl, answers⟩

omit [DefaultHasher] in
/-- An opening that arrives in three pieces: the receiver waits twice. -/
theorem bytes_refine_messages_opening :
    let sender := PexEngine.new (exampleConfig (exampleId 'a'))
    let receiver := PexEngine.new (exampleConfig (exampleId 'b'))
    let events : List StreamEvent := [
      .sender (.linkUp (exampleId 'b') 1000000 .ascending .zero),
      .arrive 3, .poll 1000010, .arrive 100, .poll 1000020, .poll 1000030,
      .arrive 1000, .poll 1000040]
    let low := @streamStep sipHasher exampleParse (exampleId 'a')
      (exampleId 'b')
    let visible := (low.trace
      { sender := sender
        receiver := receiver
        pipe := []
        buffer := [] } events).flatMap shownOver
    (@pairStep sipHasher (exampleId 'a') (exampleId 'b')).trace
      { sender := sender
        receiver := receiver
        inFlight := [] } (visible.map Prod.fst) = visible ∧
      visible.map Prod.snd = [none, some {}, some {}] := by
  intro sender receiver events low visible
  have framed : low.Along
      (@SendsFramed sipHasher exampleParse (exampleId 'b'))
      { sender := sender
        receiver := receiver
        pipe := []
        buffer := [] } events := by
    refine ⟨?_, trivial, trivial, trivial, trivial, trivial, trivial,
      trivial, trivial⟩
    intro message member
    refine exampleOpening_sendable message ?_
    have opening : messagesFor (exampleId 'b')
        (.linkUp (exampleId 'b') 1000000 .ascending .zero,
          (@engineStep sipHasher sender
            (.linkUp (exampleId 'b') 1000000 .ascending .zero)).2) =
          exampleOpening := by decide +kernel
    rwa [← opening]
  exact ⟨(@bytes_refine_messages sipHasher exampleParse (exampleId 'a')
    (exampleId 'b') sender receiver events framed).1, by decide +kernel⟩

end Examples

end DigPex
