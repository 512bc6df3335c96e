import DigPex.Concrete
import DigPex.Evolution
import DigPex.Library.Machine

/-!
# Reading frames off a byte stream

The reader of the byte-stream binding takes a length prefix and a body and
never more, whatever it makes of them.  So each frame, good or bad, is one
piece of the stream, and the next one is read from its first byte.
-/

namespace DigPex

/-- Why reading a frame fails. -/
inductive DecodeError where
  | unexpectedEof
  | frameTooLarge
  | invalidBody
  deriving DecidableEq, Repr

/-- A computation that takes bytes off a stream and may fail.  What it took
before failing is gone. -/
abbrev StreamReader (Value : Type) : Type :=
  ExceptT DecodeError (StateM (List UInt8)) Value

namespace StreamReader

variable {Value Result : Type}

/-- What a reader leaves of a stream and what it answers. -/
def read (reader : StreamReader Value) (stream : List UInt8) :
    List UInt8 × Except DecodeError Value :=
  (reader.run.run stream).swap

theorem read_bind_of_ok {reader : StreamReader Value}
    {stream rest : List UInt8} {value : Value}
    (answered : reader.read stream = (rest, .ok value))
    (next : Value → StreamReader Result) :
    (reader >>= next).read stream = (next value).read rest := by
  have run := congrArg Prod.swap answered
  simp only [read, Prod.swap_swap, Prod.swap_prod_mk] at run
  simp only [read, ExceptT.run_bind, StateT.run_bind, run]
  rfl

@[simp] theorem read_pure (value : Value) (stream : List UInt8) :
    (pure value : StreamReader Value).read stream = (stream, .ok value) :=
  rfl

theorem read_get (stream : List UInt8) :
    (get : StreamReader (List UInt8)).read stream = (stream, .ok stream) :=
  rfl

theorem read_set (stream rest : List UInt8) :
    (set rest : StreamReader PUnit).read stream = (rest, .ok ⟨⟩) :=
  rfl

@[simp] theorem read_throw (error : DecodeError) (stream : List UInt8) :
    (throw error : StreamReader Value).read stream =
      (stream, .error error) :=
  rfl

end StreamReader

/-- Exactly a number of bytes; a shorter stream is read to its end. -/
def readExact (count : Nat) : StreamReader (List UInt8) := do
  let stream ← get
  if count ≤ stream.length then
    set (stream.drop count)
    return stream.take count
  else
    set ([] : List UInt8)
    throw .unexpectedEof

/-- The number some big-endian bytes stand for. -/
def fromBigEndian (bytes : List UInt8) : Nat :=
  bytes.foldl (fun value byte => value * 256 + byte.toNat) 0

namespace PexMessage

/-- Read and decode one framed message.  A prefix over the bound fails before
the body is read. -/
def decode (parse : List UInt8 → Option Json) : StreamReader PexMessage := do
  let lengthBytes ← readExact 4
  let length := fromBigEndian lengthBytes
  if pexMaxFrame < length then
    throw .frameTooLarge
  let body ← readExact length
  match (parse body).bind ofJson with
  | some message => return message
  | none => throw .invalidBody

/-- The machine that decodes one frame a step. -/
def reader (parse : List UInt8 → Option Json) :
    Machine (List UInt8) Unit (Except DecodeError PexMessage) :=
  fun stream _ => (decode parse).read stream

/-- A frame and what decoding it must answer. -/
inductive Framed (parse : List UInt8 → Option Json) :
    List UInt8 → Except DecodeError PexMessage → Prop where
  /-- A message of this version, its JSON possibly with unknown fields. -/
  | message (message : PexMessage) (inRange : message.InRange) (json : Json)
      (evolved : message.Evolves json)
      (parsed : parse json.render = some json)
      (bounded : json.render.length ≤ pexMaxFrame) :
      Framed parse (lengthPrefix json.render.length ++ json.render)
        (.ok message)
  /-- A length prefix over the bound, whatever follows it. -/
  | oversized (length : Nat) (tooLong : pexMaxFrame < length)
      (fits : length < 2 ^ 32) :
      Framed parse (lengthPrefix length) (.error .frameTooLarge)
  /-- A body within the bound that is not a message. -/
  | malformed (body : List UInt8) (bounded : body.length ≤ pexMaxFrame)
      (invalid : (parse body).bind ofJson = none) :
      Framed parse (lengthPrefix body.length ++ body) (.error .invalidBody)

theorem readExact_append (bytes rest : List UInt8) :
    (readExact bytes.length).read (bytes ++ rest) = (rest, .ok bytes) := by
  have enough : bytes.length ≤ (bytes ++ rest).length := by simp
  rw [readExact, StreamReader.read_bind_of_ok (StreamReader.read_get _),
    if_pos enough, StreamReader.read_bind_of_ok (StreamReader.read_set _ _),
    StreamReader.read_pure, List.drop_left, List.take_left]

theorem length_lengthPrefix (length : Nat) :
    (lengthPrefix length).length = 4 := by
  simp [lengthPrefix, littleEndian]

theorem fromBigEndian_lengthPrefix {length : Nat} (fits : length < 2 ^ 32) :
    fromBigEndian (lengthPrefix length) = length := by
  simp [fromBigEndian, lengthPrefix, littleEndian, List.range_succ]
  omega

theorem readExact_lengthPrefix (length : Nat) (rest : List UInt8) :
    (readExact 4).read (lengthPrefix length ++ rest) =
      (rest, .ok (lengthPrefix length)) := by
  have taken := readExact_append (lengthPrefix length) rest
  rwa [length_lengthPrefix] at taken

section Decoding

variable (parse : List UInt8 → Option Json)

theorem decode_oversized {length : Nat} (tooLong : pexMaxFrame < length)
    (fits : length < 2 ^ 32) (rest : List UInt8) :
    (decode parse).read (lengthPrefix length ++ rest) =
      (rest, .error .frameTooLarge) := by
  rw [decode, StreamReader.read_bind_of_ok (readExact_lengthPrefix length rest)]
  simp only [fromBigEndian_lengthPrefix fits, if_pos tooLong]
  rfl

theorem decode_bounded {body : List UInt8}
    (bounded : body.length ≤ pexMaxFrame) (rest : List UInt8) :
    (decode parse).read (lengthPrefix body.length ++ body ++ rest) =
      (rest,
        match (parse body).bind ofJson with
        | some message => .ok message
        | none => .error .invalidBody) := by
  have small : pexMaxFrame < 2 ^ 32 := by decide
  have fits := Nat.lt_of_le_of_lt bounded small
  rw [decode, List.append_assoc,
    StreamReader.read_bind_of_ok (readExact_lengthPrefix body.length _)]
  simp only [fromBigEndian_lengthPrefix fits,
    if_neg (Nat.not_lt.mpr bounded)]
  rw [StreamReader.read_bind_of_ok (readExact_append body rest)]
  cases (parse body).bind ofJson with
  | none => rfl
  | some message => rfl

end Decoding

/-- Whatever follows a frame, decoding takes the frame off the stream and
nothing else, and answers what it must. -/
theorem reader_framed {parse : List UInt8 → Option Json}
    (frame : List UInt8) (answer : Except DecodeError PexMessage)
    (framed : Framed parse frame answer) (rest : List UInt8) :
    reader parse (frame ++ rest) () = (rest, answer) := by
  cases framed with
  | message message inRange json evolved parsed bounded =>
      have decoded : (parse json.render).bind ofJson = some message := by
        rw [parsed, Option.bind_some, ofJson_of_evolves inRange evolved]
      have taken := decode_bounded parse bounded rest
      rwa [decoded] at taken
  | oversized length tooLong fits =>
      exact decode_oversized parse tooLong fits rest
  | malformed body bounded invalid =>
      have taken := decode_bounded parse bounded rest
      rwa [invalid] at taken

theorem framed_encode {parse : List UInt8 → Option Json} {message : PexMessage}
    (inRange : message.InRange)
    (parsed : parse message.toJsonBytes = some message.toJson)
    (bounded : message.toJsonBytes.length ≤ pexMaxFrame) :
    Framed parse message.encode (.ok message) :=
  .message message inRange message.toJson message.evolves_toJson parsed bounded

/-- Framed decoding undoes encoding over whole streams.  However many frames
stand in a row, good ones with unknown fields at any object level, oversized
and malformed ones, and whatever follows the last, repeated decoding answers
each frame in order and consumes exactly their bytes. -/
theorem decode_stream {parse : List UInt8 → Option Json}
    {frames : List (List UInt8)}
    {answers : List (Except DecodeError PexMessage)}
    (framed : List.Forall₂ (Framed parse) frames answers)
    (rest : List UInt8) :
    (reader parse).outputs (frames.flatten ++ rest)
        (List.replicate frames.length ()) = answers ∧
      (reader parse).final (frames.flatten ++ rest)
        (List.replicate frames.length ()) = rest :=
  Machine.consumes reader_framed framed rest

/-- A snapshot of one entry with a field added to every object. -/
def laterSnapshot : Json :=
  .object [
    ("type", .string "pex_snapshot"),
    ("hops", .number (.posInt 3)),
    ("peers", .array [.object [
      ("peer_id", .string (exampleId 'c')),
      ("addresses", .array [.object [
        ("host", .string "10.0.0.1"),
        ("zone", .array [.null]),
        ("port", .number (.posInt 9444)),
        ("kind", .string "direct")]]),
      ("network_id", .string "network"),
      ("score", .bool true),
      ("last_seen", .number (.posInt 1000)),
      ("via", .string "direct"),
      ("flags", .array [])]])]

/-- A parser that knows the text of that snapshot. -/
def laterParse (body : List UInt8) : Option Json :=
  if body = laterSnapshot.render then some laterSnapshot else none

theorem decode_stream_later :
    let frames := [
      lengthPrefix laterSnapshot.render.length ++ laterSnapshot.render,
      lengthPrefix (pexMaxFrame + 1),
      lengthPrefix 1 ++ [123]]
    (reader laterParse).outputs (frames.flatten ++ [0])
        (List.replicate 3 ()) =
        [.ok (pexSnapshot [exampleEntry 'c' 1000 9444]),
          .error .frameTooLarge, .error .invalidBody] ∧
      (reader laterParse).final (frames.flatten ++ [0])
        (List.replicate 3 ()) = [0] := by
  have inRange : (pexSnapshot [exampleEntry 'c' 1000 9444]).InRange := by
    simp [InRange, PeerEntry.InRange, Address.InRange, exampleEntry,
      PeerEntry.new, PeerEntry.withAddress, Address.direct]
  have evolved :
      (pexSnapshot [exampleEntry 'c' 1000 9444]).Evolves laterSnapshot := by
    simp [Evolves, Json.Extends, fieldNames, toJson, laterSnapshot, Json.Each,
      PeerEntry.Evolves, PeerEntry.toJson, Address.Evolves, Address.toJson,
      exampleEntry, PeerEntry.new, PeerEntry.withAddress, Address.direct,
      Provenance.asStr, AddressKind.asStr]
  have parsed : laterParse laterSnapshot.render = some laterSnapshot :=
    if_pos rfl
  have invalid : (laterParse [123]).bind ofJson = none := by
    have other : [123] ≠ laterSnapshot.render := by decide +kernel
    rw [laterParse, if_neg other, Option.bind_none]
  exact decode_stream
    (.cons (.message _ inRange _ evolved parsed (by decide +kernel))
      (.cons (.oversized _ (by decide) (by decide))
        (.cons (.malformed [123] (by decide) invalid) .nil))) [0]

end PexMessage

end DigPex
