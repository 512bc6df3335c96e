import DigPex.Transport

/-!
# What decoding makes of any bytes

Whatever bytes arrive, the reader cuts them into frames in one way, answers
each frame, and at a frame that is not complete answers that the stream ended.
What it accepts is a value of the source's types, and is decoded again from
its own JSON.
-/

namespace DigPex

namespace Json

variable {Value : Type} {decode : Json → Option Value}
  {holds : Value → Prop}

theorem lt_of_asUnsigned {bound value : Nat} {json : Json}
    (decoded : json.asUnsigned bound = some value) : value < bound := by
  unfold asUnsigned at decoded
  split at decoded
  · split at decoded
    · rename_i below
      cases decoded
      exact below
    · cases decoded
  · cases decoded

theorem holds_of_asItems {json : Json} {values : List Value}
    (each : ∀ item value, decode item = some value → holds value)
    (decoded : json.asItems decode = some values) :
    ∀ value ∈ values, holds value := by
  cases json with
  | array items =>
      replace decoded : items.mapM decode = some values := decoded
      induction items generalizing values with
      | nil =>
          obtain rfl := Option.some.inj decoded
          exact fun _ member => absurd member List.not_mem_nil
      | cons item items induction =>
          simp only [List.mapM_cons, Option.bind_eq_bind,
            Option.bind_eq_some_iff, Option.pure_def, Option.some.injEq]
            at decoded
          obtain ⟨first, found, others, rest, rfl⟩ := decoded
          exact List.forall_mem_cons.mpr
            ⟨each item first found, induction rest⟩
  | _ => cases decoded

theorem holds_of_required {record : Json} {index : Nat} {name : String}
    {value : Value}
    (each : ∀ json value, decode json = some value → holds value)
    (decoded : record.required index name decode = some value) :
    holds value := by
  unfold required at decoded
  split at decoded
  · exact each _ _ decoded
  · cases decoded

theorem holds_of_defaulted {record : Json} {index : Nat} {name : String}
    {default value : Value}
    (each : ∀ json value, decode json = some value → holds value)
    (missing : holds default)
    (decoded : record.defaulted index name decode default = some value) :
    holds value := by
  unfold defaulted at decoded
  split at decoded
  · exact each _ _ decoded
  · cases decoded
    exact missing
  · cases decoded

theorem lt_of_defaulted {record : Json} {index bound value : Nat}
    {name : String} (positive : 0 < bound)
    (decoded : record.defaulted index name (asUnsigned bound) 0 =
      some value) : value < bound :=
  @holds_of_defaulted _ _ (fun value => value < bound) _ _ _ _ _
    (fun _ _ => lt_of_asUnsigned) positive decoded

end Json

/-! ## Decoded values are values of the source's types -/

theorem Address.inRange_of_ofJson (json : Json) (address : Address)
    (decoded : Address.ofJson json = some address) : address.InRange := by
  unfold Address.ofJson at decoded
  split at decoded
  · simp only [Option.bind_eq_bind, Option.bind_eq_some_iff] at decoded
    obtain ⟨host, _, port, read, kind, _, same⟩ := decoded
    cases same
    exact Json.lt_of_defaulted (by decide) read
  · cases decoded

theorem PeerEntry.inRange_of_ofJson (json : Json) (entry : PeerEntry)
    (decoded : PeerEntry.ofJson json = some entry) : entry.InRange := by
  unfold PeerEntry.ofJson at decoded
  split at decoded
  · simp only [Option.bind_eq_bind, Option.bind_eq_some_iff] at decoded
    obtain ⟨peerId, _, addresses, listed, networkId, _, lastSeen, seen, via, _,
      flags, _, payment, _, same⟩ := decoded
    cases same
    refine ⟨?_, ?_⟩
    · exact Json.holds_of_defaulted
        (fun _ _ => Json.holds_of_asItems Address.inRange_of_ofJson)
        (fun _ member => absurd member List.not_mem_nil) listed
    · exact Json.lt_of_defaulted (by decide) seen
  · cases decoded

namespace PexMessage

theorem inRange_of_ofTagged {tag : String} {rest : Json}
    {message : PexMessage} (decoded : ofTagged tag rest = some message) :
    message.InRange := by
  have entries : ∀ {index : Nat} {name : String} {values : List PeerEntry},
      rest.required index name (Json.asItems PeerEntry.ofJson) =
        some values → ∀ entry ∈ values, entry.InRange :=
    fun {index name values} => Json.holds_of_required fun _ _ =>
      Json.holds_of_asItems PeerEntry.inRange_of_ofJson
  have number : ∀ {index bound value : Nat} {name : String},
      rest.required index name (Json.asUnsigned bound) = some value →
        value < bound :=
    fun {index bound value name} => Json.holds_of_required fun _ _ =>
      Json.lt_of_asUnsigned
  unfold ofTagged at decoded
  split at decoded
  · split at decoded
    · simp only [Option.bind_eq_bind, Option.bind_eq_some_iff] at decoded
      obtain ⟨version, first, networkId, _, interval, second, flags, _,
        same⟩ := decoded
      cases same
      exact ⟨number first, number second⟩
    · cases decoded
  · split at decoded
    · simp only [Option.bind_eq_bind, Option.bind_eq_some_iff] at decoded
      obtain ⟨peers, read, same⟩ := decoded
      cases same
      exact entries read
    · cases decoded
  · split at decoded
    · simp only [Option.bind_eq_bind, Option.bind_eq_some_iff] at decoded
      obtain ⟨added, read, dropped, _, same⟩ := decoded
      cases same
      exact entries read
    · cases decoded
  · split at decoded
    · simp only [Option.bind_eq_bind, Option.bind_eq_some_iff] at decoded
      obtain ⟨code, read, text, _, same⟩ := decoded
      cases same
      exact number read
    · cases decoded
  · cases decoded

/-- Whatever a message was decoded from, its numbers fit their types and it is
decoded again from its own JSON. -/
theorem normal_of_ofJson {json : Json} {message : PexMessage}
    (decoded : ofJson json = some message) :
    message.InRange ∧ ofJson message.toJson = some message := by
  have inRange : message.InRange := by
    cases json with
    | object fields =>
        simp only [ofJson, Option.bind_eq_bind, Option.bind_eq_some_iff]
          at decoded
        obtain ⟨tag, _, tagged⟩ := decoded
        exact inRange_of_ofTagged tagged
    | array items =>
        cases items with
        | nil => cases decoded
        | cons first rest =>
            simp only [ofJson, Option.bind_eq_bind, Option.bind_eq_some_iff]
              at decoded
            obtain ⟨tag, _, tagged⟩ := decoded
            exact inRange_of_ofTagged tagged
    | _ => cases decoded
  exact ⟨inRange, ofJson_of_evolves inRange message.evolves_toJson⟩

/-! ## Any stream of bytes -/

/-- A frame, whatever its bytes, and what it is answered by. -/
inductive Answered (parse : List UInt8 → Option Json) :
    List UInt8 → Except DecodeError PexMessage → Prop where
  | message (body : List UInt8) (message : PexMessage)
      (bounded : body.length ≤ pexMaxFrame)
      (decoded : (parse body).bind ofJson = some message) :
      Answered parse (lengthPrefix body.length ++ body) (.ok message)
  | oversized (length : Nat) (tooLong : pexMaxFrame < length)
      (fits : length < 2 ^ 32) :
      Answered parse (lengthPrefix length) (.error .frameTooLarge)
  | malformed (body : List UInt8) (bounded : body.length ≤ pexMaxFrame)
      (invalid : (parse body).bind ofJson = none) :
      Answered parse (lengthPrefix body.length ++ body) (.error .invalidBody)

section Streams

variable {parse : List UInt8 → Option Json} {frame : List UInt8}
  {answer : Except DecodeError PexMessage}

theorem Answered.length (answered : Answered parse frame answer) :
    4 ≤ frame.length := by
  cases answered <;> simp [length_lengthPrefix]

theorem reader_answered (answered : Answered parse frame answer)
    (rest : List UInt8) :
    reader parse (frame ++ rest) () = (rest, answer) := by
  cases answered with
  | message body message bounded decoded =>
      have taken := decode_bounded parse bounded rest
      rwa [decoded] at taken
  | oversized length tooLong fits =>
      exact decode_oversized parse tooLong fits rest
  | malformed body bounded invalid =>
      have taken := decode_bounded parse bounded rest
      rwa [invalid] at taken

theorem normal_of_answered {frames : List (List UInt8)}
    {answers : List (Except DecodeError PexMessage)}
    (each : List.Forall₂ (Answered parse) frames answers) :
    4 * frames.length ≤ frames.flatten.length ∧
      ∀ message, .ok message ∈ answers →
        message.InRange ∧ ofJson message.toJson = some message := by
  induction each with
  | nil => exact ⟨le_rfl, fun _ member => absurd member List.not_mem_nil⟩
  | cons first others induction =>
      obtain ⟨long, normal⟩ := induction
      constructor
      · have here := first.length
        simp only [List.length_cons, List.flatten_cons, List.length_append]
        omega
      · intro message member
        rcases List.mem_cons.mp member with same | later
        · cases first with
          | message body accepted bounded decoded =>
              obtain rfl := Except.ok.inj same
              obtain ⟨json, _, found⟩ := Option.bind_eq_some_iff.mp decoded
              exact normal_of_ofJson found
          | oversized length tooLong fits => cases same
          | malformed body bounded invalid => cases same
        · exact normal message later

theorem lengthPrefix_fromBigEndian {bytes : List UInt8}
    (four : bytes.length = 4) :
    lengthPrefix (fromBigEndian bytes) = bytes ∧
      fromBigEndian bytes < 2 ^ 32 := by
  obtain ⟨first, second, third, fourth, rfl⟩ := List.length_eq_four.mp four
  have firstByte := first.toNat_lt
  have secondByte := second.toNat_lt
  have thirdByte := third.toNat_lt
  have fourthByte := fourth.toNat_lt
  have value : fromBigEndian [first, second, third, fourth] =
      ((first.toNat * 256 + second.toNat) * 256 + third.toNat) * 256 +
        fourth.toNat := by
    simp [fromBigEndian]
  rw [value]
  constructor
  · simp only [lengthPrefix, littleEndian, List.range_succ, List.range_zero,
      List.map_nil, List.map_cons, List.reverse_cons, List.reverse_nil,
      List.nil_append, List.cons_append, List.cons.injEq, and_true]
    refine ⟨?_, ?_, ?_, ?_⟩ <;> rw [← UInt8.toNat_inj] <;> simp <;> omega
  · omega

/-- Every stream is cut short or begins with a frame. -/
theorem cut_or_answered (parse : List UInt8 → Option Json)
    (stream : List UInt8) :
    Cut stream ∨ ∃ frame answer rest, frame ≠ [] ∧
      stream = frame ++ rest ∧ Answered parse frame answer := by
  have whole : ∀ {frame answer rest}, Answered parse frame answer →
      stream = frame ++ rest → ∃ frame answer rest, frame ≠ [] ∧
        stream = frame ++ rest ∧ Answered parse frame answer := by
    intro frame answer rest answered same
    refine ⟨frame, answer, rest, ?_, same, answered⟩
    rintro rfl
    exact absurd answered.length (by decide)
  by_cases short : stream.length < 4
  · exact .inl (.inl short)
  · obtain ⟨header, fits⟩ := @lengthPrefix_fromBigEndian (stream.take 4)
      (List.length_take_of_le (not_lt.mp short))
    have split : stream = stream.take 4 ++ stream.drop 4 :=
      (List.take_append_drop 4 stream).symm
    rw [← header] at split
    generalize fromBigEndian (stream.take 4) = length at split fits
    generalize stream.drop 4 = body at split
    by_cases tooLong : pexMaxFrame < length
    · exact .inr (whole (.oversized length tooLong fits) split)
    · by_cases missing : body.length < length
      · exact .inl (.inr ⟨length, body, not_lt.mp tooLong, split, missing⟩)
      · have taken : (body.take length).length = length :=
          List.length_take_of_le (not_lt.mp missing)
        have bounded : (body.take length).length ≤ pexMaxFrame := by
          rw [taken]
          exact not_lt.mp tooLong
        have framed : stream = (lengthPrefix (body.take length).length ++
            body.take length) ++ body.drop length := by
          rw [taken, List.append_assoc, List.take_append_drop]
          exact split
        cases decoded : (parse (body.take length)).bind ofJson with
        | none => exact .inr (whole (.malformed _ bounded decoded) framed)
        | some message =>
            exact .inr (whole (.message _ message bounded decoded) framed)

theorem outputs_of_cut {tail : List UInt8} (cut : Cut tail) (more : Nat) :
    (reader parse).outputs tail (List.replicate more ()) =
      List.replicate more (.error .unexpectedEof) := by
  induction more generalizing tail with
  | zero => rfl
  | succ more induction =>
      have ended : reader parse tail () = ([], .error .unexpectedEof) :=
        decode_cut cut
      rw [List.replicate_succ, Machine.outputs_cons, ended,
        induction (.inl (by decide))]
      rfl

/-- What decoding makes of any bytes.  Every stream is frames in a row and a
cut tail; repeated decoding answers each frame, in order and at its own bytes,
and then that the stream ended, for ever; and each message it accepts is one of
the source's types and is decoded again from its own JSON. -/
theorem decode_any_stream (parse : List UInt8 → Option Json)
    (stream : List UInt8) :
    ∃ frames answers tail, stream = frames.flatten ++ tail ∧ Cut tail ∧
      List.Forall₂ (Answered parse) frames answers ∧
      4 * frames.length ≤ stream.length ∧
      (∀ more, (reader parse).outputs stream
          (List.replicate (frames.length + more) ()) =
        answers ++ List.replicate more (.error .unexpectedEof)) ∧
      ∀ message, .ok message ∈ answers →
        message.InRange ∧ ofJson message.toJson = some message := by
  obtain ⟨frames, answers, tail, split, cut, each⟩ :=
    Machine.exists_pieces (cut_or_answered parse) stream
  obtain ⟨long, normal⟩ := normal_of_answered each
  refine ⟨frames, answers, tail, split, cut, each, ?_, fun more => ?_, normal⟩
  · rw [split, List.length_append]
    omega
  · obtain ⟨answered, left⟩ := Machine.consumes (fun _ _ => reader_answered)
      each tail
    rw [List.replicate_add, Machine.outputs_append, split, answered, left,
      outputs_of_cut cut]

end Streams

end PexMessage

end DigPex
