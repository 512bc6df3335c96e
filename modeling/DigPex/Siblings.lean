import DigPex.Concrete
import DigPex.Decode
import DigPex.HintReasons
import DigPex.Surfacing

/-!
# What one malformed entry costs

An entry that validation refuses is skipped, but an entry that does not decode
takes its whole message with it.  The shape of a JSON object decides which of
the two it is: fields may be missing or unknown, and the known ones must have
the type of their field.
-/

namespace DigPex

namespace Json

variable {Value : Type}

/-! ## Shapes -/

end Json

open Json

namespace PexMessage

/-- The field of a data message that holds its entries. -/
def entriesField : PexMessage → Option String
  | pexSnapshot _ => some "peers"
  | pexDelta _ _ => some "added"
  | _ => none

/-- A data message with other entries. -/
def withEntries (message : PexMessage) (entries : List PeerEntry) :
    PexMessage :=
  match message with
  | pexSnapshot _ => pexSnapshot entries
  | pexDelta _ dropped => pexDelta entries dropped
  | other => other

/-- Where the entries of a data message stand in its JSON: in the field of
that name, or first after the type. -/
inductive Slot (message : PexMessage) : (List Json → Json) → Prop
  | named {name : String} (before after : List (String × Json))
      (data : message.entriesField = some name) :
      Slot message fun items =>
        .object (before ++ (name, .array items) :: after)
  | positional {name : String} (tag : Json) (after : List Json)
      (data : message.entriesField = some name) :
      Slot message fun items => .array (tag :: .array items :: after)

theorem Slot.data {message : PexMessage} {slot : List Json → Json}
    (placed : Slot message slot) :
    ∃ name, message.entriesField = some name := by
  cases placed with
  | named before after data => exact ⟨_, data⟩
  | positional tag after data => exact ⟨_, data⟩

/-- A record of which the first field, of a name, is a list, and the rest does
not depend on the list. -/
structure ListFirst (name : String) (record : List Json → Json) : Prop where
  kind : ∀ (arity : Nat) (items others : List Json),
    (record items).isRecord arity = (record others).isRecord arity
  self : ∀ (items : List Json) (found : Json),
    (record items).member 0 name = some (some found) →
      found = .array items ∧ ∀ others : List Json,
        (record others).member 0 name = some (some (.array others))
  other : ∀ (index : Nat) (wanted : String) (items others : List Json),
    index ≠ 0 → wanted ≠ name →
      (record items).member index wanted =
        (record others).member index wanted

theorem listFirst_object (name : String)
    (before after : List (String × Json)) :
    ListFirst name fun items =>
      .object (before ++ (name, .array items) :: after) := by
  constructor
  · intro arity items others
    rfl
  · intro items found lookup
    simp only [member, List.filter_append, List.filter_cons, decide_true,
      if_true] at lookup ⊢
    generalize before.filter (fun field => field.1 = name) = early
      at lookup ⊢
    generalize after.filter (fun field => field.1 = name) = late
      at lookup ⊢
    match early, late with
    | [], [] =>
        obtain rfl := Option.some.inj (Option.some.inj lookup)
        exact ⟨rfl, fun others => rfl⟩
    | [], _ :: _ => cases lookup
    | [_], _ => cases lookup
    | _ :: _ :: _, _ => cases lookup
  · intro index wanted items others _ different
    simp only [member, List.filter_append, List.filter_cons,
      decide_eq_false (Ne.symm different), Bool.false_eq_true, if_false]

theorem listFirst_array (name : String) (after : List Json) :
    ListFirst name fun items => .array (.array items :: after) := by
  constructor
  · intro arity items others
    rfl
  · intro items found lookup
    simp only [member, List.getElem?_cons_zero, Option.some.injEq] at lookup
    exact ⟨lookup.symm, fun others => rfl⟩
  · intro index wanted items others later _
    cases index with
    | zero => exact absurd rfl later
    | succ index => rfl

theorem required_listFirst {name : String} {record : List Json → Json}
    (first : ListFirst name record) {items : List Json}
    {entries : List PeerEntry}
    (decoded : (record items).required 0 name
      (asItems PeerEntry.ofJson) = some entries) :
    items.mapM PeerEntry.ofJson = some entries ∧
      ∀ others : List Json, (record others).required 0 name
        (asItems PeerEntry.ofJson) = others.mapM PeerEntry.ofJson := by
  unfold required at decoded
  split at decoded
  · rename_i found lookup
    obtain ⟨rfl, others⟩ := first.self items found lookup
    refine ⟨decoded, fun other => ?_⟩
    simp only [required, others other, asItems]
  · cases decoded

theorem ofTagged_listFirst {name tag : String} {record : List Json → Json}
    (first : ListFirst name record) {items : List Json}
    {message : PexMessage} (data : message.entriesField = some name)
    (decoded : ofTagged tag (record items) = some message) :
    items.mapM PeerEntry.ofJson = some message.entries ∧
      ∀ others : List Json, ofTagged tag (record others) =
        (others.mapM PeerEntry.ofJson).map message.withEntries := by
  unfold ofTagged at decoded ⊢
  split at decoded
  · split at decoded
    · simp only [Option.bind_eq_bind, Option.bind_eq_some_iff] at decoded
      obtain ⟨_, _, _, _, _, _, _, _, same⟩ := decoded
      obtain rfl := Option.some.inj same
      cases data
    · cases decoded
  · split at decoded
    · rename_i kind
      simp only [Option.bind_eq_bind, Option.bind_eq_some_iff] at decoded
      obtain ⟨entries, list, same⟩ := decoded
      obtain rfl := Option.some.inj same
      obtain rfl := Option.some.inj data
      obtain ⟨here, elsewhere⟩ := required_listFirst first list
      refine ⟨here, fun others => ?_⟩
      rw [if_pos ((first.kind 1 others items).trans kind), elsewhere]
      cases others.mapM PeerEntry.ofJson <;> rfl
    · cases decoded
  · split at decoded
    · rename_i kind
      simp only [Option.bind_eq_bind, Option.bind_eq_some_iff] at decoded
      obtain ⟨entries, list, dropped, ids, same⟩ := decoded
      obtain rfl := Option.some.inj same
      obtain rfl := Option.some.inj data
      obtain ⟨here, elsewhere⟩ := required_listFirst first list
      refine ⟨here, fun others => ?_⟩
      have unchanged : (record others).required 1 "dropped"
          (asItems asText) = some dropped := by
        rw [← ids]
        unfold required
        rw [first.other 1 "dropped" others items (by decide) (by decide)]
      rw [if_pos ((first.kind 2 others items).trans kind), elsewhere,
        unchanged]
      cases others.mapM PeerEntry.ofJson <;> rfl
    · cases decoded
  · split at decoded
    · simp only [Option.bind_eq_bind, Option.bind_eq_some_iff] at decoded
      obtain ⟨_, _, _, _, same⟩ := decoded
      obtain rfl := Option.some.inj same
      cases data
    · cases decoded
  · cases decoded

theorem entriesField_ne_type {message : PexMessage} {name : String}
    (data : message.entriesField = some name) : name ≠ "type" := by
  cases message with
  | pexHandshake version networkId interval flags => cases data
  | pexSnapshot peers =>
      obtain rfl := Option.some.inj data
      decide
  | pexDelta added dropped =>
      obtain rfl := Option.some.inj data
      decide
  | pexError code message => cases data

/-- A data message as a function of the list of its entries: it decodes exactly
when every element does, and each element decodes alone. -/
theorem Slot.ofJson {message : PexMessage} {slot : List Json → Json}
    (placed : Slot message slot) {items : List Json}
    (decoded : PexMessage.ofJson (slot items) = some message) :
    items.mapM PeerEntry.ofJson = some message.entries ∧
      ∀ others : List Json, PexMessage.ofJson (slot others) =
        (others.mapM PeerEntry.ofJson).map message.withEntries := by
  cases placed with
  | named before after data =>
      rename_i name
      have other := entriesField_ne_type data
      have tags := (listFirst_object name before after).other 1 "type"
      have rest : ∀ items : List Json,
          (before ++ (name, .array items) :: after).filter
              (fun field => field.1 ≠ "type") =
            before.filter (fun field => field.1 ≠ "type") ++
              (name, .array items) ::
                after.filter fun field => field.1 ≠ "type" := by
        intro items
        rw [List.filter_append, List.filter_cons_of_pos (by simpa using other)]
      simp only [PexMessage.ofJson, rest, Option.bind_eq_bind,
        Option.bind_eq_some_iff] at decoded ⊢
      obtain ⟨tag, tagged, decoded⟩ := decoded
      obtain ⟨here, elsewhere⟩ := ofTagged_listFirst
        (listFirst_object name _ _) data decoded
      refine ⟨here, fun others => ?_⟩
      have sameTag : (Json.object (before ++ (name, .array others) ::
          after)).required 0 "type" asText = some tag := by
        rw [← tagged]
        unfold required
        have same := tags others items (by decide) (Ne.symm other)
        simp only [member] at same ⊢
        rw [same]
      rw [sameTag, Option.bind_some]
      exact elsewhere others
  | positional tag after data =>
      rename_i name
      simp only [PexMessage.ofJson, Option.bind_eq_bind,
        Option.bind_eq_some_iff] at decoded ⊢
      obtain ⟨text, tagged, decoded⟩ := decoded
      obtain ⟨here, elsewhere⟩ := ofTagged_listFirst
        (listFirst_array name after) data decoded
      refine ⟨here, fun others => ?_⟩
      rw [tagged, Option.bind_some]
      exact elsewhere others

end PexMessage

/-! ## Feeding it -/

namespace PexEngine

variable {engine : PexEngine} {source : String} {message : PexMessage}
  {nowMs : Nat}

theorem Accepts.fewer {entries fewer : List PeerEntry}
    (accepted : engine.Accepts source (message.withEntries entries) nowMs)
    (within : fewer.Sublist entries) :
    engine.Accepts source (message.withEntries fewer) nowMs := by
  unfold Accepts at accepted ⊢
  rw [Direction.judge_eq_accepted_iff] at accepted ⊢
  refine ⟨accepted.1, ?_⟩
  have shorter := within.length_le
  cases message with
  | pexSnapshot peers => exact ⟨accepted.2.1, shorter.trans accepted.2.2⟩
  | pexDelta added dropped =>
      obtain ⟨phase, floor, addedCap, droppedCap, apart⟩ := accepted.2
      exact ⟨phase, floor, shorter.trans addedCap, droppedCap,
        fun id listed member => apart id listed
          ((within.map PeerEntry.peerId).subset member)⟩
  | _ => exact accepted.2

end PexEngine

variable [DefaultHasher]

/-- Feeding a data message in which one element stands among its siblings.  In
every reachable state that accepts it, it is no fault; where the element fails
validation, the message does what it does without it; and where it passes,
every sibling about another peer is surfaced that the message surfaces without
the entries about that peer, exactly as without the element while the hint
table has room. -/
def Harmless (message : PexMessage) (left : List PeerEntry)
    (element : PeerEntry) (right : List PeerEntry) : Prop :=
  ∀ (cfg : PexConfig) (calls : List Call) (source : String) (nowMs : Nat),
    let engine := engineStep.final (PexEngine.new cfg) calls
    let feed (entries : List PeerEntry) :=
      engine.onMessage source (message.withEntries entries) nowMs
    let entries := left ++ element :: right
    engine.Accepts source (message.withEntries entries) nowMs →
      (feed entries).2.replies = [] ∧
        (∀ code mute, .violation code mute ∉ (feed entries).2.events) ∧
        ((feed entries).1.link source).strikes =
          (engine.link source).strikes ∧
        (¬engine.Keeps source (nowMs / 1000) element →
          feed entries = feed (left ++ right)) ∧
        (engine.Keeps source (nowMs / 1000) element →
          ∀ candidate, candidate.peerId ≠ element.peerId →
            (candidate ∈ (feed (entries.filter fun entry =>
                entry.peerId ≠ element.peerId)).2.surfaced →
              candidate ∈ (feed entries).2.surfaced) ∧
            (engine.hints.size + entries.length ≤ pexMaxHints →
              (candidate ∈ (feed entries).2.surfaced ↔
                candidate ∈ (feed (left ++ right)).2.surfaced)))

/-- A message that differs from another in the entry at one index, and does no
harm to the other entries. -/
def Spares (message decoded : PexMessage) (index : Nat) : Prop :=
  ∃ left entry element right, message.entries = left ++ entry :: right ∧
    left.length = index ∧
    decoded = message.withEntries (left ++ element :: right) ∧
    Harmless message left element right

end DigPex
