import DigPex.Decode

/-!
# Additive evolution

A later version may add fields to any object of a message.  A decoder of this
version reads from the extended object what it reads from the original one,
because it looks up the names it knows and skips every other one.
-/

namespace DigPex

namespace Json

/-- An object with fields added whose names are not known, its own fields in
their order and each a version of itself. -/
def Extends (known : List String) (evolves : String → Json → Json → Prop) :
    Json → Json → Prop
  | object fields, object extended =>
      List.Forall₂
        (fun field other =>
          other.1 = field.1 ∧ evolves field.1 field.2 other.2)
        fields (extended.filter fun field => field.1 ∈ known)
  | _, _ => False

/-- An array whose items are versions of the original ones. -/
def Each (evolves : Json → Json → Prop) : Json → Json → Prop
  | array items, array others => List.Forall₂ evolves items others
  | _, _ => False

end Json

def Address.Evolves : Json → Json → Prop :=
  Json.Extends ["host", "port", "kind"] fun _ => Eq

def PaymentClaim.Evolves : Json → Json → Prop :=
  Json.Extends ["address", "spki", "sig"] fun _ => Eq

def PeerEntry.Evolves : Json → Json → Prop :=
  Json.Extends
    ["peer_id", "addresses", "network_id", "last_seen", "via", "flags",
      "payment"]
    fun name =>
      if name = "addresses" then Json.Each Address.Evolves
      else if name = "payment" then PaymentClaim.Evolves
      else Eq

namespace PexMessage

/-- The names of the fields of a message, its tag included. -/
def fieldNames : PexMessage → List String
  | pexHandshake .. => ["type", "version", "network_id", "interval", "flags"]
  | pexSnapshot _ => ["type", "peers"]
  | pexDelta _ _ => ["type", "added", "dropped"]
  | pexError _ _ => ["type", "code", "message"]

/-- The JSON of a message with unknown fields at any object level. -/
def Evolves (message : PexMessage) : Json → Prop :=
  Json.Extends message.fieldNames
    (fun name =>
      if name = "peers" ∨ name = "added" then Json.Each PeerEntry.Evolves
      else Eq)
    message.toJson

end PexMessage

/-! ## Values of the source's types -/

/-- The port is a `u16`. -/
def Address.InRange (address : Address) : Prop :=
  address.port < 2 ^ 16

/-- The ports are `u16` and the timestamp is a `u64`. -/
def PeerEntry.InRange (entry : PeerEntry) : Prop :=
  (∀ address ∈ entry.addresses, address.InRange) ∧ entry.lastSeen < 2 ^ 64

/-- Every number of a message is one of its field's type. -/
def PexMessage.InRange : PexMessage → Prop
  | pexHandshake version _ interval _ =>
      version < 2 ^ 32 ∧ interval < 2 ^ 32
  | pexSnapshot peers => ∀ entry ∈ peers, entry.InRange
  | pexDelta added _ => ∀ entry ∈ added, entry.InRange
  | pexError code _ => code < 2 ^ 16

/-! ## Extended objects -/

namespace Json

variable {Value : Type} {known : List String}
  {evolves : String → Json → Json → Prop}

theorem Extends.refl {fields : List (String × Json)}
    (allKnown : ∀ field ∈ fields, field.1 ∈ known)
    (each : ∀ field ∈ fields, evolves field.1 field.2 field.2) :
    Extends known evolves (object fields) (object fields) := by
  have same : (fields.filter fun field => field.1 ∈ known) = fields :=
    List.filter_eq_self.mpr fun field member =>
      decide_eq_true (allKnown field member)
  simp only [Extends, same]
  exact List.forall₂_same.mpr fun field member => ⟨rfl, each field member⟩

theorem Each.refl {original : Json → Json → Prop} {items : List Json}
    (each : ∀ item ∈ items, original item item) :
    Each original (array items) (array items) :=
  List.forall₂_same.mpr each

theorem member_filter {fields : List (String × Json)} {index : Nat}
    {name : String} (isKnown : name ∈ known) :
    (object (fields.filter fun field => field.1 ∈ known)).member index name =
      (object fields).member index name := by
  have same : ((fields.filter fun field => field.1 ∈ known).filter
      fun field => field.1 = name) =
      fields.filter fun field => field.1 = name := by
    rw [List.filter_filter]
    apply List.filter_congr
    intro field _
    by_cases here : field.1 = name
    · simp [here, isKnown]
    · simp [here]
  simp only [member, same]

theorem asItems_of_each {decode : Json → Option Value}
    {encode : Value → Json} {evolves : Json → Json → Prop}
    {values : List Value}
    (decodes : ∀ value ∈ values, ∀ json, evolves (encode value) json →
      decode json = some value)
    {json : Json} (each : Each evolves (array (values.map encode)) json) :
    json.asItems decode = some values := by
  cases json with
  | array items =>
      rw [Each, List.forall₂_map_left_iff] at each
      show items.mapM decode = some values
      induction each with
      | nil => rfl
      | cons first others induction =>
          rw [List.mapM_cons, decodes _ List.mem_cons_self _ first,
            induction fun value member =>
              decodes value (List.mem_cons_of_mem _ member)]
          rfl
  | _ => exact each.elim

theorem asUnsigned_posInt {bound value : Nat} (small : value < bound) :
    (number (.posInt value)).asUnsigned bound = some value :=
  if_pos small

theorem asNullable_of_some {decode : Json → Option Value} {value : Value}
    {json : Json} (solid : decode null = none)
    (decoded : decode json = some value) :
    json.asNullable decode = some (some value) := by
  cases json with
  | null =>
      rw [solid] at decoded
      cases decoded
  | _ => simp [asNullable, decoded]

theorem asItems_texts (texts : List String) :
    (array (texts.map string)).asItems asText = some texts :=
  asItems_of_each (fun text _ json same => by rw [← same]; rfl)
    (Each.refl fun _ _ => rfl)

theorem defaulted_of_known {fields named : List (String × Json)}
    (found : (fields.filter fun field => field.1 ∈ known) = named)
    {name : String} (isKnown : name ∈ known) (index : Nat)
    (decode : Json → Option Value) (default : Value) :
    (object fields).defaulted index name decode default =
      (object named).defaulted index name decode default := by
  rw [defaulted, defaulted, ← found, member_filter isKnown]

theorem required_of_known {fields named : List (String × Json)}
    (found : (fields.filter fun field => field.1 ∈ known) = named)
    {name : String} (isKnown : name ∈ known) (index : Nat)
    (decode : Json → Option Value) :
    (object fields).required index name decode =
      (object named).required index name decode := by
  rw [required, required, ← found, member_filter isKnown]

end Json

@[simp] theorem AddressKind.ofToken_asStr (kind : AddressKind) :
    AddressKind.ofToken kind.asStr = kind := by
  cases kind <;> rfl

@[simp] theorem Provenance.ofToken_asStr (via : Provenance) :
    Provenance.ofToken via.asStr = via := by
  cases via <;> rfl

theorem Address.ofJson_of_evolves {address : Address}
    (inRange : address.InRange) {json : Json}
    (evolved : Address.Evolves address.toJson json) :
    Address.ofJson json = some address := by
  cases json with
  | object fields =>
      simp only [Address.Evolves, Address.toJson, Json.Extends,
        List.forall₂_cons_left_iff, List.forall₂_nil_left_iff] at evolved
      obtain ⟨⟨_, host⟩, _, ⟨rfl, rfl⟩, ⟨⟨_, port⟩, _, ⟨rfl, rfl⟩,
        ⟨⟨_, kind⟩, _, ⟨rfl, rfl⟩, rfl, rfl⟩, rfl⟩, found⟩ := evolved
      rw [Address.ofJson, Json.defaulted_of_known found (by simp),
        Json.defaulted_of_known found (by simp),
        Json.defaulted_of_known found (by simp)]
      have port := Json.asUnsigned_posInt inRange
      simp [Json.isRecord, Json.defaulted, Json.member, Json.asText,
        Json.asToken, port, -Nat.reducePow]
  | _ => exact evolved.elim

theorem PaymentClaim.ofJson_of_evolves {claim : PaymentClaim} {json : Json}
    (evolved : PaymentClaim.Evolves claim.toJson json) :
    PaymentClaim.ofJson json = some claim := by
  cases json with
  | object fields =>
      simp only [PaymentClaim.Evolves, PaymentClaim.toJson, Json.Extends,
        List.forall₂_cons_left_iff, List.forall₂_nil_left_iff] at evolved
      obtain ⟨⟨_, address⟩, _, ⟨rfl, rfl⟩, ⟨⟨_, spki⟩, _, ⟨rfl, rfl⟩,
        ⟨⟨_, sig⟩, _, ⟨rfl, rfl⟩, rfl, rfl⟩, rfl⟩, found⟩ := evolved
      rw [PaymentClaim.ofJson, Json.defaulted_of_known found (by simp),
        Json.defaulted_of_known found (by simp),
        Json.defaulted_of_known found (by simp)]
      simp [Json.isRecord, Json.defaulted, Json.member, Json.asText]
  | _ => exact evolved.elim

/-- An entry with unknown fields, in itself, its addresses and its claim,
decodes to the entry. -/
theorem PeerEntry.ofJson_of_evolves {entry : PeerEntry}
    (inRange : entry.InRange) {json : Json}
    (evolved : PeerEntry.Evolves entry.toJson json) :
    PeerEntry.ofJson json = some entry := by
  cases json with
  | object fields =>
      obtain ⟨ports, lastSeen⟩ := inRange
      have lastSeen := Json.asUnsigned_posInt lastSeen
      have flags := Json.asItems_texts entry.flags
      have decodes : ∀ address ∈ entry.addresses, ∀ json,
          Address.Evolves address.toJson json →
            Address.ofJson json = some address :=
        fun address member json => Address.ofJson_of_evolves
          (ports address member)
      cases payment : entry.payment with
      | none =>
          simp only [PeerEntry.Evolves, PeerEntry.toJson, Json.Extends,
            payment, Option.map_none, Option.toList_none, List.append_nil,
            List.forall₂_cons_left_iff, List.forall₂_nil_left_iff,
            String.reduceEq, if_false, if_true] at evolved
          obtain ⟨⟨_, peerId⟩, _, ⟨rfl, rfl⟩, ⟨⟨_, addresses⟩, _,
            ⟨rfl, each⟩, ⟨⟨_, networkId⟩, _, ⟨rfl, rfl⟩, ⟨⟨_, seen⟩, _,
            ⟨rfl, rfl⟩, ⟨⟨_, via⟩, _, ⟨rfl, rfl⟩, ⟨⟨_, texts⟩, _,
            ⟨rfl, rfl⟩, rfl, rfl⟩, rfl⟩, rfl⟩, rfl⟩, rfl⟩, found⟩ := evolved
          have addresses := Json.asItems_of_each decodes each
          rw [PeerEntry.ofJson]
          iterate 7 rw [Json.defaulted_of_known found (by simp)]
          simp [Json.isRecord, Json.defaulted, Json.member, Json.asText,
            Json.asToken, lastSeen, addresses, flags, ← payment,
            -Nat.reducePow]
      | some claim =>
          simp only [PeerEntry.Evolves, PeerEntry.toJson, Json.Extends,
            payment, Option.map_some, Option.toList_some, List.cons_append,
            List.nil_append, List.forall₂_cons_left_iff,
            List.forall₂_nil_left_iff, String.reduceEq, if_false, if_true]
            at evolved
          obtain ⟨⟨_, peerId⟩, _, ⟨rfl, rfl⟩, ⟨⟨_, addresses⟩, _,
            ⟨rfl, each⟩, ⟨⟨_, networkId⟩, _, ⟨rfl, rfl⟩, ⟨⟨_, seen⟩, _,
            ⟨rfl, rfl⟩, ⟨⟨_, via⟩, _, ⟨rfl, rfl⟩, ⟨⟨_, texts⟩, _,
            ⟨rfl, rfl⟩, ⟨⟨_, carried⟩, _, ⟨rfl, version⟩, rfl, rfl⟩, rfl⟩,
            rfl⟩, rfl⟩, rfl⟩, rfl⟩, found⟩ := evolved
          have addresses := Json.asItems_of_each decodes each
          have carried := Json.asNullable_of_some rfl
            (PaymentClaim.ofJson_of_evolves version)
          rw [PeerEntry.ofJson]
          iterate 7 rw [Json.defaulted_of_known found (by simp)]
          simp [Json.isRecord, Json.defaulted, Json.member, Json.asText,
            Json.asToken, lastSeen, addresses, flags, carried, ← payment,
            -Nat.reducePow]
  | _ => exact evolved.elim

theorem PeerEntry.asItems_of_each {entries : List PeerEntry}
    (inRange : ∀ entry ∈ entries, entry.InRange) {json : Json}
    (each : Json.Each PeerEntry.Evolves
      (.array (entries.map PeerEntry.toJson)) json) :
    json.asItems PeerEntry.ofJson = some entries :=
  Json.asItems_of_each
    (fun entry member _ => PeerEntry.ofJson_of_evolves (inRange entry member))
    each

theorem Address.evolves_toJson (address : Address) :
    Address.Evolves address.toJson address.toJson := by
  apply Json.Extends.refl
  · simp
  · simp

theorem PaymentClaim.evolves_toJson (claim : PaymentClaim) :
    PaymentClaim.Evolves claim.toJson claim.toJson := by
  apply Json.Extends.refl
  · simp
  · simp

theorem PeerEntry.evolves_toJson (entry : PeerEntry) :
    PeerEntry.Evolves entry.toJson entry.toJson := by
  have addresses : Json.Each Address.Evolves
      (.array (entry.addresses.map Address.toJson))
      (.array (entry.addresses.map Address.toJson)) :=
    Json.Each.refl (by simpa using fun address _ => address.evolves_toJson)
  apply Json.Extends.refl
  · cases entry.payment <;> simp
  · cases entry.payment with
    | none => simpa using addresses
    | some claim => simpa using ⟨addresses, claim.evolves_toJson⟩

theorem PeerEntry.each_toJson (entries : List PeerEntry) :
    Json.Each PeerEntry.Evolves (.array (entries.map PeerEntry.toJson))
      (.array (entries.map PeerEntry.toJson)) :=
  Json.Each.refl (by simpa using fun entry _ => entry.evolves_toJson)

namespace PexMessage

/-- The tag of an extended object is the tag of the object, and what is left
without it is read from the known fields. -/
theorem ofJson_of_known {known : List String}
    {fields named : List (String × Json)} {tag : String}
    (found : (fields.filter fun field => field.1 ∈ known) =
      ("type", .string tag) :: named)
    (tagged : "type" ∈ known) (untagged : ∀ field ∈ named, field.1 ≠ "type") :
    ofJson (.object fields) =
        ofTagged tag (.object (fields.filter fun field => field.1 ≠ "type")) ∧
      ((fields.filter fun field => field.1 ≠ "type").filter
        fun field => field.1 ∈ known) = named := by
  constructor
  · have alone : (named.filter fun field => field.1 = "type") = [] :=
      List.filter_eq_nil_iff.mpr fun field member =>
        by simpa using untagged field member
    rw [ofJson, Json.required_of_known found tagged]
    simp [Json.required, Json.member, Json.asText, alone]
  · rw [List.filter_comm, found]
    simpa using untagged

theorem ofJson_handshake_of_evolves {version interval : Nat}
    {networkId : String} {flags : List String}
    (inRange : (pexHandshake version networkId interval flags).InRange)
    {fields : List (String × Json)}
    (evolved : (pexHandshake version networkId interval flags).Evolves
      (.object fields)) :
    ofJson (.object fields) =
      some (pexHandshake version networkId interval flags) := by
  have version := Json.asUnsigned_posInt inRange.1
  have interval := Json.asUnsigned_posInt inRange.2
  have flags := Json.asItems_texts flags
  simp only [Evolves, toJson, Json.Extends, fieldNames, String.reduceEq,
    or_self, if_false, List.forall₂_cons_left_iff,
    List.forall₂_nil_left_iff] at evolved
  obtain ⟨⟨_, tag⟩, _, ⟨rfl, rfl⟩, ⟨⟨_, number⟩, _, ⟨rfl, rfl⟩,
    ⟨⟨_, network⟩, _, ⟨rfl, rfl⟩, ⟨⟨_, seconds⟩, _, ⟨rfl, rfl⟩,
    ⟨⟨_, texts⟩, _, ⟨rfl, rfl⟩, rfl, rfl⟩, rfl⟩, rfl⟩, rfl⟩,
    found⟩ := evolved
  obtain ⟨tagged, found⟩ := ofJson_of_known found (by simp) (by simp)
  rw [tagged, ofTagged]
  iterate 3 rw [Json.required_of_known found (by simp)]
  rw [Json.defaulted_of_known found (by simp)]
  simp [Json.isRecord, Json.required, Json.defaulted, Json.member,
    Json.asText, version, interval, flags, -Nat.reducePow]

theorem ofJson_snapshot_of_evolves {peers : List PeerEntry}
    (inRange : (pexSnapshot peers).InRange) {fields : List (String × Json)}
    (evolved : (pexSnapshot peers).Evolves (.object fields)) :
    ofJson (.object fields) = some (pexSnapshot peers) := by
  simp only [Evolves, toJson, Json.Extends, fieldNames, String.reduceEq,
    or_self, or_false, if_true, if_false, List.forall₂_cons_left_iff,
    List.forall₂_nil_left_iff] at evolved
  obtain ⟨⟨_, tag⟩, _, ⟨rfl, rfl⟩, ⟨⟨_, items⟩, _, ⟨rfl, each⟩, rfl, rfl⟩,
    found⟩ := evolved
  obtain ⟨tagged, found⟩ := ofJson_of_known found (by simp) (by simp)
  have items := PeerEntry.asItems_of_each inRange each
  rw [tagged, ofTagged, Json.required_of_known found (by simp)]
  simp [Json.isRecord, Json.required, Json.member, items]

theorem ofJson_delta_of_evolves {added : List PeerEntry}
    {dropped : List String} (inRange : (pexDelta added dropped).InRange)
    {fields : List (String × Json)}
    (evolved : (pexDelta added dropped).Evolves (.object fields)) :
    ofJson (.object fields) = some (pexDelta added dropped) := by
  have dropped := Json.asItems_texts dropped
  simp only [Evolves, toJson, Json.Extends, fieldNames, String.reduceEq,
    or_self, or_true, if_true, if_false, List.forall₂_cons_left_iff,
    List.forall₂_nil_left_iff] at evolved
  obtain ⟨⟨_, tag⟩, _, ⟨rfl, rfl⟩, ⟨⟨_, items⟩, _, ⟨rfl, each⟩,
    ⟨⟨_, ids⟩, _, ⟨rfl, rfl⟩, rfl, rfl⟩, rfl⟩, found⟩ := evolved
  obtain ⟨tagged, found⟩ := ofJson_of_known found (by simp) (by simp)
  have items := PeerEntry.asItems_of_each inRange each
  rw [tagged, ofTagged]
  iterate 2 rw [Json.required_of_known found (by simp)]
  simp [Json.isRecord, Json.required, Json.member, items, dropped]

theorem ofJson_error_of_evolves {code : Nat} {text : String}
    (inRange : (pexError code text).InRange) {fields : List (String × Json)}
    (evolved : (pexError code text).Evolves (.object fields)) :
    ofJson (.object fields) = some (pexError code text) := by
  have code := Json.asUnsigned_posInt inRange
  simp only [Evolves, toJson, Json.Extends, fieldNames, String.reduceEq,
    or_self, if_false, List.forall₂_cons_left_iff,
    List.forall₂_nil_left_iff] at evolved
  obtain ⟨⟨_, tag⟩, _, ⟨rfl, rfl⟩, ⟨⟨_, number⟩, _, ⟨rfl, rfl⟩,
    ⟨⟨_, text⟩, _, ⟨rfl, rfl⟩, rfl, rfl⟩, rfl⟩, found⟩ := evolved
  obtain ⟨tagged, found⟩ := ofJson_of_known found (by simp) (by simp)
  rw [tagged, ofTagged]
  iterate 2 rw [Json.required_of_known found (by simp)]
  simp [Json.isRecord, Json.required, Json.member, Json.asText, code,
    -Nat.reducePow]

/-- A message of this version decodes from its JSON with unknown fields at any
object level. -/
theorem ofJson_of_evolves {message : PexMessage} (inRange : message.InRange)
    {json : Json} (evolved : message.Evolves json) :
    ofJson json = some message := by
  cases json with
  | object fields =>
      cases message with
      | pexHandshake version networkId interval flags =>
          exact ofJson_handshake_of_evolves inRange evolved
      | pexSnapshot peers =>
          exact ofJson_snapshot_of_evolves inRange evolved
      | pexDelta added dropped =>
          exact ofJson_delta_of_evolves inRange evolved
      | pexError code text =>
          exact ofJson_error_of_evolves inRange evolved
  | _ => cases message <;> exact evolved.elim

theorem evolves_toJson (message : PexMessage) :
    message.Evolves message.toJson := by
  cases message with
  | pexHandshake version networkId interval flags =>
      apply Json.Extends.refl
      · simp [fieldNames]
      · simp
  | pexSnapshot peers =>
      apply Json.Extends.refl
      · simp [fieldNames]
      · have each := PeerEntry.each_toJson peers
        simpa using each
  | pexDelta added dropped =>
      apply Json.Extends.refl
      · simp [fieldNames]
      · have each := PeerEntry.each_toJson added
        simpa using each
  | pexError code text =>
      apply Json.Extends.refl
      · simp [fieldNames]
      · simp

end PexMessage

end DigPex
