import DigPex.Wire

/-!
# Decoding from JSON

What the derived deserializers make of a JSON value.  A record is read from an
object by name or from an array by position; a name that occurs twice is an
error, an unknown one is ignored, and a missing one takes its default if it
has one.  The text parser is a parameter.
-/

namespace DigPex

namespace Json

variable {Value : Type}

def asText : Json → Option String
  | string text => some text
  | _ => none

/-- A number as an unsigned integer below a bound; floats are refused even
when they are whole. -/
def asUnsigned (bound : Nat) : Json → Option Nat
  | number (.posInt value) => if value < bound then some value else none
  | _ => none

def asItems (decode : Json → Option Value) : Json → Option (List Value)
  | array items => items.mapM decode
  | _ => none

/-- `null` is an absent value, anything else is decoded. -/
def asNullable (decode : Json → Option Value) : Json → Option (Option Value)
  | null => some none
  | json => (decode json).map some

/-- The contents a unit variant may have. -/
def isUnit : Json → Bool
  | null => true
  | object [] => true
  | _ => false

/-- A variant without contents, as its token or as an object of one field. -/
def asToken (ofToken : String → Value) : Json → Option Value
  | string token => some (ofToken token)
  | object [(token, contents)] =>
      if contents.isUnit then some (ofToken token) else none
  | _ => none

/-- What can be read as a record of a number of fields. -/
def isRecord (arity : Nat) : Json → Bool
  | object _ => true
  | array items => items.length ≤ arity
  | _ => false

/-- The value of a field of a record, `some none` when it is missing. -/
def member (index : Nat) (name : String) : Json → Option (Option Json)
  | object fields =>
      match fields.filter fun field => field.1 = name with
      | [] => some none
      | [field] => some (some field.2)
      | _ => none
  | array items => some items[index]?
  | _ => none

/-- A field that must be present. -/
def required (record : Json) (index : Nat) (name : String)
    (decode : Json → Option Value) : Option Value :=
  match record.member index name with
  | some (some json) => decode json
  | _ => none

/-- A field with a default. -/
def defaulted (record : Json) (index : Nat) (name : String)
    (decode : Json → Option Value) (default : Value) : Option Value :=
  match record.member index name with
  | some (some json) => decode json
  | some none => some default
  | none => none

end Json

/-- Any token that is not registered is the catch-all. -/
def AddressKind.ofToken : String → AddressKind
  | "direct" => direct
  | "mapped" => mapped
  | "reflexive" => reflexive
  | "relay" => relay
  | _ => unknown

/-- Any token that is not registered is the catch-all. -/
def Provenance.ofToken : String → Provenance
  | "direct" => direct
  | "relay" => relay
  | "introducer" => introducer
  | _ => unknown

def Address.ofJson (json : Json) : Option Address :=
  if json.isRecord 3 then do
    let host ← json.defaulted 0 "host" Json.asText ""
    let port ← json.defaulted 1 "port" (Json.asUnsigned (2 ^ 16)) 0
    let kind ← json.defaulted 2 "kind" (Json.asToken AddressKind.ofToken)
      .unknown
    some { host, port, kind }
  else
    none

def PaymentClaim.ofJson (json : Json) : Option PaymentClaim :=
  if json.isRecord 3 then do
    let address ← json.defaulted 0 "address" Json.asText ""
    let spki ← json.defaulted 1 "spki" Json.asText ""
    let sig ← json.defaulted 2 "sig" Json.asText ""
    some { address, spki, sig }
  else
    none

def PeerEntry.ofJson (json : Json) : Option PeerEntry :=
  if json.isRecord 7 then do
    let peerId ← json.defaulted 0 "peer_id" Json.asText ""
    let addresses ← json.defaulted 1 "addresses"
      (Json.asItems Address.ofJson) []
    let networkId ← json.defaulted 2 "network_id" Json.asText ""
    let lastSeen ← json.defaulted 3 "last_seen" (Json.asUnsigned (2 ^ 64)) 0
    let via ← json.defaulted 4 "via" (Json.asToken Provenance.ofToken)
      .unknown
    let flags ← json.defaulted 5 "flags" (Json.asItems Json.asText) []
    let payment ← json.defaulted 6 "payment"
      (Json.asNullable PaymentClaim.ofJson) none
    some { peerId, addresses, networkId, lastSeen, via, flags, payment }
  else
    none

namespace PexMessage

/-- The message of a type, from the rest of its JSON. -/
def ofTagged (tag : String) (rest : Json) : Option PexMessage :=
  match tag with
  | "pex_handshake" =>
      if rest.isRecord 4 then do
        let version ← rest.required 0 "version" (Json.asUnsigned (2 ^ 32))
        let networkId ← rest.required 1 "network_id" Json.asText
        let interval ← rest.required 2 "interval" (Json.asUnsigned (2 ^ 32))
        let flags ← rest.defaulted 3 "flags" (Json.asItems Json.asText) []
        some (.pexHandshake version networkId interval flags)
      else
        none
  | "pex_snapshot" =>
      if rest.isRecord 1 then do
        let peers ← rest.required 0 "peers" (Json.asItems PeerEntry.ofJson)
        some (.pexSnapshot peers)
      else
        none
  | "pex_delta" =>
      if rest.isRecord 2 then do
        let added ← rest.required 0 "added" (Json.asItems PeerEntry.ofJson)
        let dropped ← rest.required 1 "dropped" (Json.asItems Json.asText)
        some (.pexDelta added dropped)
      else
        none
  | "pex_error" =>
      if rest.isRecord 2 then do
        let code ← rest.required 0 "code" (Json.asUnsigned (2 ^ 16))
        let message ← rest.required 1 "message" Json.asText
        some (.pexError code message)
      else
        none
  | _ => none

/-- The message a JSON value decodes to.  Its type is the field `type` of an
object, or the first item of an array. -/
def ofJson : Json → Option PexMessage
  | .object fields => do
      let tag ← (Json.object fields).required 0 "type" Json.asText
      ofTagged tag (.object (fields.filter fun field => field.1 ≠ "type"))
  | .array (tag :: rest) => do
      let tag ← tag.asText
      ofTagged tag (.array rest)
  | _ => none

end PexMessage

end DigPex
