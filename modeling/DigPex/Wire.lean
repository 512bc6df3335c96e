import DigPex.Json

/-!
# The wire

The four tagged messages, the JSON objects they serialize to and the
length-prefixed frame of the byte-stream binding.
-/

namespace DigPex

inductive PexMessage where
  /-- First message of a direction: version, network, declared interval and
  the sender's own flags. -/
  | pexHandshake (version : Nat) (networkId : String) (interval : Nat)
      (flags : List String)
  /-- First data message: a capped picture of the sender's first-hand set. -/
  | pexSnapshot (peers : List PeerEntry)
  /-- What changed relative to what the link was told. -/
  | pexDelta (added : List PeerEntry) (dropped : List String)
  /-- The advisory error envelope. -/
  | pexError (code : Nat) (message : String)
  deriving DecidableEq, Repr

namespace Address

def toJson (address : Address) : Json :=
  .object [
    ("host", .string address.host),
    ("port", .number (.posInt address.port)),
    ("kind", .string address.kind.asStr)]

end Address

namespace PaymentClaim

def toJson (claim : PaymentClaim) : Json :=
  .object [
    ("address", .string claim.address),
    ("spki", .string claim.spki),
    ("sig", .string claim.sig)]

end PaymentClaim

namespace PeerEntry

/-- The payment field is omitted when there is no claim. -/
def toJson (entry : PeerEntry) : Json :=
  .object ([
    ("peer_id", .string entry.peerId),
    ("addresses", .array (entry.addresses.map Address.toJson)),
    ("network_id", .string entry.networkId),
    ("last_seen", .number (.posInt entry.lastSeen)),
    ("via", .string entry.via.asStr),
    ("flags", .array (entry.flags.map .string))] ++
    (entry.payment.map fun claim => ("payment", claim.toJson)).toList)

/-- Bytes of the entry's JSON text. -/
def jsonLength (entry : PeerEntry) : Nat :=
  entry.toJson.render.length

end PeerEntry

namespace PexMessage

def toJson : PexMessage → Json
  | pexHandshake version networkId interval flags =>
      .object [
        ("type", .string "pex_handshake"),
        ("version", .number (.posInt version)),
        ("network_id", .string networkId),
        ("interval", .number (.posInt interval)),
        ("flags", .array (flags.map .string))]
  | pexSnapshot peers =>
      .object [
        ("type", .string "pex_snapshot"),
        ("peers", .array (peers.map PeerEntry.toJson))]
  | pexDelta added dropped =>
      .object [
        ("type", .string "pex_delta"),
        ("added", .array (added.map PeerEntry.toJson)),
        ("dropped", .array (dropped.map .string))]
  | pexError code message =>
      .object [
        ("type", .string "pex_error"),
        ("code", .number (.posInt code)),
        ("message", .string message)]

/-- The `type` tag of a message. -/
def typeTag : PexMessage → String
  | pexHandshake .. => "pex_handshake"
  | pexSnapshot _ => "pex_snapshot"
  | pexDelta _ _ => "pex_delta"
  | pexError _ _ => "pex_error"

/-- The entries a message carries. -/
def entries : PexMessage → List PeerEntry
  | pexSnapshot peers => peers
  | pexDelta added _ => added
  | _ => []

/-- The ids a message drops. -/
def dropped : PexMessage → List String
  | pexDelta _ dropped => dropped
  | _ => []

/-- Data messages are those whose spacing and size are enforced. -/
def isData : PexMessage → Bool
  | pexSnapshot _ | pexDelta _ _ => true
  | _ => false

/-- The bare JSON object as bytes. -/
def toJsonBytes (message : PexMessage) : List UInt8 :=
  message.toJson.render

/-- The length prefix: the body length as a big-endian `u32`. -/
def lengthPrefix (length : Nat) : List UInt8 :=
  (littleEndian 4 (length % 2 ^ 32)).reverse

/-- The byte-stream frame: length prefix and JSON body. -/
def encode (message : PexMessage) : List UInt8 :=
  lengthPrefix message.toJsonBytes.length ++ message.toJsonBytes

theorem length_encode (message : PexMessage) :
    message.encode.length = 4 + message.toJsonBytes.length := by
  simp [encode, lengthPrefix, littleEndian]

section Lengths

private theorem length_renderString_type :
    (Json.renderString "type").length = 6 := by
  decide +kernel

private theorem length_render_entries (entries : List PeerEntry) :
    (Json.array (entries.map PeerEntry.toJson)).render.length =
      Json.bracketedLength (entries.map PeerEntry.jsonLength) := by
  rw [Json.length_render_array, List.map_map]
  rfl

private theorem length_render_ids (ids : List String) :
    (Json.array (ids.map .string)).render.length =
      Json.bracketedLength (ids.map fun id =>
        (Json.renderString id).length) := by
  rw [Json.length_render_array, List.map_map]
  simp only [Function.comp_def, Json.render]

theorem length_toJsonBytes_snapshot (peers : List PeerEntry) :
    (pexSnapshot peers).toJsonBytes.length =
      32 + Json.bracketedLength (peers.map PeerEntry.jsonLength) := by
  have tag : (Json.string "pex_snapshot").render.length = 14 := by
    decide +kernel
  have peersName : (Json.renderString "peers").length = 7 := by
    decide +kernel
  have items := length_render_entries peers
  simp only [toJsonBytes, toJson, Json.length_render_object, List.map_cons,
    List.map_nil, length_renderString_type, tag, peersName, items]
  simp only [Json.bracketedLength, List.sum_cons, List.sum_nil,
    List.length_cons, List.length_nil, List.length_map]
  omega

theorem length_toJsonBytes_delta (added : List PeerEntry)
    (dropped : List String) :
    (pexDelta added dropped).toJsonBytes.length =
      40 + Json.bracketedLength (added.map PeerEntry.jsonLength) +
        Json.bracketedLength (dropped.map fun id =>
          (Json.renderString id).length) := by
  have tag : (Json.string "pex_delta").render.length = 11 := by
    decide +kernel
  have addedName : (Json.renderString "added").length = 7 := by
    decide +kernel
  have droppedName : (Json.renderString "dropped").length = 9 := by
    decide +kernel
  have entries := length_render_entries added
  have ids := length_render_ids dropped
  simp only [toJsonBytes, toJson, Json.length_render_object, List.map_cons,
    List.map_nil, length_renderString_type, tag, addedName, droppedName,
    entries, ids]
  simp only [Json.bracketedLength, List.sum_cons, List.sum_nil,
    List.length_cons, List.length_nil, List.length_map]
  omega

end Lengths

end PexMessage

end DigPex
