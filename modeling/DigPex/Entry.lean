import DigPex.Caps
import DigPex.Error
import DigPex.Payment

/-!
# Peer entries

The unit of exchange, its receiver-side validation, and the advertised-content
fingerprint.  Inbound entries decode tolerantly, so an entry of any shape is a
value here and `PeerEntry.validate` decides keep or skip.
-/

namespace DigPex

/-- How a candidate address was learned. -/
inductive AddressKind where
  | direct
  | mapped
  | reflexive
  | relay
  | unknown
  deriving DecidableEq, Repr

namespace AddressKind

/-- The lowercase wire token. -/
def asStr : AddressKind → String
  | direct => "direct"
  | mapped => "mapped"
  | reflexive => "reflexive"
  | relay => "relay"
  | unknown => "unknown"

def isRegistered : AddressKind → Bool
  | unknown => false
  | _ => true

end AddressKind

/-- The advertiser's provenance for an entry.  There is no token for an entry
learned through peer exchange itself. -/
inductive Provenance where
  | direct
  | relay
  | introducer
  | unknown
  deriving DecidableEq, Repr

namespace Provenance

/-- The lowercase wire token. -/
def asStr : Provenance → String
  | direct => "direct"
  | relay => "relay"
  | introducer => "introducer"
  | unknown => "unknown"

def isRegistered : Provenance → Bool
  | unknown => false
  | _ => true

end Provenance

/-- One candidate address. -/
structure Address where
  host : String
  port : Nat
  kind : AddressKind
  deriving DecidableEq, Repr

namespace Address

/-- A directly dialable candidate. -/
def direct (host : String) (port : Nat) : Address :=
  { host := host
    port := port
    kind := .direct }

def isValid (address : Address) : Bool :=
  !address.host.isEmpty && address.port != 0 && address.kind.isRegistered

/-- The triple by which addresses are sorted before hashing. -/
def sortKey (address : Address) : String ×ₗ Nat ×ₗ String :=
  toLex (address.host, toLex (address.port, address.kind.asStr))

end Address

/-- The unit of exchange: what an advertiser says about one peer. -/
structure PeerEntry where
  peerId : String
  addresses : List Address
  networkId : String
  /-- Unix seconds of the advertiser's last first-hand evidence. -/
  lastSeen : Nat
  via : Provenance
  flags : List String
  payment : Option PaymentClaim
  deriving DecidableEq, Repr

/-- The receiver-side context an inbound entry is validated against. -/
structure ValidateCtx where
  receiverPeerId : String
  senderPeerId : String
  networkId : String
  nowSecs : Nat

/-- Whether a string is exactly 64 lowercase hexadecimal characters. -/
def isHex64 (text : String) : Bool :=
  text.utf8ByteSize == 64 &&
    text.toList.all fun character =>
      character.isDigit || ('a' ≤ character && character ≤ 'f')

namespace PeerEntry

/-- An entry without addresses, flags or payment claim. -/
def new (peerId networkId : String) (lastSeen : Nat) (via : Provenance) :
    PeerEntry :=
  { peerId := peerId
    addresses := []
    networkId := networkId
    lastSeen := lastSeen
    via := via
    flags := []
    payment := none }

def withAddress (entry : PeerEntry) (address : Address) : PeerEntry :=
  { entry with addresses := entry.addresses ++ [address] }

/-- Keep the entry or say why a conformant receiver skips it. -/
def validate (entry : PeerEntry) (ctx : ValidateCtx) :
    Except EntrySkip Unit :=
  if !isHex64 entry.peerId then
    .error .badPeerId
  else if entry.peerId = ctx.receiverPeerId ∨
      entry.peerId = ctx.senderPeerId then
    .error .selfOrPartner
  else if pexMaxAddresses < entry.addresses.length then
    .error .tooManyAddresses
  else if entry.addresses.any fun address => !address.isValid then
    .error .badAddress
  else if pexMaxFlags < entry.flags.length ∨
      entry.flags.any (fun flag => pexMaxFlagLen < flag.utf8ByteSize) then
    .error .tooManyFlags
  else if entry.networkId ≠ ctx.networkId then
    .error .networkMismatch
  else if !entry.via.isRegistered then
    .error .badVia
  else if entry.payment.any fun claim => !claim.withinCaps then
    .error .oversizePayment
  -- A future timestamp is clamped by the caller; only the past is too old.
  else if entry.lastSeen < ctx.nowSecs ∧
      pexMaxEntryAge < ctx.nowSecs - entry.lastSeen then
    .error .tooOld
  else
    .ok ()

/-- A copy with a future `lastSeen` clamped to the receiver's clock. -/
def clamped (entry : PeerEntry) (nowSecs : Nat) : PeerEntry :=
  if nowSecs < entry.lastSeen then
    { entry with lastSeen := nowSecs }
  else
    entry

@[simp] theorem clamped_peerId (entry : PeerEntry) (nowSecs : Nat) :
    (entry.clamped nowSecs).peerId = entry.peerId := by
  unfold clamped
  split <;> rfl

@[simp] theorem clamped_lastSeen (entry : PeerEntry) (nowSecs : Nat) :
    (entry.clamped nowSecs).lastSeen = min entry.lastSeen nowSecs := by
  unfold clamped
  split <;> grind

/-- The part of validation that does not look at the clock. -/
structure WellFormed (entry : PeerEntry)
    (receiverPeerId senderPeerId networkId : String) : Prop where
  hexId : isHex64 entry.peerId = true
  notReceiver : entry.peerId ≠ receiverPeerId
  notSender : entry.peerId ≠ senderPeerId
  addressCount : entry.addresses.length ≤ pexMaxAddresses
  addressesValid : ∀ address ∈ entry.addresses, address.isValid = true
  flagCount : entry.flags.length ≤ pexMaxFlags
  flagLengths : ∀ flag ∈ entry.flags, flag.utf8ByteSize ≤ pexMaxFlagLen
  network : entry.networkId = networkId
  provenance : entry.via.isRegistered = true
  claim : ∀ claim, entry.payment = some claim → claim.withinCaps = true

/-- Validation splits into well-formedness, which no clock can change, and
freshness at the receiver's clock. -/
theorem validate_eq_ok_iff (entry : PeerEntry) (ctx : ValidateCtx) :
    entry.validate ctx = .ok () ↔
      entry.WellFormed ctx.receiverPeerId ctx.senderPeerId ctx.networkId ∧
        ctx.nowSecs ≤ entry.lastSeen + pexMaxEntryAge := by
  unfold validate
  constructor
  · intro accepted
    repeat' split at accepted
    all_goals try cases accepted
    rename_i hexId others addressCount addressesValid flagLimits network
      provenance claim fresh
    refine ⟨⟨by simpa using hexId, fun same => others (.inl same),
      fun same => others (.inr same), by omega, by simpa using addressesValid,
      by omega, ?_, not_not.mp network, by simpa using provenance, ?_⟩,
      by omega⟩
    · simpa using fun overlong => flagLimits (.inr overlong)
    · intro carried payment
      simpa [payment] using claim
  · rintro ⟨wellFormed, fresh⟩
    have flagLengths : ¬entry.flags.any
        (fun flag => pexMaxFlagLen < flag.utf8ByteSize) = true := by
      simpa using wellFormed.flagLengths
    have flagCount := wellFormed.flagCount
    rw [if_neg (by simp [wellFormed.hexId]),
      if_neg (by simp [wellFormed.notReceiver, wellFormed.notSender]),
      if_neg (by simpa using wellFormed.addressCount),
      if_neg (by simpa using wellFormed.addressesValid),
      if_neg (by rintro (tooMany | overlong)
                 · omega
                 · exact flagLengths overlong),
      if_neg (by simp [wellFormed.network]),
      if_neg (by simp [wellFormed.provenance]), if_neg, if_neg (by omega)]
    intro overlong
    obtain ⟨claim, payment, tooLong⟩ := (Option.any_eq_true _ _).mp overlong
    simp [wellFormed.claim claim payment] at tooLong

end PeerEntry

/-! ## The advertised-content fingerprint -/

/-- A value fed to a hasher. -/
inductive HashInput where
  | usize (value : Nat)
  | u16 (value : Nat)
  | u8 (value : Nat)
  | str (text : String)
  deriving DecidableEq, Repr

/-- The UTF-8 bytes of a text. -/
def utf8 (text : String) : List UInt8 :=
  text.toList.flatMap String.utf8EncodeChar

theorem length_utf8 (text : String) :
    (utf8 text).length = text.utf8ByteSize := by
  rw [← String.size_toByteArray, ← String.utf8Encode_toList]
  simp [utf8, List.utf8Encode]

/-- The `width` little-endian bytes of a number. -/
def littleEndian (width value : Nat) : List UInt8 :=
  (List.range width).map fun index => UInt8.ofNat (value / 256 ^ index)

/-- The bytes by which the standard library feeds one value. -/
def HashInput.bytes : HashInput → List UInt8
  | .usize value => littleEndian 8 value
  | .u16 value => littleEndian 2 value
  | .u8 value => littleEndian 1 value
  | .str text => utf8 text ++ [255]

/-- The fixed-seed hasher of the standard library, whose algorithm is
unspecified: a function of the bytes it was fed. -/
class DefaultHasher where
  finish : List UInt8 → UInt64

/-- An address as a display text. -/
def Address.fingerprint (address : Address) : String :=
  String.intercalate "|"
    [address.host, Nat.repr address.port, address.kind.asStr]

namespace PeerEntry

/-- The advertised content as one display text: the sorted addresses, the
sorted flags and the payment claim, never `lastSeen`. -/
def fingerprint (entry : PeerEntry) : String :=
  let addresses := (entry.addresses.map Address.fingerprint).insertionSort
    (· ≤ ·)
  let flags := entry.flags.insertionSort (· ≤ ·)
  let payment := (entry.payment.map fun claim =>
    String.intercalate "|" claim.wireParts).getD ""
  String.intercalate "#"
    [String.intercalate "," addresses, String.intercalate "," flags, payment]

/-- The values `fingerprint_hash` feeds to its hasher, in order: the sorted
addresses, the sorted flags and the payment claim, never `lastSeen`. -/
def fingerprintFeed (entry : PeerEntry) : List HashInput :=
  let addresses := entry.addresses.insertionSort
    fun left right => left.sortKey ≤ right.sortKey
  let flags := entry.flags.insertionSort (· ≤ ·)
  [HashInput.usize addresses.length] ++
    addresses.flatMap (fun address =>
      [HashInput.str address.host, .u16 address.port,
        .str address.kind.asStr]) ++
    [HashInput.usize flags.length] ++
    flags.map HashInput.str ++
    match entry.payment with
    | some claim => .usize claim.wireParts.length :: claim.wireParts.map .str
    | none => [.u8 0]

/-- The hash by which a told entry is compared with the current one. -/
def fingerprintHash [DefaultHasher] (entry : PeerEntry) : UInt64 :=
  DefaultHasher.finish (entry.fingerprintFeed.flatMap HashInput.bytes)

end PeerEntry

end DigPex
