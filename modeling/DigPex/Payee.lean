import DigPex.Concrete
import DigPex.Library.Framing

/-!
# Who is paid

A payment claim carries the key that attests it, and a verifier recomputes the
peer id from that key before it checks the signature.  The bytes that are
signed name the peer, the network and the address, each behind its length, so
that one signature attests one designation.
-/

namespace DigPex

/-- The functions of other packages that claims rest on. -/
class ClaimPrimitives where
  sha256 : List UInt8 → List UInt8
  base64Encode : List UInt8 → String
  base64Decode : String → Option (List UInt8)

/-- The injected check of a signature: key, message and signature. -/
abbrev SignatureVerifier := List UInt8 → List UInt8 → List UInt8 → Bool

/-- Why a claim did not yield a payment address. -/
inductive PaymentClaimError where
  | notPresent
  | malformed
  | peerIdMismatch
  | badSignature
  deriving DecidableEq, Repr

/-- The domain separator of the canonical bytes. -/
def paymentSigContext : List UInt8 :=
  utf8 "dig-pex/payment-address/v1\x00"

/-- A field length as a big-endian `u32`, saturating. -/
def fieldLength (length : Nat) : List UInt8 :=
  (littleEndian 4 (min length (2 ^ 32 - 1))).reverse

/-- The bytes a peer signs to designate an address as its payee. -/
def paymentSigningBytes (peerId networkId address : String) : List UInt8 :=
  paymentSigContext ++ [peerId, networkId, address].flatMap fun field =>
    fieldLength field.utf8ByteSize ++ utf8 field

/-- A byte as two lowercase hex digits. -/
def hexByte (byte : UInt8) : List Char :=
  [Nat.digitChar (byte.toNat / 16), Nat.digitChar (byte.toNat % 16)]

section Claims

variable [ClaimPrimitives]

open ClaimPrimitives

/-- The peer id a key induces: the hash of the key in hex. -/
def peerIdForSpki (spkiDer : List UInt8) : String :=
  String.ofList ((sha256 spkiDer).flatMap hexByte)

namespace PaymentClaim

/-- A claim naming an address, attested by a key with a signature. -/
def new (address : String) (spkiDer signature : List UInt8) : PaymentClaim :=
  { address := address
    spki := base64Encode spkiDer
    sig := base64Encode signature }

/-- The payee address, only if the claim is the one the peer made for the
network. -/
def verify (claim : PaymentClaim) (peerId networkId : String)
    (verifier : SignatureVerifier) : Except PaymentClaimError String :=
  if !claim.withinCaps then
    .error .malformed
  else
    match base64Decode claim.spki, base64Decode claim.sig with
    | some spkiDer, some signature =>
        if peerIdForSpki spkiDer ≠ peerId then
          .error .peerIdMismatch
        else if !verifier spkiDer
            (paymentSigningBytes peerId networkId claim.address)
            signature then
          .error .badSignature
        else
          .ok claim.address
    | _, _ => .error .malformed

end PaymentClaim

namespace PeerEntry

def withPayment (entry : PeerEntry) (claim : PaymentClaim) : PeerEntry :=
  { entry with payment := some claim }

/-- The payment address of an entry, if its claim verifies. -/
def verifiedPaymentAddress (entry : PeerEntry)
    (verifier : SignatureVerifier) : Except PaymentClaimError String :=
  match entry.payment with
  | none => .error .notPresent
  | some claim => claim.verify entry.peerId entry.networkId verifier

end PeerEntry

/-- The checks a claim passes: its caps, the key it decodes to, the peer id of
that key and the signature over the designation. -/
structure PaymentClaim.Attested (claim : PaymentClaim)
    (peerId networkId : String) (verifier : SignatureVerifier)
    (spkiDer signature : List UInt8) : Prop where
  capped : claim.withinCaps = true
  key : base64Decode claim.spki = some spkiDer
  decoded : base64Decode claim.sig = some signature
  named : peerIdForSpki spkiDer = peerId
  signed : verifier spkiDer
    (paymentSigningBytes peerId networkId claim.address) signature = true

theorem PaymentClaim.verify_eq_ok_iff (claim : PaymentClaim)
    (peerId networkId address : String) (verifier : SignatureVerifier) :
    claim.verify peerId networkId verifier = .ok address ↔
      claim.address = address ∧ ∃ spkiDer signature,
        claim.Attested peerId networkId verifier spkiDer signature := by
  unfold verify
  constructor
  · intro yielded
    split at yielded
    · cases yielded
    · rename_i capped
      split at yielded
      · rename_i spkiDer signature key decoded
        split at yielded
        · cases yielded
        · rename_i named
          split at yielded
          · cases yielded
          · rename_i signed
            refine ⟨Except.ok.inj yielded, spkiDer, signature, ?_, key,
              decoded, ?_, ?_⟩
            · simpa using capped
            · simpa using named
            · simpa using signed
      · cases yielded
  · rintro ⟨rfl, spkiDer, signature, capped, key, decoded, named, signed⟩
    simp [capped, key, decoded, named, signed]

theorem PeerEntry.verifiedPaymentAddress_eq_ok_iff (entry : PeerEntry)
    (address : String) (verifier : SignatureVerifier) :
    entry.verifiedPaymentAddress verifier = .ok address ↔
      ∃ claim spkiDer signature, entry.payment = some claim ∧
        claim.address = address ∧
          claim.Attested entry.peerId entry.networkId verifier spkiDer
            signature := by
  unfold verifiedPaymentAddress
  cases entry.payment with
  | none => simp
  | some claim =>
      simp only [claim.verify_eq_ok_iff, Option.some.injEq]
      constructor
      · rintro ⟨same, spkiDer, signature, attested⟩
        exact ⟨claim, spkiDer, signature, rfl, same, attested⟩
      · rintro ⟨_, spkiDer, signature, rfl, same, attested⟩
        exact ⟨same, spkiDer, signature, attested⟩

end Claims

/-! ## The canonical bytes name one designation -/

theorem utf8_injective : Function.Injective utf8 := by
  intro left right same
  have bytes := congrArg List.toByteArray same
  apply String.toByteArray_inj.mp
  rw [← String.utf8Encode_toList, ← String.utf8Encode_toList]
  exact bytes

theorem littleEndian_succ (width value : Nat) :
    littleEndian (width + 1) value =
      UInt8.ofNat value :: littleEndian width (value / 256) := by
  simp [littleEndian, List.range_succ_eq_map, Function.comp_def,
    Nat.pow_succ', Nat.div_div_eq_div_mul]

theorem littleEndian_injective {width left right : Nat}
    (leftSmall : left < 256 ^ width) (rightSmall : right < 256 ^ width)
    (same : littleEndian width left = littleEndian width right) :
    left = right := by
  induction width generalizing left right with
  | zero => omega
  | succ width induction =>
      rw [littleEndian_succ, littleEndian_succ] at same
      obtain ⟨low, high⟩ := List.cons.inj same
      have remainders : left % 256 = right % 256 := by
        simpa using congrArg UInt8.toNat low
      have quotients := induction
        (Nat.div_lt_of_lt_mul (by rwa [← Nat.pow_succ']))
        (Nat.div_lt_of_lt_mul (by rwa [← Nat.pow_succ'])) high
      omega

theorem length_fieldLength (length : Nat) :
    (fieldLength length).length = 4 := by
  simp [fieldLength, littleEndian]

theorem fieldLength_inj {left right : Nat} (leftSmall : left < 2 ^ 32)
    (rightSmall : right < 2 ^ 32)
    (same : fieldLength left = fieldLength right) : left = right := by
  have saturated := littleEndian_injective (by omega) (by omega)
    (List.reverse_injective same)
  omega

/-- The header of a signed field. -/
def fieldHeader : LengthHeader :=
  { write := fieldLength
    width := 4
    bound := 2 ^ 32
    length_write := length_fieldLength
    injective := fun _ _ => fieldLength_inj }

/-- One byte string is signed for one designation. -/
theorem paymentSigningBytes_inj {peerId networkId address : String}
    {otherPeer otherNetwork otherAddress : String}
    (short : ∀ field ∈ [peerId, networkId, address],
      field.utf8ByteSize < 2 ^ 32)
    (otherShort : ∀ field ∈ [otherPeer, otherNetwork, otherAddress],
      field.utf8ByteSize < 2 ^ 32)
    (same : paymentSigningBytes peerId networkId address =
      paymentSigningBytes otherPeer otherNetwork otherAddress) :
    peerId = otherPeer ∧ networkId = otherNetwork ∧
      address = otherAddress := by
  have framed : ∀ fields : List String,
      (fields.flatMap fun field =>
        fieldLength field.utf8ByteSize ++ utf8 field) =
        (fields.map utf8).flatMap fieldHeader.frame := by
    intro fields
    rw [List.flatMap_map]
    congr 1
    funext field
    rw [LengthHeader.frame, length_utf8]
    rfl
  have fields := List.append_cancel_left same
  rw [framed, framed] at fields
  have bounded : ∀ {fields : List String},
      (∀ field ∈ fields, field.utf8ByteSize < 2 ^ 32) →
        ∀ bytes ∈ fields.map utf8, bytes.length < fieldHeader.bound := by
    intro fields short bytes member
    obtain ⟨field, listed, rfl⟩ := List.mem_map.mp member
    rw [length_utf8]
    exact short field listed
  have equal := LengthHeader.flatMap_frame_inj (bounded short)
    (bounded otherShort) rfl fields
  have texts := List.map_injective_iff.mpr utf8_injective equal
  simpa using texts

theorem digitChar_inj {left right : Nat} (leftSmall : left < 16)
    (rightSmall : right < 16)
    (same : Nat.digitChar left = Nat.digitChar right) : left = right := by
  interval_cases left <;> interval_cases right <;> first | rfl | cases same

theorem hexByte_injective : Function.Injective hexByte := by
  intro left right same
  have digits := List.cons.inj same
  have high := digitChar_inj (by have := left.toNat_lt; omega)
    (by have := right.toNat_lt; omega) digits.1
  have low := digitChar_inj (by omega) (by omega) (List.cons.inj digits.2).1
  apply UInt8.toNat_inj.mp
  omega

/-! ## A relay cannot redirect a payee -/

/-- What the holders of keys have done: the messages they signed, and the
addresses they designated, on which network. -/
structure Holders where
  signed : List UInt8 → List UInt8 → Prop
  designated : List UInt8 → String → String → Prop

section Payees

variable [ClaimPrimitives]

open ClaimPrimitives

theorem sha256_eq_of_peerIdForSpki_eq {left right : List UInt8}
    (same : peerIdForSpki left = peerIdForSpki right) :
    sha256 left = sha256 right := by
  have injective : Function.Injective fun bytes : List UInt8 =>
      bytes.flatMap hexByte :=
    List.flatMap_injective_of_length (fun _ => rfl) Nat.two_pos
      hexByte_injective
  exact injective (String.ofList_injective same)

namespace Holders

/-- A verifier accepts only what the holder of the key signed. -/
def Trusts (holders : Holders) (verifier : SignatureVerifier) : Prop :=
  ∀ spkiDer message signature, verifier spkiDer message signature = true →
    holders.signed spkiDer message

/-- Among the messages that start with the payment context, the holder of a
key signs only the signing bytes of designations it made. -/
def SignsDesignations (holders : Holders) (spkiDer : List UInt8) : Prop :=
  ∀ message, holders.signed spkiDer message →
    paymentSigContext <+: message →
      ∃ networkId address, holders.designated spkiDer networkId address ∧
        (∀ field ∈ [peerIdForSpki spkiDer, networkId, address],
          field.utf8ByteSize < 2 ^ 32) ∧
        message =
          paymentSigningBytes (peerIdForSpki spkiDer) networkId address

end Holders

/-- No two of the keys have one hash. -/
def CollisionFree (keys : List UInt8 → Prop) : Prop :=
  ∀ left right, keys left → keys right → sha256 left = sha256 right →
    left = right

theorem designated_of_verified {entry : PeerEntry} {address : String}
    {verifier : SignatureVerifier} {holders : Holders}
    {keys : List UInt8 → Prop} {spkiDer : List UInt8}
    (trusts : holders.Trusts verifier)
    (honest : holders.SignsDesignations spkiDer)
    (collisionFree : CollisionFree keys)
    (holderKey : keys spkiDer)
    (carriedKey : ∀ claim carried, entry.payment = some claim →
      base64Decode claim.spki = some carried → keys carried)
    (named : peerIdForSpki spkiDer = entry.peerId)
    (short : entry.networkId.utf8ByteSize < 2 ^ 32)
    (yielded : entry.verifiedPaymentAddress verifier = .ok address) :
    holders.designated spkiDer entry.networkId address := by
  obtain ⟨claim, carried, signature, payment, rfl, attested⟩ :=
    (entry.verifiedPaymentAddress_eq_ok_iff _ _).mp yielded
  have same : carried = spkiDer := by
    apply collisionFree _ _ (carriedKey claim carried payment attested.key)
      holderKey
    apply sha256_eq_of_peerIdForSpki_eq
    rw [attested.named, named]
  subst same
  have signed := trusts _ _ _ attested.signed
  obtain ⟨networkId, designated, made, shortFields, message⟩ :=
    honest _ signed (List.prefix_append _ _)
  have addressShort : claim.address.utf8ByteSize < 2 ^ 32 := by
    have capped := attested.capped
    simp only [PaymentClaim.withinCaps, Bool.and_eq_true, decide_eq_true_eq]
      at capped
    exact capped.1.1.trans_lt (by decide)
  have peerShort := shortFields _ List.mem_cons_self
  rw [named] at peerShort message
  have fields : ∀ field ∈ [entry.peerId, entry.networkId, claim.address],
      field.utf8ByteSize < 2 ^ 32 := by
    simpa using ⟨peerShort, short, addressShort⟩
  rw [named] at shortFields
  obtain ⟨_, rfl, rfl⟩ := paymentSigningBytes_inj fields shortFields message
  exact made

/-- Who is paid.  An entry yields an address only if the holder of the key
behind its peer id designated the address on its network, whatever was edited
or re-assembled into the entry; without any assumption, only if the key it
carries hashes to its peer id; and an unmodified claim of the peer does yield
its address. -/
theorem payee_by_designation (verifier : SignatureVerifier)
    (entry : PeerEntry) (address : String) :
    (∀ (holders : Holders) (keys : List UInt8 → Prop)
        (spkiDer : List UInt8),
      holders.Trusts verifier → holders.SignsDesignations spkiDer →
        CollisionFree keys → keys spkiDer →
          (∀ claim carried, entry.payment = some claim →
            base64Decode claim.spki = some carried → keys carried) →
            peerIdForSpki spkiDer = entry.peerId →
              entry.networkId.utf8ByteSize < 2 ^ 32 →
                entry.verifiedPaymentAddress verifier = .ok address →
                  holders.designated spkiDer entry.networkId address) ∧
      (entry.verifiedPaymentAddress verifier = .ok address →
        ∃ claim carried, entry.payment = some claim ∧
          base64Decode claim.spki = some carried ∧
            peerIdForSpki carried = entry.peerId) ∧
      ∀ spkiDer signature,
        base64Decode (base64Encode spkiDer) = some spkiDer →
          base64Decode (base64Encode signature) = some signature →
            entry.payment = some (.new address spkiDer signature) →
              (PaymentClaim.new address spkiDer signature).withinCaps =
                  true →
                entry.peerId = peerIdForSpki spkiDer →
                  verifier spkiDer (paymentSigningBytes entry.peerId
                      entry.networkId address) signature = true →
                    entry.verifiedPaymentAddress verifier =
                      .ok address := by
  refine ⟨?_, ?_, ?_⟩
  · intro holders keys spkiDer trusts honest collisionFree holderKey
      carriedKey named short yielded
    exact designated_of_verified trusts honest collisionFree holderKey
      carriedKey named short yielded
  · intro yielded
    obtain ⟨claim, carried, _, payment, _, attested⟩ :=
      (entry.verifiedPaymentAddress_eq_ok_iff _ _).mp yielded
    exact ⟨claim, carried, payment, attested.key, attested.named⟩
  · intro spkiDer signature key decoded payment capped named signed
    apply (entry.verifiedPaymentAddress_eq_ok_iff _ _).mpr
    exact ⟨_, spkiDer, signature, payment, rfl, capped, key, decoded,
      named.symm, signed⟩

end Payees

/-- SHA-256 and standard base64. -/
@[reducible] def standardPrimitives : ClaimPrimitives :=
  { sha256 := Sha256.digest
    base64Encode := fun bytes => String.ofList (Base64.encodeChars bytes)
    base64Decode := fun text => Base64.decodeChars text.toList }

/-- The published digest of the empty input, in hex. -/
example : @peerIdForSpki standardPrimitives [] =
    "e3b0c44298fc1c149afbf4c8996fb92427ae41e4649b934ca495991b7852b855" := by
  decide +kernel

/-- A key that has designated one address yields it, and by designation. -/
theorem payee_by_designation_spki :
    let spkiDer := utf8 "spki"
    let peerId := @peerIdForSpki standardPrimitives spkiDer
    let message := paymentSigningBytes peerId "mainnet" "xch1payee"
    let verifier : SignatureVerifier := fun key signed signature =>
      key = spkiDer && signed = message && signature = [1, 2, 3]
    let holders : Holders :=
      { signed := fun key signed => key = spkiDer ∧ signed = message
        designated := fun key networkId address =>
          key = spkiDer ∧ networkId = "mainnet" ∧ address = "xch1payee" }
    let entry := (PeerEntry.new peerId "mainnet" 1000 .direct).withPayment
      (@PaymentClaim.new standardPrimitives "xch1payee" spkiDer [1, 2, 3])
    @PeerEntry.verifiedPaymentAddress standardPrimitives entry verifier =
        .ok "xch1payee" ∧
      holders.designated spkiDer entry.networkId "xch1payee" := by
  intro spkiDer peerId message verifier holders entry
  have parts := @payee_by_designation standardPrimitives verifier entry
    "xch1payee"
  have yielded := parts.2.2 spkiDer [1, 2, 3] (by decide +kernel)
    (by decide +kernel) rfl (by decide +kernel) rfl
    (by simp [verifier, entry, message, PeerEntry.withPayment, PeerEntry.new])
  refine ⟨yielded, ?_⟩
  refine parts.1 holders (fun key => key = spkiDer) spkiDer ?_ ?_ ?_ rfl ?_
    rfl (by decide) yielded
  · intro key signed signature accepted
    simp only [verifier, Bool.and_eq_true, decide_eq_true_eq] at accepted
    exact accepted.1
  · rintro signed ⟨_, rfl⟩ _
    exact ⟨"mainnet", "xch1payee", ⟨rfl, rfl, rfl⟩, by decide +kernel, rfl⟩
  · rintro left right rfl rfl _
    rfl
  · rintro claim carried ⟨⟩ decoded
    have key : @ClaimPrimitives.base64Decode standardPrimitives
        (@ClaimPrimitives.base64Encode standardPrimitives spkiDer) =
          some spkiDer := by
      decide +kernel
    exact Option.some.inj (decoded.symm.trans key)

end DigPex
