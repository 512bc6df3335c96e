import Mathlib

/-!
# Error codes and skip reasons
-/

namespace DigPex

/-- The advisory `pex_error` codes. -/
inductive PexErrorCode where
  | badMessage
  | unsupportedVersion
  | rateViolation
  | oversized
  | networkMismatch
  | protocolViolation
  deriving DecidableEq, Repr

namespace PexErrorCode

/-- The numeric code on the wire. -/
def asU16 : PexErrorCode → Nat
  | badMessage => 1
  | unsupportedVersion => 2
  | rateViolation => 3
  | oversized => 4
  | networkMismatch => 5
  | protocolViolation => 6

/-- The text of the `pex_error.message` field. -/
def message : PexErrorCode → String
  | badMessage => "bad message"
  | unsupportedVersion => "unsupported version"
  | rateViolation => "rate violation"
  | oversized => "oversized"
  | networkMismatch => "network mismatch"
  | protocolViolation => "protocol violation"

/-- Whether the code is misbehaviour that counts a strike. -/
def isStrike : PexErrorCode → Bool
  | badMessage | rateViolation | oversized | protocolViolation => true
  | unsupportedVersion | networkMismatch => false

theorem asU16_injective : Function.Injective asU16 := by
  intro left right same
  cases left <;> cases right <;> first | rfl | cases same

end PexErrorCode

/-- Why one inbound entry is skipped. -/
inductive EntrySkip where
  | badPeerId
  | selfOrPartner
  | badAddress
  | tooManyAddresses
  | tooManyFlags
  | networkMismatch
  | badVia
  | tooOld
  | oversizePayment
  deriving DecidableEq, Repr

end DigPex
