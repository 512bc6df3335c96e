import Mathlib

/-!
# Payment claims

The carried claim and its size caps.  Lengths are byte counts of the UTF-8
text, as `str::len` counts them.
-/

namespace DigPex

def pexMaxPaymentAddressLen : Nat := 128

def pexMaxPaymentSpkiLen : Nat := 512

def pexMaxPaymentSigLen : Nat := 256

/-- A peer's self-signed designation of where to pay it: the payee address,
the base64 key and the base64 signature. -/
structure PaymentClaim where
  address : String
  spki : String
  sig : String
  deriving DecidableEq, Repr

namespace PaymentClaim

/-- The three wire fields in order. -/
def wireParts (claim : PaymentClaim) : List String :=
  [claim.address, claim.spki, claim.sig]

/-- Every field is within its cap. -/
def withinCaps (claim : PaymentClaim) : Bool :=
  claim.address.utf8ByteSize ≤ pexMaxPaymentAddressLen &&
    claim.spki.utf8ByteSize ≤ pexMaxPaymentSpkiLen &&
    claim.sig.utf8ByteSize ≤ pexMaxPaymentSigLen

end PaymentClaim

end DigPex
