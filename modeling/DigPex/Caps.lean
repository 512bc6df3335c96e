import Mathlib

/-!
# Protocol constants and message caps

The frozen version-1 constants of `caps.rs` and the frame bound.
-/

namespace DigPex

def pexVersion : Nat := 1

/-- Cap on the entries of a delta's `added` list. -/
def pexMaxAdded : Nat := 50

/-- Cap on the ids of a delta's `dropped` list. -/
def pexMaxDropped : Nat := 50

/-- Cap on the entries of a snapshot. -/
def pexMaxSnapshot : Nat := 200

def pexMaxAddresses : Nat := 8

def pexMaxFlags : Nat := 8

/-- Cap on the bytes of one flag token. -/
def pexMaxFlagLen : Nat := 32

/-- Cap on the bytes of one message body. -/
def pexMaxFrame : Nat := 262144

def pexDefaultInterval : Nat := 60

/-- Interval floor and ceiling, in seconds. -/
def pexMinInterval : Nat := 30

def pexMaxInterval : Nat := 3600

/-- Tolerance of the receiver's arrival floor, in seconds. -/
def pexArrivalGrace : Nat := 5

/-- Greatest age, in seconds, of an advertised or accepted entry. -/
def pexMaxEntryAge : Nat := 1800

/-- Strikes at which a direction is muted. -/
def pexViolationLimit : Nat := 3

/-- Cap on one link's `received` accumulator. -/
def pexMaxReceivedPerLink : Nat := 4096

/-- Cap on the engine-wide `hints` map. -/
def pexMaxHints : Nat := 16384

/-- Whether a frame body of `length` bytes is within the bound. -/
def frameWithinBound (length : Nat) : Bool :=
  length ≤ pexMaxFrame

end DigPex
