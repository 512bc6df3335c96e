import DigPex.Caps

/-!
# Intervals, floors and jitter

Intervals are seconds and timestamps are milliseconds, as in `timer.rs`.  Every
bound on the cadence rests on one comparison: a sender's effective interval is
never below the clamped interval it declared, while the receiver's floor is
that clamped interval less the grace.
-/

namespace DigPex

/-- Clamp a declared interval into the legal range. -/
def clampInterval (secs : Nat) : Nat :=
  max pexMinInterval (min secs pexMaxInterval)

/-- The spacing a sender must honour for its own data messages: its own
interval, the remote's once known, and the hard floor. -/
def effectiveIntervalSecs (ownDeclared : Nat)
    (remoteDeclared : Option Nat) : Nat :=
  let own := clampInterval ownDeclared
  let remote := (remoteDeclared.map clampInterval).getD 0
  max (max own remote) pexMinInterval

/-- The receiver's least inter-arrival time of data messages. -/
def arrivalFloorMs (remoteDeclared : Nat) : Nat :=
  let declared := max (clampInterval remoteDeclared) pexMinInterval
  (declared - pexArrivalGrace) * 1000

/-- A draw of the additive send jitter: for every effective interval a value
between zero and ten percent of it. -/
structure Jitter where
  draw : Nat → Nat
  bounded : ∀ effectiveSecs, draw effectiveSecs ≤ effectiveSecs * 100

namespace Jitter

/-- The draw that never delays. -/
def zero : Jitter :=
  { draw := fun _ => 0
    bounded := fun _ => Nat.zero_le _ }

end Jitter

theorem clampInterval_le_effectiveIntervalSecs (own : Nat)
    (remote : Option Nat) :
    clampInterval own ≤ effectiveIntervalSecs own remote := by
  simp [effectiveIntervalSecs]

@[simp] theorem clampInterval_idem (secs : Nat) :
    clampInterval (clampInterval secs) = clampInterval secs := by
  simp only [clampInterval, pexMinInterval, pexMaxInterval]
  omega

/-- The back-off of a code-3 error: double, capped, then clamped. -/
def backedOffInterval (secs : Nat) : Nat :=
  clampInterval (min (secs * 2) pexMaxInterval)

theorem clampInterval_le_backedOff (secs : Nat) :
    clampInterval secs ≤ clampInterval (backedOffInterval secs) := by
  simp only [backedOffInterval, clampInterval, pexMinInterval,
    pexMaxInterval]
  omega

theorem arrivalFloorMs_add_grace (secs : Nat) :
    arrivalFloorMs secs + pexArrivalGrace * 1000 =
      clampInterval secs * 1000 := by
  simp only [arrivalFloorMs, clampInterval, pexMinInterval, pexMaxInterval,
    pexArrivalGrace]
  omega

@[simp] theorem arrivalFloorMs_clampInterval (secs : Nat) :
    arrivalFloorMs (clampInterval secs) = arrivalFloorMs secs := by
  simp [arrivalFloorMs]

theorem arrivalFloorMs_pos (secs : Nat) : 0 < arrivalFloorMs secs := by
  simp only [arrivalFloorMs, clampInterval, pexMinInterval, pexMaxInterval,
    pexArrivalGrace]
  omega

end DigPex
