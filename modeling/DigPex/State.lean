import DigPex.Timer
import DigPex.Library.FiniteMap

/-!
# Per-link state

Both half-conversations of one link.  Everything here dies with the link.
-/

namespace DigPex

/-- The receiver-side state machine of one direction. -/
inductive RecvPhase where
  | awaitingHandshake
  | awaitingSnapshot
  | streaming
  deriving DecidableEq, Repr

/-- All state of one link, the sending direction first. -/
structure LinkState where
  handshakeSent : Bool
  snapshotSent : Bool
  /-- What the partner was told: `peerId` to fingerprint hash. -/
  told : Std.ExtTreeMap String UInt64
  lastDataSendMs : Option Nat
  sendJitterMs : Nat
  selfIntervalSecs : Nat
  lastBackoffAppliedMs : Option Nat
  phase : RecvPhase
  remoteDeclaredSecs : Option Nat
  lastArrivalMs : Option Nat
  strikes : Nat
  muted : Bool
  /-- What the partner told us: `peerId` to its clamped `lastSeen`. -/
  received : Std.ExtTreeMap String Nat
  deriving DecidableEq

/-- A fresh link: both directions at their start. -/
def LinkState.new (selfIntervalSecs : Nat) : LinkState :=
  { handshakeSent := false
    snapshotSent := false
    told := ∅
    lastDataSendMs := none
    sendJitterMs := 0
    selfIntervalSecs := selfIntervalSecs
    lastBackoffAppliedMs := none
    phase := .awaitingHandshake
    remoteDeclaredSecs := none
    lastArrivalMs := none
    strikes := 0
    muted := false
    received := ∅ }

end DigPex
