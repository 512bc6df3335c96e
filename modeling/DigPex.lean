import DigPex.Library.Machine
import DigPex.Library.FiniteMap
import DigPex.Library.Framing
import DigPex.Library.Pacing
import DigPex.Library.Polling
import DigPex.Library.Stuttering
import DigPex.Timer
import DigPex.Monitor
import DigPex.Faults
import DigPex.Updates
import DigPex.ReceiverMemory
import DigPex.NoRegossip
import DigPex.FrameBudget
import DigPex.HonestSender
import DigPex.Quiescence
import DigPex.Isolation
import DigPex.Backoff
import DigPex.HintReasons
import DigPex.Vouching
import DigPex.Attribution
import DigPex.Payee
import DigPex.Siblings
import DigPex.Acceptance
import DigPex.Evolution
import DigPex.Stream
import DigPex.Opening
import DigPex.Checked
import DigPex.NoPanic
import DigPex.Draining
import DigPex.Determinism
import DigPex.Snapshot
import DigPex.Fingerprint
import DigPex.FingerprintText
import DigPex.Network
import DigPex.Negotiation
import DigPex.Convergence
import DigPex.Propagation
import DigPex.Transport
import DigPex.Library.Crowding
import DigPex.Retention
import DigPex.Account
import DigPex.Inflow
import DigPex.Sessions
import DigPex.Outflow
import DigPex.Config
import DigPex.Share
import DigPex.Parsing
