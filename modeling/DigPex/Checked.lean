import DigPex.Library.Guarded
import DigPex.LinkSupport

/-!
# The engine with its run-time checks

The public calls once more, with every operation that can panic as a check:
indexing a link, expecting one to be there, and arithmetic at the width of its
type.  Where the source saturates, wraps or looks before it computes there is
nothing to check.
-/

namespace DigPex

/-- Why a call would panic. -/
inductive Panic where
  | missingLink
  | emptyCache
  | overflow
  deriving DecidableEq, Repr

abbrev Checked (Value : Type) : Type :=
  Except Panic Value

namespace Checked

/-- A result of the right width, or the overflow panic. -/
def fits : Option Nat → Checked Nat
  | some value => .ok value
  | none => .error .overflow

/-! ## Intervals -/

def arrivalFloorMs (remoteDeclared : Nat) : Checked Nat := do
  let declared := max (clampInterval remoteDeclared) pexMinInterval
  let secs ← fits (Nat.subFits declared pexArrivalGrace)
  fits (Nat.mulFits 64 secs 1000)

def jitterMs (jitter : Jitter) (effectiveSecs : Nat) : Checked Nat := do
  let _span ← fits (Nat.mulFits 64 effectiveSecs 100)
  return jitter.draw effectiveSecs

def drawJitter (cfg : PexConfig) (jitter : Jitter) (effectiveSecs : Nat) :
    Checked Nat :=
  if cfg.jitter then jitterMs jitter effectiveSecs else .ok 0

/-! ## Entries -/

def isFresh (nowSecs : Nat) (entry : PeerEntry) : Checked Bool :=
  if nowSecs ≤ entry.lastSeen then
    .ok true
  else do
    let age ← fits (Nat.subFits nowSecs entry.lastSeen)
    return age ≤ pexMaxEntryAge

def validate (entry : PeerEntry) (ctx : ValidateCtx) :
    Checked (Except EntrySkip Unit) :=
  if !isHex64 entry.peerId then
    .ok (.error .badPeerId)
  else if entry.peerId = ctx.receiverPeerId ∨
      entry.peerId = ctx.senderPeerId then
    .ok (.error .selfOrPartner)
  else if pexMaxAddresses < entry.addresses.length then
    .ok (.error .tooManyAddresses)
  else if entry.addresses.any fun address => !address.isValid then
    .ok (.error .badAddress)
  else if pexMaxFlags < entry.flags.length ∨
      entry.flags.any (fun flag => pexMaxFlagLen < flag.utf8ByteSize) then
    .ok (.error .tooManyFlags)
  else if entry.networkId ≠ ctx.networkId then
    .ok (.error .networkMismatch)
  else if !entry.via.isRegistered then
    .ok (.error .badVia)
  else if entry.payment.any fun claim => !claim.withinCaps then
    .ok (.error .oversizePayment)
  else if entry.lastSeen < ctx.nowSecs then do
    let age ← fits (Nat.subFits ctx.nowSecs entry.lastSeen)
    return if pexMaxEntryAge < age then .error .tooOld else .ok ()
  else
    .ok (.ok ())

/-- The length of an entry's JSON, which a vector holds if it is at most
`isize::MAX` bytes. -/
def serializedLength (entry : PeerEntry) : Option Nat :=
  if entry.jsonLength < 2 ^ 63 then some entry.jsonLength else none

/-- The budget an entry takes of a frame: its JSON and a comma, or
`usize::MAX` if it has no JSON. -/
def frameCost (entry : PeerEntry) : Checked Nat :=
  match serializedLength entry with
  | some length => fits (Nat.addFits 64 length 1)
  | none => .ok (2 ^ 64 - 1)

/-- The running size is added up with `checked_add`. -/
def trimFrom (used : Nat) : List PeerEntry → Checked (List PeerEntry)
  | [] => .ok []
  | entry :: entries => do
      let cost ← frameCost entry
      match Nat.addFits 64 used cost with
      | some total =>
          if frameWithinBound total then
            let kept ← trimFrom total entries
            return entry :: kept
          else
            return []
      | none => return []

def trimToFrameBudget (peers : List PeerEntry) : Checked (List PeerEntry) := do
  let envelope ← fits
    (Nat.addFits 64 4 (PexMessage.pexSnapshot []).toJsonBytes.length)
  trimFrom envelope peers

/-! ## What is advertised -/

def advertisableBase (known : KnownSet) (localPeerId : String)
    (order : IterationOrder String) (nowSecs : Nat) :
    Checked (List PeerEntry) := do
  let others := (order.values known.entries).filter fun entry =>
    entry.peerId ≠ localPeerId
  let fresh ← Except.filterList (isFresh nowSecs) others
  return fresh.insertionSort AdvertisedBefore

/-- The list in the cache, which must be there. -/
def readCache (engine : PexEngine) : Checked (List PeerEntry × PexEngine) :=
  match engine.advertisableCache with
  | some (_, _, base) => .ok (base, engine)
  | none => .error .emptyCache

def rebuildAdvertisable (engine : PexEngine) (order : IterationOrder String)
    (nowSecs : Nat) : Checked (List PeerEntry × PexEngine) := do
  let fresh ←
    advertisableBase engine.known engine.cfg.localPeerId order nowSecs
  readCache { engine with
    advertisableCache := some (engine.knownEpoch, nowSecs, fresh) }

def advertisableCached (engine : PexEngine) (order : IterationOrder String)
    (nowSecs : Nat) : Checked (List PeerEntry × PexEngine) :=
  match engine.advertisableCache with
  | some (epoch, cachedSecs, _) =>
      if epoch = engine.knownEpoch ∧ cachedSecs = nowSecs then
        readCache engine
      else
        rebuildAdvertisable engine order nowSecs
  | none => rebuildAdvertisable engine order nowSecs

def advertisableFor (engine : PexEngine) (order : IterationOrder String)
    (partner : String) (nowSecs : Nat) :
    Checked (List PeerEntry × PexEngine) := do
  let cached ← advertisableCached engine order nowSecs
  return (cached.1.filter fun entry => entry.peerId ≠ partner, cached.2)

/-! ## Sending -/

/-- The record of a link that must be there: `links[..]`, and `get_mut` with
`expect`. -/
def indexLink (engine : PexEngine) (peerId : String) : Checked LinkState :=
  match engine.links[peerId]? with
  | some link => .ok link
  | none => .error .missingLink

section Sending

variable [DefaultHasher]

def buildDelta (engine : PexEngine) (knownOrder toldOrder :
      IterationOrder String) (peerId : String) (nowSecs : Nat) :
    Checked ((List PeerEntry × List String) × PexEngine) := do
  let link ← indexLink engine peerId
  let advertisable ← advertisableFor engine knownOrder peerId nowSecs
  return (link.deltaAgainst toldOrder advertisable.1, advertisable.2)

def linkUp (engine : PexEngine) (peerId : String) (nowMs : Nat)
    (order : IterationOrder String) (jitter : Jitter) :
    Checked (PexEngine × List PexMessage) := do
  let interval := engine.cfg.interval
  let handshake := PexMessage.pexHandshake pexVersion engine.cfg.networkId
    interval engine.cfg.flags
  let advertisable ← advertisableFor engine order peerId (nowMs / 1000)
  let peers ← trimToFrameBudget (advertisable.1.take pexMaxSnapshot)
  let drawn ← drawJitter engine.cfg jitter (effectiveIntervalSecs interval
    (engine.links[peerId]?.bind LinkState.remoteDeclaredSecs))
  let link := engine.link peerId
  return (advertisable.2.setLink peerId
      { link with
        selfIntervalSecs := interval
        handshakeSent := true
        told := FiniteMap.insertAll PeerEntry.peerId
          PeerEntry.fingerprintHash link.told peers
        snapshotSent := true
        lastDataSendMs := some nowMs
        sendJitterMs := drawn },
    [handshake, .pexSnapshot peers])

/-- Whether a link is due: base, interval and jitter are added up at 64
bits. -/
def sendDue (link : LinkState) (nowMs : Nat) : Checked Bool := do
  let effective :=
    effectiveIntervalSecs link.selfIntervalSecs link.remoteDeclaredSecs
  let base := link.lastDataSendMs.getD 0
  let intervalMs ← fits (Nat.mulFits 64 effective 1000)
  let earliest ← fits (Nat.addFits 64 base intervalMs)
  let due ← fits (Nat.addFits 64 earliest link.sendJitterMs)
  return due ≤ nowMs

def tickLink (nowMs : Nat) (orders : TickOrders) (jitter : String → Jitter) :
    GuardedMachine PexEngine String (Option (String × PexMessage)) Panic :=
  fun engine peerId => do
    let link ← indexLink engine peerId
    if !link.snapshotSent then
      return (engine, none)
    let eligible ← sendDue link nowMs
    if !eligible then
      return (engine, none)
    let built ← buildDelta engine orders.known (orders.told peerId) peerId
      (nowMs / 1000)
    let added := built.1.1
    let dropped := built.1.2
    if added.isEmpty && dropped.isEmpty then
      return (built.2, none)
    let link ← indexLink built.2 peerId
    let committed := built.2.setLink peerId
      (link.commitDelta added dropped nowMs link.sendJitterMs)
    let drawn ← drawJitter engine.cfg (jitter peerId)
      (effectiveIntervalSecs link.selfIntervalSecs link.remoteDeclaredSecs)
    let link ← indexLink committed peerId
    return (committed.setLink peerId { link with sendJitterMs := drawn },
      some (peerId, .pexDelta added dropped))

def tick (engine : PexEngine) (nowMs : Nat) (orders : TickOrders)
    (jitter : String → Jitter) :
    Checked (PexEngine × List (String × PexMessage)) := do
  let ticked ← (tickLink nowMs orders jitter).run engine
    (orders.links.arrange engine.links.keys)
  return (ticked.1, ticked.2.reduceOption)

end Sending

/-! ## Receiving -/

def strike (engine : PexEngine) (peerId : String) (code : PexErrorCode) :
    Checked (PexEngine × PexOutcome) := do
  let link ← indexLink engine peerId
  let strikes ← fits (Nat.addFits 32 link.strikes 1)
  let mute := decide (pexViolationLimit ≤ strikes)
  let struck := engine.setLink peerId
    { link with
      strikes := strikes
      muted := link.muted || mute }
  return (if mute then struck.freeMutedLinkState peerId else struck,
    PexEngine.violationOutcome code mute)

def muteMismatch (engine : PexEngine) (peerId : String)
    (code : PexErrorCode) : Checked (PexEngine × PexOutcome) := do
  let link ← indexLink engine peerId
  let muted := engine.setLink peerId { link with muted := true }
  return (muted.freeMutedLinkState peerId, PexEngine.violationOutcome code true)

/-- Whether a code-3 error follows a data message closely enough. -/
def isPlausible (link : LinkState) (nowMs : Nat) : Checked Bool :=
  match link.lastDataSendMs with
  | some sent => do
      let floor ← arrivalFloorMs link.selfIntervalSecs
      return nowMs - sent < floor
  | none => .ok false

def onPexError (engine : PexEngine) (peerId : String) (code nowMs : Nat) :
    Checked (PexEngine × PexOutcome) :=
  if code = PexErrorCode.rateViolation.asU16 then
    match engine.links[peerId]? with
    | some link => do
        let plausibleNow ← isPlausible link nowMs
        let effectiveMs ← fits (Nat.mulFits 64 link.selfIntervalSecs 1000)
        let rateLimited := link.lastBackoffAppliedMs.any fun applied =>
          nowMs - applied < effectiveMs
        if plausibleNow && !rateLimited then
          return (engine.setLink peerId
            { link with
              selfIntervalSecs := backedOffInterval link.selfIntervalSecs
              lastBackoffAppliedMs := some nowMs }, {})
        else
          return (engine, {})
    | none => .ok (engine, {})
  else
    .ok (engine, {})

def onHandshake (engine : PexEngine) (peerId : String) (version : Nat)
    (networkId : String) (declared : Nat) :
    Checked (PexEngine × PexOutcome) := do
  let link ← indexLink engine peerId
  if link.phase ≠ .awaitingHandshake then
    strike engine peerId .protocolViolation
  else if version ≠ pexVersion then
    muteMismatch engine peerId .unsupportedVersion
  else if networkId ≠ engine.cfg.networkId then
    muteMismatch engine peerId .networkMismatch
  else
    let link ← indexLink engine peerId
    return (engine.setLink peerId
      { link with
        remoteDeclaredSecs := some (clampInterval declared)
        phase := .awaitingSnapshot }, {})

def ingestEntry (peerId : String) (nowSecs : Nat) :
    GuardedMachine PexEngine PeerEntry (Option PeerEntry) Panic :=
  fun engine entry => do
    match ← validate entry (engine.validateCtx peerId nowSecs) with
    | .error _ => return (engine, none)
    | .ok () =>
        let candidate := entry.clamped nowSecs
        let link ← indexLink engine peerId
        let attributed := engine.setLink peerId
          { link with
            received := FiniteMap.insertCapped id pexMaxReceivedPerLink
              link.received candidate.peerId candidate.lastSeen }
        if attributed.isFresher candidate then
          return (attributed.adoptHint peerId candidate, some candidate)
        else
          return (attributed, none)

def ingestAdded (engine : PexEngine) (peerId : String)
    (entries : List PeerEntry) (nowMs : Nat) :
    Checked (PexEngine × PexOutcome) := do
  let ingested ← (ingestEntry peerId (nowMs / 1000)).run engine entries
  let candidates := ingested.2.reduceOption
  return (ingested.1,
    if candidates.isEmpty then {} else { events := [.candidates candidates] })

def ingestDroppedId (peerId : String) :
    GuardedMachine PexEngine String (Option String) Panic :=
  fun engine id => do
    let link ← indexLink engine peerId
    let forgotten := engine.setLink peerId
      { link with received := link.received.erase id }
    if link.received.contains id then
      return (forgotten.unlistSource peerId id, some id)
    else
      return (forgotten, none)

def ingestDropped (engine : PexEngine) (peerId : String)
    (dropped : List String) : Checked (PexEngine × PexOutcome) := do
  let ingested ← (ingestDroppedId peerId).run engine dropped
  let attributed := ingested.2.reduceOption
  return (ingested.1,
    if attributed.isEmpty then {} else { events := [.dropped attributed] })

def onSnapshot (engine : PexEngine) (peerId : String)
    (peers : List PeerEntry) (nowMs : Nat) :
    Checked (PexEngine × PexOutcome) := do
  let link ← indexLink engine peerId
  match link.phase with
  | .awaitingHandshake | .streaming =>
      strike engine peerId .protocolViolation
  | .awaitingSnapshot =>
      if pexMaxSnapshot < peers.length then
        strike engine peerId .oversized
      else
        let link ← indexLink engine peerId
        ingestAdded (engine.setLink peerId
          { link with
            phase := .streaming
            lastArrivalMs := some nowMs }) peerId peers nowMs

def onDelta (engine : PexEngine) (peerId : String)
    (added : List PeerEntry) (dropped : List String) (nowMs : Nat) :
    Checked (PexEngine × PexOutcome) := do
  let link ← indexLink engine peerId
  match link.phase with
  | .awaitingHandshake | .awaitingSnapshot =>
      strike engine peerId .protocolViolation
  | .streaming =>
      let link ← indexLink engine peerId
      let floor ← arrivalFloorMs (link.remoteDeclaredSecs.getD 0)
      if link.lastArrivalMs.any fun last => nowMs - last < floor then
        strike engine peerId .rateViolation
      else if pexMaxAdded < added.length ∨
          pexMaxDropped < dropped.length then
        strike engine peerId .oversized
      else if dropped.any fun id =>
          (added.map PeerEntry.peerId).contains id then
        strike engine peerId .badMessage
      else
        let link ← indexLink engine peerId
        let arrived := engine.setLink peerId
          { link with lastArrivalMs := some nowMs }
        let ingested ← ingestAdded arrived peerId added nowMs
        let cleared ← ingestDropped ingested.1 peerId dropped
        return (cleared.1,
          { ingested.2 with
            events := ingested.2.events ++ cleared.2.events })

def onMessage (engine : PexEngine) (peerId : String) (message : PexMessage)
    (nowMs : Nat) : Checked (PexEngine × PexOutcome) :=
  let engine := engine.ensureLink peerId
  if (engine.link peerId).muted then
    .ok (engine, {})
  else
    match message with
    | .pexError code _ => onPexError engine peerId code nowMs
    | .pexHandshake version networkId declared _ =>
        onHandshake engine peerId version networkId declared
    | .pexSnapshot peers => onSnapshot engine peerId peers nowMs
    | .pexDelta added dropped => onDelta engine peerId added dropped nowMs

def recordViolation (engine : PexEngine) (peerId : String)
    (code : PexErrorCode) (_nowMs : Nat) : Checked (PexEngine × PexOutcome) :=
  strike (engine.ensureLink peerId) peerId code

/-- The checked engine as a machine over its public calls. -/
def engineStep [DefaultHasher] :
    GuardedMachine PexEngine Call Response Panic :=
  fun engine call =>
    match call with
    | .upsertKnown entry => .ok (engine.upsertKnown entry, .done)
    | .removeKnown peerId => .ok (engine.removeKnown peerId, .done)
    | .linkUp peerId nowMs order jitter => do
        let opened ← linkUp engine peerId nowMs order jitter
        return (opened.1, .opening opened.2)
    | .linkDown peerId => .ok (engine.linkDown peerId, .done)
    | .onMessage peerId message nowMs => do
        let answered ← onMessage engine peerId message nowMs
        return (answered.1, .outcome answered.2)
    | .recordViolation peerId code nowMs => do
        let answered ← recordViolation engine peerId code nowMs
        return (answered.1, .outcome answered.2)
    | .tick nowMs orders jitter => do
        let ticked ← tick engine nowMs orders jitter
        return (ticked.1, .deltas ticked.2)

end Checked

end DigPex
