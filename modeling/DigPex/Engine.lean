import DigPex.Library.Machine
import DigPex.State
import DigPex.Wire

/-!
# The engine

The public calls of the engine and the private functions under them, in the
order of `engine.rs`.  Timestamps are milliseconds.

What the program leaves to its environment is an argument of the call: the
iteration orders of its hash maps and the jitter it draws.  Where the source
indexes a link it has just created, the model reads it with
`PexEngine.link`, which is the fresh record for an absent link.
-/

namespace DigPex

structure PexConfig where
  localPeerId : String
  networkId : String
  flags : List String
  interval : Nat
  jitter : Bool
  deriving DecidableEq, Repr

/-- What the engine reports to its host about an inbound message. -/
inductive PexEvent where
  | candidates (entries : List PeerEntry)
  | dropped (peerIds : List String)
  | violation (code : Nat) (mute : Bool)
  deriving DecidableEq, Repr

/-- Replies to write back on the link and events for the host. -/
structure PexOutcome where
  replies : List PexMessage := []
  events : List PexEvent := []
  deriving DecidableEq, Repr

/-- The current best hint for a peer across all links. -/
structure ReceivedHint where
  source : String
  lastSeen : Nat
  deriving DecidableEq, Repr

/-- The first-hand set: every entry is stored under its own `peerId`. -/
structure KnownSet where
  entries : Std.ExtTreeMap String PeerEntry
  keyed : ∀ (id : String) (entry : PeerEntry),
    entries[id]? = some entry → entry.peerId = id

namespace KnownSet

def empty : KnownSet :=
  { entries := ∅
    keyed := by simp }

def insert (known : KnownSet) (entry : PeerEntry) : KnownSet :=
  { entries := known.entries.insert entry.peerId entry
    keyed := by
      intro id found lookup
      have keyed := known.keyed id found
      grind }

def remove (known : KnownSet) (peerId : String) : KnownSet :=
  { entries := known.entries.erase peerId
    keyed := by
      intro id found lookup
      have keyed := known.keyed id found
      grind }

end KnownSet

structure PexEngine where
  cfg : PexConfig
  known : KnownSet
  links : Std.ExtTreeMap String LinkState
  hints : Std.ExtTreeMap String ReceivedHint
  /-- Counts the changes of `known`, modulo `2 ^ 64`. -/
  knownEpoch : Nat
  /-- The epoch and the second the cached base list was built for, and the
  list. -/
  advertisableCache : Option (Nat × Nat × List PeerEntry)

/-- The iteration orders of one clock tick. -/
structure TickOrders where
  known : IterationOrder String
  links : IterationOrder String
  told : String → IterationOrder String

/-- Whether an entry is within the advertised age; a future timestamp is
fresh. -/
def isFresh (nowSecs : Nat) (entry : PeerEntry) : Bool :=
  nowSecs ≤ entry.lastSeen ||
    nowSecs - entry.lastSeen ≤ pexMaxEntryAge

/-- Freshest first, ties broken by `peerId`. -/
def AdvertisedBefore (left right : PeerEntry) : Prop :=
  right.lastSeen < left.lastSeen ∨
    left.lastSeen = right.lastSeen ∧ left.peerId ≤ right.peerId

instance (left right : PeerEntry) :
    Decidable (AdvertisedBefore left right) :=
  inferInstanceAs (Decidable (_ ∨ _))

/-- The partner-independent base list: self excluded, stale entries dropped,
freshest first. -/
def advertisableBase (known : KnownSet) (localPeerId : String)
    (order : IterationOrder String) (nowSecs : Nat) : List PeerEntry :=
  ((order.values known.entries).filter fun entry =>
    entry.peerId ≠ localPeerId && isFresh nowSecs entry).insertionSort
      AdvertisedBefore

/-- Keep the leading entries whose running encoded size stays within the
frame. -/
def trimFrom (used : Nat) : List PeerEntry → List PeerEntry
  | [] => []
  | entry :: entries =>
      let total := used + (entry.jsonLength + 1)
      if frameWithinBound total then
        entry :: trimFrom total entries
      else
        []

/-- Drop trailing entries until the snapshot they form encodes within the
frame. -/
def trimToFrameBudget (peers : List PeerEntry) : List PeerEntry :=
  trimFrom (PexMessage.pexSnapshot []).encode.length peers

def PexConfig.drawJitter (cfg : PexConfig) (jitter : Jitter)
    (effectiveSecs : Nat) : Nat :=
  if cfg.jitter then jitter.draw effectiveSecs else 0

namespace PexEngine

def new (cfg : PexConfig) : PexEngine :=
  { cfg := cfg
    known := .empty
    links := ∅
    hints := ∅
    knownEpoch := 0
    advertisableCache := none }

/-- The record of a link, fresh if there is none. -/
def link (engine : PexEngine) (peerId : String) : LinkState :=
  engine.links.getD peerId (LinkState.new engine.cfg.interval)

def setLink (engine : PexEngine) (peerId : String) (link : LinkState) :
    PexEngine :=
  { engine with links := engine.links.insert peerId link }

/-- Create the record of a link if it is absent. -/
def ensureLink (engine : PexEngine) (peerId : String) : PexEngine :=
  engine.setLink peerId (engine.link peerId)

/-! ## The first-hand set -/

def bumpEpoch (engine : PexEngine) : PexEngine :=
  { engine with knownEpoch := (engine.knownEpoch + 1) % 2 ^ 64 }

def upsertKnown (engine : PexEngine) (entry : PeerEntry) : PexEngine :=
  if entry.peerId = engine.cfg.localPeerId then
    engine
  else
    { engine with known := engine.known.insert entry }.bumpEpoch

def removeKnown (engine : PexEngine) (peerId : String) : PexEngine :=
  { engine with known := engine.known.remove peerId }.bumpEpoch

/-! ## What is advertised -/

/-- Build the base list and cache it under the current epoch and second. -/
def rebuildAdvertisable (engine : PexEngine) (order : IterationOrder String)
    (nowSecs : Nat) : List PeerEntry × PexEngine :=
  let fresh :=
    advertisableBase engine.known engine.cfg.localPeerId order nowSecs
  (fresh,
    { engine with
      advertisableCache := some (engine.knownEpoch, nowSecs, fresh) })

/-- The base list, from the cache when neither the epoch nor the second has
moved. -/
def advertisableCached (engine : PexEngine) (order : IterationOrder String)
    (nowSecs : Nat) : List PeerEntry × PexEngine :=
  match engine.advertisableCache with
  | some (epoch, cachedSecs, base) =>
      if epoch = engine.knownEpoch ∧ cachedSecs = nowSecs then
        (base, engine)
      else
        engine.rebuildAdvertisable order nowSecs
  | none => engine.rebuildAdvertisable order nowSecs

/-- The advertisable entries of a link: the base list without the partner. -/
def advertisableFor (engine : PexEngine) (order : IterationOrder String)
    (partner : String) (nowSecs : Nat) : List PeerEntry × PexEngine :=
  let cached := engine.advertisableCached order nowSecs
  (cached.1.filter fun entry => entry.peerId ≠ partner, cached.2)

end PexEngine

namespace LinkState

variable [DefaultHasher]

/-- Not yet told, or told with another fingerprint. -/
def isPending (link : LinkState) (entry : PeerEntry) : Bool :=
  link.told[entry.peerId]? ≠ some entry.fingerprintHash

/-- The delta of a link relative to its told-state, given what is advertisable
to the partner: pending entries up to the cap, and told ids no longer
advertisable, scanned in the order of the told map up to the cap and then
sorted. -/
def deltaAgainst (link : LinkState) (toldOrder : IterationOrder String)
    (advertisable : List PeerEntry) : List PeerEntry × List String :=
  let advertIds := advertisable.map PeerEntry.peerId
  let added := (advertisable.filter link.isPending).take pexMaxAdded
  let dropped := ((toldOrder.arrange link.told.keys).filter
    fun id => !advertIds.contains id).take pexMaxDropped
  (added, dropped.insertionSort (· ≤ ·))

/-- Whether the effective interval and the jitter have elapsed since the last
data message. -/
def sendDue (link : LinkState) (nowMs : Nat) : Bool :=
  let effective :=
    effectiveIntervalSecs link.selfIntervalSecs link.remoteDeclaredSecs
  let base := link.lastDataSendMs.getD 0
  base + effective * 1000 + link.sendJitterMs ≤ nowMs

/-- Commit the told-state for exactly what a delta sends, and start the next
interval. -/
def commitDelta (link : LinkState) (added : List PeerEntry)
    (dropped : List String) (nowMs sendJitterMs : Nat) : LinkState :=
  { link with
    told := FiniteMap.eraseAll
      (FiniteMap.insertAll PeerEntry.peerId PeerEntry.fingerprintHash
        link.told added) dropped
    lastDataSendMs := some nowMs
    sendJitterMs := sendJitterMs }

end LinkState

namespace PexEngine

section Sending

variable [DefaultHasher]

def buildDelta (engine : PexEngine) (knownOrder toldOrder :
      IterationOrder String) (peerId : String) (nowSecs : Nat) :
    (List PeerEntry × List String) × PexEngine :=
  let advertisable := engine.advertisableFor knownOrder peerId nowSecs
  ((engine.link peerId).deltaAgainst toldOrder advertisable.1,
    advertisable.2)

/-- Register the link and open our direction: handshake, then snapshot. -/
def linkUp (engine : PexEngine) (peerId : String) (nowMs : Nat)
    (order : IterationOrder String) (jitter : Jitter) :
    PexEngine × List PexMessage :=
  let interval := engine.cfg.interval
  let handshake := PexMessage.pexHandshake pexVersion engine.cfg.networkId
    interval engine.cfg.flags
  let advertisable := engine.advertisableFor order peerId (nowMs / 1000)
  let peers := trimToFrameBudget (advertisable.1.take pexMaxSnapshot)
  let link := engine.link peerId
  let effective :=
    effectiveIntervalSecs interval link.remoteDeclaredSecs
  (advertisable.2.setLink peerId
      { link with
        selfIntervalSecs := interval
        handshakeSent := true
        told := FiniteMap.insertAll PeerEntry.peerId
          PeerEntry.fingerprintHash link.told peers
        snapshotSent := true
        lastDataSendMs := some nowMs
        sendJitterMs := engine.cfg.drawJitter jitter effective },
    [handshake, .pexSnapshot peers])

/-- Discard the link's state and the hints it is the source of. -/
def linkDown (engine : PexEngine) (peerId : String) : PexEngine :=
  { engine with
    links := engine.links.erase peerId
    hints := engine.hints.filter fun _ hint => hint.source ≠ peerId }

/-- One iteration of `tick`: skip a link without snapshot, a link whose
interval has not elapsed and an empty delta; otherwise commit and send. -/
def tickLink (nowMs : Nat) (orders : TickOrders) (jitter : String → Jitter) :
    Machine PexEngine String (Option (String × PexMessage)) :=
  fun engine peerId =>
    let link := engine.link peerId
    if !link.snapshotSent || !link.sendDue nowMs then
      (engine, none)
    else
      let built := engine.buildDelta orders.known (orders.told peerId) peerId
        (nowMs / 1000)
      let added := built.1.1
      let dropped := built.1.2
      if added.isEmpty && dropped.isEmpty then
        (built.2, none)
      else
        let effective :=
          effectiveIntervalSecs link.selfIntervalSecs link.remoteDeclaredSecs
        let drawn := engine.cfg.drawJitter (jitter peerId) effective
        (built.2.setLink peerId (link.commitDelta added dropped nowMs drawn),
          some (peerId, .pexDelta added dropped))

/-- Drive the send cadence of every link. -/
def tick (engine : PexEngine) (nowMs : Nat) (orders : TickOrders)
    (jitter : String → Jitter) : PexEngine × List (String × PexMessage) :=
  let peerIds := orders.links.arrange engine.links.keys
  ((tickLink nowMs orders jitter).final engine peerIds,
    ((tickLink nowMs orders jitter).outputs engine peerIds).reduceOption)

end Sending

/-! ## Faults -/

/-- Free what a link that was just muted has accumulated. -/
def freeMutedLinkState (engine : PexEngine) (peerId : String) : PexEngine :=
  { engine.setLink peerId { engine.link peerId with received := ∅ } with
    hints := engine.hints.filter fun _ hint => hint.source ≠ peerId }

/-- The reply and the event by which a violation is answered. -/
def violationOutcome (code : PexErrorCode) (mute : Bool) : PexOutcome :=
  { replies := [.pexError code.asU16 code.message]
    events := [.violation code.asU16 mute] }

/-- Count a strike and mute at the limit. -/
def strike (engine : PexEngine) (peerId : String) (code : PexErrorCode) :
    PexEngine × PexOutcome :=
  let link := engine.link peerId
  let strikes := link.strikes + 1
  let mute := decide (pexViolationLimit ≤ strikes)
  let struck := engine.setLink peerId
    { link with
      strikes := strikes
      muted := link.muted || mute }
  (if mute then struck.freeMutedLinkState peerId else struck,
    violationOutcome code mute)

/-- Mute at once, without a strike, for a version or network mismatch. -/
def muteMismatch (engine : PexEngine) (peerId : String)
    (code : PexErrorCode) : PexEngine × PexOutcome :=
  let muted := engine.setLink peerId
    { engine.link peerId with muted := true }
  (muted.freeMutedLinkState peerId, violationOutcome code true)

/-! ## Inbound messages -/

/-- Honour a code-3 error with a back-off when it is plausible and not rate
limited; every other error changes nothing. -/
def onPexError (engine : PexEngine) (peerId : String) (code nowMs : Nat) :
    PexEngine × PexOutcome :=
  let link := engine.link peerId
  let isPlausible := link.lastDataSendMs.any fun sent =>
    nowMs - sent < arrivalFloorMs link.selfIntervalSecs
  let rateLimited := link.lastBackoffAppliedMs.any fun applied =>
    nowMs - applied < link.selfIntervalSecs * 1000
  if code = PexErrorCode.rateViolation.asU16 && isPlausible &&
      !rateLimited then
    (engine.setLink peerId
      { link with
        selfIntervalSecs := backedOffInterval link.selfIntervalSecs
        lastBackoffAppliedMs := some nowMs }, {})
  else
    (engine, {})

def onHandshake (engine : PexEngine) (peerId : String) (version : Nat)
    (networkId : String) (declared : Nat) : PexEngine × PexOutcome :=
  let link := engine.link peerId
  if link.phase ≠ .awaitingHandshake then
    engine.strike peerId .protocolViolation
  else if version ≠ pexVersion then
    engine.muteMismatch peerId .unsupportedVersion
  else if networkId ≠ engine.cfg.networkId then
    engine.muteMismatch peerId .networkMismatch
  else
    (engine.setLink peerId
      { link with
        remoteDeclaredSecs := some (clampInterval declared)
        phase := .awaitingSnapshot }, {})

/-- The context in which entries from a link are validated. -/
def validateCtx (engine : PexEngine) (peerId : String) (nowSecs : Nat) :
    ValidateCtx :=
  { receiverPeerId := engine.cfg.localPeerId
    senderPeerId := peerId
    networkId := engine.cfg.networkId
    nowSecs := nowSecs }

/-- Attribute a valid entry to the link that told it. -/
def attributeTo (engine : PexEngine) (peerId : String)
    (candidate : PeerEntry) : PexEngine :=
  let link := engine.link peerId
  engine.setLink peerId
    { link with
      received := FiniteMap.insertCapped id pexMaxReceivedPerLink
        link.received candidate.peerId candidate.lastSeen }

/-- Whether there is no hint for the peer or a staler one. -/
def isFresher (engine : PexEngine) (candidate : PeerEntry) : Bool :=
  match engine.hints[candidate.peerId]? with
  | some hint => hint.lastSeen < candidate.lastSeen
  | none => true

/-- Make a candidate the current hint for its peer. -/
def adoptHint (engine : PexEngine) (peerId : String)
    (candidate : PeerEntry) : PexEngine :=
  { engine with
    hints := FiniteMap.insertCapped ReceivedHint.lastSeen pexMaxHints
      engine.hints candidate.peerId
      { source := peerId
        lastSeen := candidate.lastSeen } }

/-- One iteration of `ingest_added`: skip a malformed entry, attribute a valid
one to the link, and surface it if it is new or fresher than the current
hint. -/
def ingestEntry (peerId : String) (nowSecs : Nat) :
    Machine PexEngine PeerEntry (Option PeerEntry) :=
  fun engine entry =>
    match entry.validate (engine.validateCtx peerId nowSecs) with
    | .error _ => (engine, none)
    | .ok () =>
        let candidate := entry.clamped nowSecs
        let attributed := engine.attributeTo peerId candidate
        if attributed.isFresher candidate then
          (attributed.adoptHint peerId candidate, some candidate)
        else
          (attributed, none)

/-- Validate and deduplicate a batch of inbound entries. -/
def ingestAdded (engine : PexEngine) (peerId : String)
    (entries : List PeerEntry) (nowMs : Nat) : PexEngine × PexOutcome :=
  let loop := ingestEntry peerId (nowMs / 1000)
  let candidates := (loop.outputs engine entries).reduceOption
  (loop.final engine entries,
    if candidates.isEmpty then {} else { events := [.candidates candidates] })

/-- Remove the current hint for a peer if the link is its source. -/
def unlistSource (engine : PexEngine) (peerId id : String) : PexEngine :=
  if engine.hints[id]?.any fun hint => hint.source = peerId then
    { engine with hints := engine.hints.erase id }
  else
    engine

/-- One iteration of `ingest_dropped`: an id the link told us is forgotten,
with its hint if the link is the hint's source. -/
def ingestDroppedId (peerId : String) :
    Machine PexEngine String (Option String) :=
  fun engine id =>
    let link := engine.link peerId
    let forgotten := engine.setLink peerId
      { link with received := link.received.erase id }
    if link.received.contains id then
      (forgotten.unlistSource peerId id, some id)
    else
      (forgotten, none)

/-- Attribute a batch of dropped ids. -/
def ingestDropped (engine : PexEngine) (peerId : String)
    (dropped : List String) : PexEngine × PexOutcome :=
  let loop := ingestDroppedId peerId
  let attributed := (loop.outputs engine dropped).reduceOption
  (loop.final engine dropped,
    if attributed.isEmpty then {} else { events := [.dropped attributed] })

def onSnapshot (engine : PexEngine) (peerId : String)
    (peers : List PeerEntry) (nowMs : Nat) : PexEngine × PexOutcome :=
  let link := engine.link peerId
  match link.phase with
  | .awaitingHandshake | .streaming =>
      engine.strike peerId .protocolViolation
  | .awaitingSnapshot =>
      if pexMaxSnapshot < peers.length then
        engine.strike peerId .oversized
      else
        (engine.setLink peerId
          { link with
            phase := .streaming
            lastArrivalMs := some nowMs }).ingestAdded peerId peers nowMs

def onDelta (engine : PexEngine) (peerId : String)
    (added : List PeerEntry) (dropped : List String) (nowMs : Nat) :
    PexEngine × PexOutcome :=
  let link := engine.link peerId
  match link.phase with
  | .awaitingHandshake | .awaitingSnapshot =>
      engine.strike peerId .protocolViolation
  | .streaming =>
      let floor := arrivalFloorMs (link.remoteDeclaredSecs.getD 0)
      if link.lastArrivalMs.any fun last => nowMs - last < floor then
        engine.strike peerId .rateViolation
      else if pexMaxAdded < added.length ∨
          pexMaxDropped < dropped.length then
        engine.strike peerId .oversized
      else if dropped.any fun id =>
          (added.map PeerEntry.peerId).contains id then
        engine.strike peerId .badMessage
      else
        let arrived := engine.setLink peerId
          { link with lastArrivalMs := some nowMs }
        let ingested := arrived.ingestAdded peerId added nowMs
        let cleared := ingested.1.ingestDropped peerId dropped
        (cleared.1,
          { ingested.2 with
            events := ingested.2.events ++ cleared.2.events })

/-- Feed one decoded inbound message; a muted direction ignores it. -/
def onMessage (engine : PexEngine) (peerId : String) (message : PexMessage)
    (nowMs : Nat) : PexEngine × PexOutcome :=
  let engine := engine.ensureLink peerId
  if (engine.link peerId).muted then
    (engine, {})
  else
    match message with
    | .pexError code _ => engine.onPexError peerId code nowMs
    | .pexHandshake version networkId declared _ =>
        engine.onHandshake peerId version networkId declared
    | .pexSnapshot peers => engine.onSnapshot peerId peers nowMs
    | .pexDelta added dropped => engine.onDelta peerId added dropped nowMs

/-- Record a violation the transport detected; the clock is not read. -/
def recordViolation (engine : PexEngine) (peerId : String)
    (code : PexErrorCode) (_nowMs : Nat) : PexEngine × PexOutcome :=
  (engine.ensureLink peerId).strike peerId code

end PexEngine

/-! ## Runs -/

/-- A public call, with what the environment decides during it. -/
inductive Call where
  | upsertKnown (entry : PeerEntry)
  | removeKnown (peerId : String)
  | linkUp (peerId : String) (nowMs : Nat) (order : IterationOrder String)
      (jitter : Jitter)
  | linkDown (peerId : String)
  | onMessage (peerId : String) (message : PexMessage) (nowMs : Nat)
  | recordViolation (peerId : String) (code : PexErrorCode) (nowMs : Nat)
  | tick (nowMs : Nat) (orders : TickOrders) (jitter : String → Jitter)

/-- What a public call returns. -/
inductive Response where
  | done
  | opening (messages : List PexMessage)
  | outcome (outcome : PexOutcome)
  | deltas (messages : List (String × PexMessage))

/-- The engine as a machine over its public calls. -/
def engineStep [DefaultHasher] : Machine PexEngine Call Response :=
  fun engine call =>
    match call with
    | .upsertKnown entry => (engine.upsertKnown entry, .done)
    | .removeKnown peerId => (engine.removeKnown peerId, .done)
    | .linkUp peerId nowMs order jitter =>
        let opened := engine.linkUp peerId nowMs order jitter
        (opened.1, .opening opened.2)
    | .linkDown peerId => (engine.linkDown peerId, .done)
    | .onMessage peerId message nowMs =>
        let answered := engine.onMessage peerId message nowMs
        (answered.1, .outcome answered.2)
    | .recordViolation peerId code nowMs =>
        let answered := engine.recordViolation peerId code nowMs
        (answered.1, .outcome answered.2)
    | .tick nowMs orders jitter =>
        let ticked := engine.tick nowMs orders jitter
        (ticked.1, .deltas ticked.2)

/-- The messages `link_up` and `tick` return, each with the link it is written
to. -/
def emitted : Call × Response → List (String × PexMessage)
  | (.linkUp peerId _ _ _, .opening messages) =>
      messages.map fun message => (peerId, message)
  | (.tick _ _ _, .deltas messages) => messages
  | _ => []

end DigPex
