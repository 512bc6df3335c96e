import DigPex.Concrete
import DigPex.KnownHistory

/-!
# The engine without the advertise cache

`PlainEngine` keeps neither an epoch nor a cached list: what a partner may be
told is computed from the first-hand set whenever it is sent.  The engine
simulates it as long as its cache is current.
-/

namespace DigPex

/-- The entries advertisable to a partner, computed from the first-hand
set. -/
def recomputedFor (known : KnownSet) (localPeerId partner : String)
    (order : IterationOrder String) (nowSecs : Nat) : List PeerEntry :=
  ((order.values known.entries).filter fun entry =>
    entry.peerId ≠ localPeerId && entry.peerId ≠ partner &&
      isFresh nowSecs entry).insertionSort AdvertisedBefore

structure PlainEngine where
  cfg : PexConfig
  known : KnownSet
  links : Std.ExtTreeMap String LinkState
  hints : Std.ExtTreeMap String ReceivedHint

/-- The state of an engine without epoch and cache. -/
def PexEngine.plain (engine : PexEngine) : PlainEngine :=
  { cfg := engine.cfg
    known := engine.known
    links := engine.links
    hints := engine.hints }

namespace PlainEngine

def new (cfg : PexConfig) : PlainEngine :=
  { cfg := cfg
    known := .empty
    links := ∅
    hints := ∅ }

/-- The same state with a cache that was never filled. -/
def engine (plain : PlainEngine) : PexEngine :=
  { cfg := plain.cfg
    known := plain.known
    links := plain.links
    hints := plain.hints
    knownEpoch := 0
    advertisableCache := none }

def link (plain : PlainEngine) (peerId : String) : LinkState :=
  plain.links.getD peerId (LinkState.new plain.cfg.interval)

def setLink (plain : PlainEngine) (peerId : String) (link : LinkState) :
    PlainEngine :=
  { plain with links := plain.links.insert peerId link }

def upsertKnown (plain : PlainEngine) (entry : PeerEntry) : PlainEngine :=
  if entry.peerId = plain.cfg.localPeerId then
    plain
  else
    { plain with known := plain.known.insert entry }

def removeKnown (plain : PlainEngine) (peerId : String) : PlainEngine :=
  { plain with known := plain.known.remove peerId }

def advertisableFor (plain : PlainEngine) (order : IterationOrder String)
    (partner : String) (nowSecs : Nat) : List PeerEntry :=
  recomputedFor plain.known plain.cfg.localPeerId partner order nowSecs

variable [DefaultHasher]

def linkUp (plain : PlainEngine) (peerId : String) (nowMs : Nat)
    (order : IterationOrder String) (jitter : Jitter) :
    PlainEngine × List PexMessage :=
  let interval := plain.cfg.interval
  let handshake := PexMessage.pexHandshake pexVersion plain.cfg.networkId
    interval plain.cfg.flags
  let peers := trimToFrameBudget
    ((plain.advertisableFor order peerId (nowMs / 1000)).take pexMaxSnapshot)
  let link := plain.link peerId
  let effective :=
    effectiveIntervalSecs interval link.remoteDeclaredSecs
  (plain.setLink peerId
      { link with
        selfIntervalSecs := interval
        handshakeSent := true
        told := FiniteMap.insertAll PeerEntry.peerId
          PeerEntry.fingerprintHash link.told peers
        snapshotSent := true
        lastDataSendMs := some nowMs
        sendJitterMs := plain.cfg.drawJitter jitter effective },
    [handshake, .pexSnapshot peers])

/-- One iteration of the tick loop. -/
def tickLink (nowMs : Nat) (orders : TickOrders) (jitter : String → Jitter) :
    Machine PlainEngine String (Option (String × PexMessage)) :=
  fun plain peerId =>
    let link := plain.link peerId
    if !link.snapshotSent || !link.sendDue nowMs then
      (plain, none)
    else
      let delta := link.deltaAgainst (orders.told peerId)
        (plain.advertisableFor orders.known peerId (nowMs / 1000))
      if delta.1.isEmpty && delta.2.isEmpty then
        (plain, none)
      else
        let effective :=
          effectiveIntervalSecs link.selfIntervalSecs link.remoteDeclaredSecs
        let drawn := plain.cfg.drawJitter (jitter peerId) effective
        (plain.setLink peerId (link.commitDelta delta.1 delta.2 nowMs drawn),
          some (peerId, .pexDelta delta.1 delta.2))

def tick (plain : PlainEngine) (nowMs : Nat) (orders : TickOrders)
    (jitter : String → Jitter) : PlainEngine × List (String × PexMessage) :=
  let peerIds := orders.links.arrange plain.links.keys
  ((tickLink nowMs orders jitter).final plain peerIds,
    ((tickLink nowMs orders jitter).outputs plain peerIds).reduceOption)

/-- The public calls.  Those that send nothing never look at a cache, and are
the engine's own. -/
def step : Machine PlainEngine Call Response :=
  fun plain call =>
    match call with
    | .upsertKnown entry => (plain.upsertKnown entry, .done)
    | .removeKnown peerId => (plain.removeKnown peerId, .done)
    | .linkUp peerId nowMs order jitter =>
        let opened := plain.linkUp peerId nowMs order jitter
        (opened.1, .opening opened.2)
    | .tick nowMs orders jitter =>
        let ticked := plain.tick nowMs orders jitter
        (ticked.1, .deltas ticked.2)
    | .linkDown peerId => ((plain.engine.linkDown peerId).plain, .done)
    | .onMessage peerId message nowMs =>
        let answered := plain.engine.onMessage peerId message nowMs
        (answered.1.plain, .outcome answered.2)
    | .recordViolation peerId code nowMs =>
        let answered := plain.engine.recordViolation peerId code nowMs
        (answered.1.plain, .outcome answered.2)

end PlainEngine

theorem filter_advertisableBase (known : KnownSet)
    (localPeerId partner : String) (order : IterationOrder String)
    (nowSecs : Nat) :
    ((advertisableBase known localPeerId order nowSecs).filter fun entry =>
        entry.peerId ≠ partner) =
      recomputedFor known localPeerId partner order nowSecs := by
  apply @List.Perm.eq_of_pairwise _ AdvertisedBefore
  · intro first second firstMember secondMember forward backward
    have firstKnown :=
      (mem_advertisableBase.mp (List.mem_of_mem_filter firstMember)).1
    have secondListed := (List.mem_insertionSort AdvertisedBefore).mp
      secondMember
    obtain ⟨id, secondKnown⟩ :=
      IterationOrder.mem_values.mp (List.mem_of_mem_filter secondListed)
    have keyed := known.keyed id second secondKnown
    rw [forward.peerId_eq backward, keyed, secondKnown] at firstKnown
    exact (Option.some.inj firstKnown).symm
  · exact (List.pairwise_insertionSort _ _).filter _
  · exact List.pairwise_insertionSort _ _
  · refine ((List.perm_insertionSort AdvertisedBefore _).filter _).trans ?_
    rw [List.filter_filter]
    refine .trans (.of_eq ?_) (List.perm_insertionSort _ _).symm
    apply List.filter_congr
    intro entry _
    cases isFresh nowSecs entry <;> simp [Bool.and_comm]

namespace PexEngine

variable (engine : PexEngine)

theorem CacheCurrent.advertisableFor_fst {engine : PexEngine}
    (current : engine.CacheCurrent) (order : IterationOrder String)
    (partner : String) (nowSecs : Nat) :
    (engine.advertisableFor order partner nowSecs).1 =
      engine.plain.advertisableFor order partner nowSecs := by
  have cached := current.advertisableCached_fst order nowSecs
  have filtered := filter_advertisableBase engine.known
    engine.cfg.localPeerId partner order nowSecs
  rw [← cached] at filtered
  exact filtered

theorem SendFrame.cacheCurrent {order : IterationOrder String}
    {nowSecs : Nat} {before after : PexEngine}
    (frame : SendFrame order nowSecs before after)
    (current : before.CacheCurrent) : after.CacheCurrent := by
  intro cachedSecs base cached other
  rw [frame.known, frame.cfg]
  rw [frame.knownEpoch] at cached
  rcases frame.cache with same | rebuilt
  · exact current _ _ (same.symm.trans cached) other
  · rw [rebuilt, current.advertisableCached_fst] at cached
    cases cached
    exact advertisableBase_eq _ _ _ _ _

/-! ## Receiving does not see the cache -/

theorem ingestEntry_uncached (peerId : String) (nowSecs : Nat)
    (entry : PeerEntry) :
    ingestEntry peerId nowSecs engine.plain.engine entry =
      ((ingestEntry peerId nowSecs engine entry).1.plain.engine,
        (ingestEntry peerId nowSecs engine entry).2) := by
  by_cases kept : engine.Keeps peerId nowSecs entry
  · have keptPlain : engine.plain.engine.Keeps peerId nowSecs entry := kept
    have fresher : engine.plain.engine.isFresher (entry.clamped nowSecs) =
        engine.isFresher (entry.clamped nowSecs) := rfl
    rw [ingestEntry_of_keeps kept, ingestEntry_of_keeps keptPlain, fresher]
    split <;> rfl
  · have skipped : ¬engine.plain.engine.Keeps peerId nowSecs entry := kept
    rw [ingestEntry_of_not_keeps kept, ingestEntry_of_not_keeps skipped]

theorem unlistSource_uncached (peerId id : String) :
    engine.plain.engine.unlistSource peerId id =
      (engine.unlistSource peerId id).plain.engine := by
  have hints : engine.plain.engine.hints = engine.hints := rfl
  by_cases listed : (engine.hints[id]?.any fun hint =>
      hint.source = peerId) = true
  · simp only [unlistSource, hints, if_pos listed]
    rfl
  · simp only [unlistSource, hints, if_neg listed]

theorem ingestDroppedId_uncached (peerId id : String) :
    ingestDroppedId peerId engine.plain.engine id =
      ((ingestDroppedId peerId engine id).1.plain.engine,
        (ingestDroppedId peerId engine id).2) := by
  have link : engine.plain.engine.link peerId = engine.link peerId := rfl
  have forgotten : engine.plain.engine.setLink peerId
        { engine.link peerId with
          received := (engine.link peerId).received.erase id } =
      (engine.forget peerId id).plain.engine := rfl
  unfold ingestDroppedId
  dsimp only
  rw [link, forgotten, unlistSource_uncached]
  split <;> rfl

theorem ingestAdded_uncached (peerId : String) (entries : List PeerEntry)
    (nowMs : Nat) :
    engine.plain.engine.ingestAdded peerId entries nowMs =
      ((engine.ingestAdded peerId entries nowMs).1.plain.engine,
        (engine.ingestAdded peerId entries nowMs).2) := by
  obtain ⟨final, outputs⟩ := Machine.final_erased
    (ingestEntry peerId (nowMs / 1000))
    (fun state entry => ingestEntry_uncached state peerId _ entry)
    engine entries
  simp only [ingestAdded, final, outputs]

theorem ingestDropped_uncached (peerId : String) (dropped : List String) :
    engine.plain.engine.ingestDropped peerId dropped =
      ((engine.ingestDropped peerId dropped).1.plain.engine,
        (engine.ingestDropped peerId dropped).2) := by
  obtain ⟨final, outputs⟩ := Machine.final_erased (ingestDroppedId peerId)
    (fun state id => ingestDroppedId_uncached state peerId id)
    engine dropped
  simp only [ingestDropped, final, outputs]

theorem accept_uncached (peerId : String) (message : PexMessage)
    (nowMs : Nat) :
    engine.plain.engine.accept peerId message nowMs =
      ((engine.accept peerId message nowMs).1.plain.engine,
        (engine.accept peerId message nowMs).2) := by
  have advanced : engine.plain.engine.setLink peerId
        ((engine.plain.engine.link peerId).advance message nowMs) =
      (engine.setLink peerId
        ((engine.link peerId).advance message nowMs)).plain.engine := rfl
  unfold accept
  dsimp only
  rw [advanced]
  cases message with
  | pexError code text => rfl
  | pexHandshake version networkId declared flags => rfl
  | pexSnapshot peers => exact ingestAdded_uncached _ peerId peers nowMs
  | pexDelta added dropped =>
      simp only [ingestAdded_uncached, ingestDropped_uncached]

theorem onMessage_uncached (peerId : String) (message : PexMessage)
    (nowMs : Nat) :
    engine.plain.engine.onMessage peerId message nowMs =
      ((engine.onMessage peerId message nowMs).1.plain.engine,
        (engine.onMessage peerId message nowMs).2) := by
  have link : engine.plain.engine.link peerId = engine.link peerId := rfl
  have cfg : engine.plain.engine.cfg = engine.cfg := rfl
  rw [onMessage_eq, onMessage_eq, link, cfg]
  cases (engine.link peerId).direction.judge engine.cfg.networkId message
    nowMs with
  | ignored => rfl
  | accepted => exact engine.accept_uncached peerId message nowMs
  | struck code => rfl
  | mismatched code => rfl

end PexEngine

variable [DefaultHasher]

namespace PexEngine

theorem tickLink_frame (engine : PexEngine) (nowMs : Nat)
    (orders : TickOrders) (jitter : String → Jitter) (peerId : String) :
    SendFrame orders.known (nowMs / 1000) engine
      (tickLink nowMs orders jitter engine peerId).1 := by
  unfold tickLink
  dsimp only
  split
  · exact .refl engine
  · split
    · exact .cached engine
    · exact (SendFrame.cached engine).setLink _ _

variable {engine : PexEngine}

theorem CacheCurrent.tickLink_plain (current : engine.CacheCurrent)
    (nowMs : Nat) (orders : TickOrders) (jitter : String → Jitter)
    (peerId : String) :
    PlainEngine.tickLink nowMs orders jitter engine.plain peerId =
      ((tickLink nowMs orders jitter engine peerId).1.plain,
        (tickLink nowMs orders jitter engine peerId).2) := by
  have link : engine.plain.link peerId = engine.link peerId := rfl
  unfold PlainEngine.tickLink tickLink buildDelta
  dsimp only
  rw [link, ← current.advertisableFor_fst]
  split
  · rfl
  · rw [advertisableFor_snd, advertisableCached_snd]
    split <;> rfl

theorem CacheCurrent.tick_plain (current : engine.CacheCurrent)
    (nowMs : Nat) (orders : TickOrders) (jitter : String → Jitter) :
    engine.plain.tick nowMs orders jitter =
      ((engine.tick nowMs orders jitter).1.plain,
        (engine.tick nowMs orders jitter).2) := by
  have along : (tickLink nowMs orders jitter).Along
      (fun state _ => state.CacheCurrent) engine
      (orders.links.arrange engine.links.keys) :=
    (Machine.along_iff _ _ _).mpr fun earlier _ _ _ =>
      Machine.final_invariant _ CacheCurrent current
        (fun state peerId current =>
          (tickLink_frame state nowMs orders jitter peerId).cacheCurrent
            current) earlier
  obtain ⟨final, trace⟩ := Machine.simulated _
    (fun _ peerId (current : CacheCurrent _) =>
      current.tickLink_plain nowMs orders jitter peerId) along
  have keys : engine.plain.links.keys = engine.links.keys := rfl
  simp only [PlainEngine.tick, tick, Machine.outputs, keys, final, trace]

theorem CacheCurrent.linkUp_plain (current : engine.CacheCurrent)
    (peerId : String) (nowMs : Nat) (order : IterationOrder String)
    (jitter : Jitter) :
    engine.plain.linkUp peerId nowMs order jitter =
      ((engine.linkUp peerId nowMs order jitter).1.plain,
        (engine.linkUp peerId nowMs order jitter).2) := by
  unfold PlainEngine.linkUp linkUp
  dsimp only
  rw [← current.advertisableFor_fst, advertisableFor_snd,
    advertisableCached_snd]
  rfl

/-- One call with a current cache is the call without a cache. -/
theorem CacheCurrent.engineStep_plain (current : engine.CacheCurrent)
    (call : Call) :
    PlainEngine.step engine.plain call =
      ((engineStep engine call).1.plain, (engineStep engine call).2) := by
  cases call with
  | upsertKnown entry =>
      have cfg : engine.plain.cfg = engine.cfg := rfl
      by_cases selfId : entry.peerId = engine.cfg.localPeerId
      · simp only [PlainEngine.step, PlainEngine.upsertKnown, engineStep,
          upsertKnown, cfg, if_pos selfId]
      · simp only [PlainEngine.step, PlainEngine.upsertKnown, engineStep,
          upsertKnown, cfg, if_neg selfId]
        rfl
  | removeKnown id => rfl
  | linkUp opened nowMs order jitter =>
      simp only [PlainEngine.step, engineStep, current.linkUp_plain]
  | linkDown closed => rfl
  | onMessage source message nowMs =>
      simp only [PlainEngine.step, engineStep, onMessage_uncached]
      rfl
  | recordViolation source code nowMs =>
      simp only [PlainEngine.step, engineStep, recordViolation_eq]
      rfl
  | tick nowMs orders jitter =>
      simp only [PlainEngine.step, engineStep, current.tick_plain]

end PexEngine

/-- A run with fewer than `2 ^ 64` changes of the first-hand set is one of the
engine without a cache. -/
theorem plain_final_trace (cfg : PexConfig) (calls : List Call)
    (few : knownChanges cfg.localPeerId calls < 2 ^ 64) :
    PlainEngine.step.final (PlainEngine.new cfg) calls =
        (engineStep.final (PexEngine.new cfg) calls).plain ∧
      PlainEngine.step.trace (PlainEngine.new cfg) calls =
        engineStep.trace (PexEngine.new cfg) calls := by
  have along : engineStep.Along (fun state _ => state.CacheCurrent)
      (PexEngine.new cfg) calls := by
    rw [Machine.along_iff]
    rintro earlier call later rfl
    apply cacheCurrent_final
    have fewer : knownChanges cfg.localPeerId earlier ≤
        knownChanges cfg.localPeerId (earlier ++ call :: later) := by
      simp [knownChanges]
    omega
  exact engineStep.simulated
    (fun _ call (current : PexEngine.CacheCurrent _) =>
      current.engineStep_plain call) along

/-- The cache is invisible: over any run with fewer than `2 ^ 64` changes of
the first-hand set, the engine returns what an engine without a cache returns
and reaches the same first-hand set, links and hints. -/
theorem advertise_cache_invisible (cfg : PexConfig) (calls : List Call)
    (few : knownChanges cfg.localPeerId calls < 2 ^ 64) :
    engineStep.trace (PexEngine.new cfg) calls =
        PlainEngine.step.trace (PlainEngine.new cfg) calls ∧
      (engineStep.final (PexEngine.new cfg) calls).plain =
        PlainEngine.step.final (PlainEngine.new cfg) calls := by
  obtain ⟨final, trace⟩ := plain_final_trace cfg calls few
  exact ⟨trace.symm, final.symm⟩

omit [DefaultHasher] in
/-- Two links opened in the same second: the second reads the cached list, and
neither is told about its own partner. -/
theorem advertise_cache_invisible_shared :
    let calls : List Call := [.upsertKnown (exampleEntry 'b' 1000 9444),
      .upsertKnown (exampleEntry 'c' 1000 9444),
      .linkUp (exampleId 'b') 1000000 .ascending .zero,
      .linkUp (exampleId 'c') 1000000 .ascending .zero]
    let cfg := exampleConfig (exampleId 'a')
    let past := (@engineStep sipHasher).trace (PexEngine.new cfg) calls
    past = (@PlainEngine.step sipHasher).trace (PlainEngine.new cfg) calls ∧
      (past.map emitted).getLast? =
        some [(exampleId 'c', .pexHandshake 1 "network" 60 []),
          (exampleId 'c', .pexSnapshot [exampleEntry 'b' 1000 9444])] := by
  intro calls cfg past
  refine ⟨?_, by decide +kernel⟩
  exact (@advertise_cache_invisible sipHasher cfg calls
    (by decide +kernel)).1

end DigPex
