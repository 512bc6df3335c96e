import DigPex.LinkSupport

/-!
# What one inbound message does

`Direction.judge` is the decision the handlers take together: ignore, accept,
strike or mute.  `onMessage_eq` says once that the handlers are this decision
followed by its consequence, so that no later proof splits them again.  The
frames below say what each consequence leaves alone.
-/

namespace DigPex

/-- The message-level verdict on an inbound message. -/
inductive Verdict where
  | ignored
  | accepted
  | struck (code : PexErrorCode)
  | mismatched (code : PexErrorCode)
  deriving DecidableEq, Repr

/-- The protocol fields of a link's receiving direction. -/
structure Direction where
  phase : RecvPhase
  remoteDeclaredSecs : Option Nat
  lastArrivalMs : Option Nat
  strikes : Nat
  muted : Bool
  deriving DecidableEq, Repr

def LinkState.direction (link : LinkState) : Direction :=
  { phase := link.phase
    remoteDeclaredSecs := link.remoteDeclaredSecs
    lastArrivalMs := link.lastArrivalMs
    strikes := link.strikes
    muted := link.muted }

namespace Direction

def fresh : Direction :=
  { phase := .awaitingHandshake
    remoteDeclaredSecs := none
    lastArrivalMs := none
    strikes := 0
    muted := false }

/-- The verdict of a receiving direction. -/
def judge (direction : Direction) (network : String) (message : PexMessage)
    (nowMs : Nat) : Verdict :=
  if direction.muted then
    .ignored
  else
    match message with
    | .pexError _ _ => .accepted
    | .pexHandshake version networkId _ _ =>
        if direction.phase ≠ .awaitingHandshake then
          .struck .protocolViolation
        else if version ≠ pexVersion then .mismatched .unsupportedVersion
        else if networkId ≠ network then .mismatched .networkMismatch
        else .accepted
    | .pexSnapshot peers =>
        if direction.phase ≠ .awaitingSnapshot then
          .struck .protocolViolation
        else if pexMaxSnapshot < peers.length then .struck .oversized
        else .accepted
    | .pexDelta added dropped =>
        if direction.phase ≠ .streaming then .struck .protocolViolation
        else if direction.lastArrivalMs.any fun last =>
            nowMs - last <
              arrivalFloorMs (direction.remoteDeclaredSecs.getD 0) then
          .struck .rateViolation
        else if pexMaxAdded < added.length ∨
            pexMaxDropped < dropped.length then
          .struck .oversized
        else if dropped.any fun id =>
            (added.map PeerEntry.peerId).contains id then
          .struck .badMessage
        else .accepted

/-- The conditions under which a direction accepts a message. -/
def Admits (direction : Direction) (network : String) (nowMs : Nat) :
    PexMessage → Prop
  | .pexError _ _ => True
  | .pexHandshake version networkId _ _ =>
      direction.phase = .awaitingHandshake ∧ version = pexVersion ∧
        networkId = network
  | .pexSnapshot peers =>
      direction.phase = .awaitingSnapshot ∧ peers.length ≤ pexMaxSnapshot
  | .pexDelta added dropped =>
      direction.phase = .streaming ∧
        (∀ last, direction.lastArrivalMs = some last →
          arrivalFloorMs (direction.remoteDeclaredSecs.getD 0) ≤
            nowMs - last) ∧
        added.length ≤ pexMaxAdded ∧ dropped.length ≤ pexMaxDropped ∧
        ∀ id ∈ dropped, id ∉ added.map PeerEntry.peerId

theorem judge_eq_accepted_iff (direction : Direction) (network : String)
    (message : PexMessage) (nowMs : Nat) :
    direction.judge network message nowMs = .accepted ↔
      direction.muted = false ∧ direction.Admits network nowMs message := by
  unfold judge
  by_cases muted : direction.muted = true
  · simp [muted]
  · rw [if_neg muted]
    simp only [Bool.not_eq_true] at muted
    cases message with
    | pexError code text => simp [Admits, muted]
    | pexHandshake version networkId declared flags =>
        simp only [Admits, muted, true_and]
        split_ifs <;> simp_all
    | pexSnapshot peers =>
        simp only [Admits, muted, true_and]
        split_ifs <;> simp_all
    | pexDelta added dropped =>
        have floor : (direction.lastArrivalMs.any fun last => nowMs - last <
            arrivalFloorMs (direction.remoteDeclaredSecs.getD 0)) = true ↔
            ¬∀ last, direction.lastArrivalMs = some last →
              arrivalFloorMs (direction.remoteDeclaredSecs.getD 0) ≤
                nowMs - last := by
          simp [Option.any_eq_true]
        have overlap : (dropped.any fun id =>
            (added.map PeerEntry.peerId).contains id) = true ↔
            ¬∀ id ∈ dropped, id ∉ added.map PeerEntry.peerId := by
          simp
        simp only [Admits, muted, true_and, floor, overlap]
        split_ifs <;> grind

theorem judge_eq_ignored_iff (direction : Direction) (network : String)
    (message : PexMessage) (nowMs : Nat) :
    direction.judge network message nowMs = .ignored ↔
      direction.muted = true := by
  unfold judge
  by_cases muted : direction.muted = true
  · simp [muted]
  · rw [if_neg muted]
    simp only [muted]
    cases message with
    | pexError code text => simp
    | pexHandshake version networkId declared flags =>
        dsimp only
        split_ifs <;> simp
    | pexSnapshot peers =>
        dsimp only
        split_ifs <;> simp
    | pexDelta added dropped =>
        dsimp only
        split_ifs <;> simp

theorem judge_code (direction : Direction) (network : String)
    (message : PexMessage) (nowMs : Nat) (code : PexErrorCode) :
    (direction.judge network message nowMs = .struck code →
        code.isStrike = true) ∧
      (direction.judge network message nowMs = .mismatched code →
        code.isStrike = false) := by
  unfold judge
  by_cases muted : direction.muted = true
  · simp [muted]
  · rw [if_neg muted]
    cases message with
    | pexError code text => simp
    | pexHandshake version networkId declared flags =>
        dsimp only
        split_ifs <;> simp <;> rintro rfl <;> rfl
    | pexSnapshot peers =>
        dsimp only
        split_ifs <;> simp <;> rintro rfl <;> rfl
    | pexDelta added dropped =>
        dsimp only
        split_ifs <;> simp <;> rintro rfl <;> rfl

/-- A direction after an accepted message. -/
def advance (direction : Direction) (message : PexMessage) (nowMs : Nat) :
    Direction :=
  match message with
  | .pexError _ _ => direction
  | .pexHandshake _ _ declared _ =>
      { direction with
        remoteDeclaredSecs := some (clampInterval declared)
        phase := .awaitingSnapshot }
  | .pexSnapshot _ =>
      { direction with
        phase := .streaming
        lastArrivalMs := some nowMs }
  | .pexDelta _ _ => { direction with lastArrivalMs := some nowMs }

/-- A strike mutes when it reaches the limit. -/
def strikeMutes (direction : Direction) : Bool :=
  pexViolationLimit ≤ direction.strikes + 1

/-- A direction after a fault. -/
def penalize (direction : Direction) (strikes : Nat) (mute : Bool) :
    Direction :=
  { direction with
    strikes := direction.strikes + strikes
    muted := direction.muted || mute }

/-- A direction after the consequence of a verdict. -/
def conclude (direction : Direction) (message : PexMessage) (nowMs : Nat) :
    Verdict → Direction
  | .ignored => direction
  | .accepted => direction.advance message nowMs
  | .struck _ => direction.penalize 1 direction.strikeMutes
  | .mismatched _ => direction.penalize 0 true

end Direction

/-- Whether a `pex_error` makes a link back off: a code-3 error, soon enough
after a data message, and not soon after the last back-off. -/
def LinkState.backsOff (link : LinkState) (code nowMs : Nat) : Bool :=
  code = PexErrorCode.rateViolation.asU16 &&
    (link.lastDataSendMs.any fun sent =>
      nowMs - sent < arrivalFloorMs link.selfIntervalSecs) &&
    !(link.lastBackoffAppliedMs.any fun applied =>
      nowMs - applied < link.selfIntervalSecs * 1000)

/-- The protocol fields of a link after an accepted message: all but what it
has received. -/
def LinkState.advance (link : LinkState) (message : PexMessage)
    (nowMs : Nat) : LinkState :=
  match message with
  | .pexError code _ =>
      if link.backsOff code nowMs then
        { link with
          selfIntervalSecs := backedOffInterval link.selfIntervalSecs
          lastBackoffAppliedMs := some nowMs }
      else
        link
  | .pexHandshake _ _ declared _ =>
      { link with
        remoteDeclaredSecs := some (clampInterval declared)
        phase := .awaitingSnapshot }
  | .pexSnapshot _ =>
      { link with
        phase := .streaming
        lastArrivalMs := some nowMs }
  | .pexDelta _ _ => { link with lastArrivalMs := some nowMs }

theorem LinkState.advance_kept (link : LinkState) (message : PexMessage)
    (nowMs : Nat) :
    (link.advance message nowMs).received = link.received ∧
      (link.advance message nowMs).strikes = link.strikes ∧
      (link.advance message nowMs).muted = link.muted := by
  cases message with
  | pexError code text =>
      simp only [advance]
      split <;> exact ⟨rfl, rfl, rfl⟩
  | _ => exact ⟨rfl, rfl, rfl⟩

namespace PexEngine

/-- The consequence of an accepted message. -/
def accept (engine : PexEngine) (peerId : String) (message : PexMessage)
    (nowMs : Nat) : PexEngine × PexOutcome :=
  let advanced :=
    engine.setLink peerId ((engine.link peerId).advance message nowMs)
  match message with
  | .pexError _ _ | .pexHandshake _ _ _ _ => (advanced, {})
  | .pexSnapshot peers => advanced.ingestAdded peerId peers nowMs
  | .pexDelta added dropped =>
      let ingested := advanced.ingestAdded peerId added nowMs
      let cleared := ingested.1.ingestDropped peerId dropped
      (cleared.1,
        { ingested.2 with events := ingested.2.events ++ cleared.2.events })

/-- The state after a fault: a number of strikes, and when the direction is
muted the link's accumulated state is freed. -/
def penalize (engine : PexEngine) (peerId : String) (strikes : Nat)
    (mute : Bool) : PexEngine :=
  let link := engine.link peerId
  { engine.setLink peerId
      { link with
        strikes := link.strikes + strikes
        muted := link.muted || mute
        received := if mute then ∅ else link.received } with
    hints :=
      if mute then
        engine.hints.filter fun _ hint => hint.source ≠ peerId
      else
        engine.hints }

/-- Whether the next strike of a link mutes it. -/
def strikeMutes (engine : PexEngine) (peerId : String) : Bool :=
  (engine.link peerId).direction.strikeMutes

theorem strike_eq (engine : PexEngine) (peerId : String)
    (code : PexErrorCode) :
    engine.strike peerId code =
      (engine.penalize peerId 1 (engine.strikeMutes peerId),
        violationOutcome code (engine.strikeMutes peerId)) := by
  unfold strike
  simp only [strikeMutes, Direction.strikeMutes, LinkState.direction,
    penalize]
  by_cases mute : pexViolationLimit ≤ (engine.link peerId).strikes + 1
  · simp [mute, freeMutedLinkState]
  · simp [mute, setLink]

theorem muteMismatch_eq (engine : PexEngine) (peerId : String)
    (code : PexErrorCode) :
    engine.muteMismatch peerId code =
      (engine.penalize peerId 0 true, violationOutcome code true) := by
  simp [muteMismatch, freeMutedLinkState, penalize]

@[simp] theorem penalize_ensureLink (engine : PexEngine) (peerId : String)
    (strikes : Nat) (mute : Bool) :
    (engine.ensureLink peerId).penalize peerId strikes mute =
      engine.penalize peerId strikes mute := by
  simp [penalize]

@[simp] theorem strikeMutes_ensureLink (engine : PexEngine)
    (peerId : String) :
    (engine.ensureLink peerId).strikeMutes peerId =
      engine.strikeMutes peerId := by
  simp [strikeMutes]

/-- The consequence of a verdict. -/
def conclude (engine : PexEngine) (peerId : String) (message : PexMessage)
    (nowMs : Nat) : Verdict → PexEngine × PexOutcome
  | .ignored => (engine.ensureLink peerId, {})
  | .accepted => engine.accept peerId message nowMs
  | .struck code =>
      (engine.penalize peerId 1 (engine.strikeMutes peerId),
        violationOutcome code (engine.strikeMutes peerId))
  | .mismatched code =>
      (engine.penalize peerId 0 true, violationOutcome code true)

/-- The handlers are the verdict followed by its consequence. -/
theorem onMessage_eq (engine : PexEngine) (peerId : String)
    (message : PexMessage) (nowMs : Nat) :
    engine.onMessage peerId message nowMs =
      engine.conclude peerId message nowMs
        ((engine.link peerId).direction.judge engine.cfg.networkId message
          nowMs) := by
  unfold onMessage Direction.judge LinkState.direction
  dsimp only
  rw [link_ensureLink]
  by_cases muted : (engine.link peerId).muted = true
  · simp [muted, conclude]
  · rw [if_neg muted, if_neg muted]
    cases message with
    | pexError code text =>
        simp only [onPexError, link_ensureLink, setLink_ensureLink]
        change (if (engine.link peerId).backsOff code nowMs = true
          then _ else _) = _
        simp only [conclude, accept, LinkState.advance]
        cases (engine.link peerId).backsOff code nowMs <;> rfl
    | pexHandshake version networkId declared flags =>
        simp only [onHandshake, link_ensureLink, ensureLink_cfg, strike_eq,
          muteMismatch_eq, penalize_ensureLink, strikeMutes_ensureLink,
          setLink_ensureLink]
        split_ifs <;> rfl
    | pexSnapshot peers =>
        simp only [onSnapshot, link_ensureLink, strike_eq,
          penalize_ensureLink, strikeMutes_ensureLink, setLink_ensureLink]
        split
        · rename_i phase
          rw [if_pos (by simp [phase])]
          rfl
        · rename_i phase
          rw [if_pos (by simp [phase])]
          rfl
        · rename_i phase
          have inPhase : ¬(engine.link peerId).phase ≠ .awaitingSnapshot := by
            simp [phase]
          rw [if_neg inPhase]
          split_ifs <;> rfl
    | pexDelta added dropped =>
        simp only [onDelta, link_ensureLink, strike_eq, penalize_ensureLink,
          strikeMutes_ensureLink, setLink_ensureLink]
        split
        · rename_i phase
          rw [if_pos (by simp [phase])]
          rfl
        · rename_i phase
          rw [if_pos (by simp [phase])]
          rfl
        · rename_i phase
          have inPhase : ¬(engine.link peerId).phase ≠ .streaming := by
            simp [phase]
          rw [if_neg inPhase]
          split_ifs <;> rfl

theorem recordViolation_eq (engine : PexEngine) (peerId : String)
    (code : PexErrorCode) (nowMs : Nat) :
    engine.recordViolation peerId code nowMs =
      (engine.penalize peerId 1 (engine.strikeMutes peerId),
        violationOutcome code (engine.strikeMutes peerId)) := by
  simp [recordViolation, strike_eq]

/-! ## One entry and one dropped id -/

variable {engine : PexEngine} {peerId : String} {nowSecs nowMs : Nat}

/-- Whether an inbound entry passes validation on a link. -/
def Keeps (engine : PexEngine) (peerId : String) (nowSecs : Nat)
    (entry : PeerEntry) : Prop :=
  entry.validate (engine.validateCtx peerId nowSecs) = .ok ()

instance (entry : PeerEntry) : Decidable (engine.Keeps peerId nowSecs entry) :=
  inferInstanceAs (Decidable (_ = _))

theorem ingestEntry_of_keeps {entry : PeerEntry}
    (kept : engine.Keeps peerId nowSecs entry) :
    ingestEntry peerId nowSecs engine entry =
      if engine.isFresher (entry.clamped nowSecs) then
        ((engine.attributeTo peerId (entry.clamped nowSecs)).adoptHint peerId
          (entry.clamped nowSecs), some (entry.clamped nowSecs))
      else
        (engine.attributeTo peerId (entry.clamped nowSecs), none) := by
  unfold Keeps at kept
  simp only [ingestEntry, kept]
  rfl

theorem ingestEntry_of_not_keeps {entry : PeerEntry}
    (skipped : ¬engine.Keeps peerId nowSecs entry) :
    ingestEntry peerId nowSecs engine entry = (engine, none) := by
  unfold Keeps at skipped
  unfold ingestEntry
  split
  · rfl
  · rename_i kept
    exact absurd kept skipped

/-- Forget that a link told an id. -/
def forget (engine : PexEngine) (peerId id : String) : PexEngine :=
  engine.setLink peerId
    { engine.link peerId with
      received := (engine.link peerId).received.erase id }

theorem ingestDroppedId_of_told {id : String}
    (told : id ∈ (engine.link peerId).received) :
    ingestDroppedId peerId engine id =
      ((engine.forget peerId id).unlistSource peerId id, some id) := by
  unfold ingestDroppedId
  dsimp only
  rw [if_pos (Std.ExtTreeMap.contains_iff_mem.mpr told)]
  rfl

theorem ingestDroppedId_of_untold {id : String}
    (present : peerId ∈ engine.links)
    (untold : id ∉ (engine.link peerId).received) :
    ingestDroppedId peerId engine id = (engine, none) := by
  have same : (engine.link peerId).received.erase id =
      (engine.link peerId).received := by
    apply Std.ExtTreeMap.ext_getElem?
    grind
  unfold ingestDroppedId
  dsimp only
  rw [if_neg (by simpa using untold), same, setLink_link_of_mem present]

/-! ## What ingestion leaves alone -/

/-- What ingesting a batch from a link keeps: everything but the hints and
what the link has told us. -/
structure IngestFrame (peerId : String) (before after : PexEngine) :
    Prop where
  cfg : after.cfg = before.cfg
  known : after.known = before.known
  knownEpoch : after.knownEpoch = before.knownEpoch
  cache : after.advertisableCache = before.advertisableCache
  others : ∀ other : String, other ≠ peerId →
    after.links[other]? = before.links[other]?
  own : ∃ received, after.link peerId =
    { before.link peerId with received := received }
  present : peerId ∈ before.links → peerId ∈ after.links

namespace IngestFrame

variable {before middle after : PexEngine}

theorem refl (engine : PexEngine) : IngestFrame peerId engine engine :=
  ⟨rfl, rfl, rfl, rfl, fun _ _ => rfl, ⟨_, rfl⟩, id⟩

theorem trans (first : IngestFrame peerId before middle)
    (second : IngestFrame peerId middle after) :
    IngestFrame peerId before after := by
  obtain ⟨received, own⟩ := second.own
  obtain ⟨_, middleOwn⟩ := first.own
  refine ⟨second.cfg.trans first.cfg, second.known.trans first.known,
    second.knownEpoch.trans first.knownEpoch,
    second.cache.trans first.cache, ?_, ⟨received, ?_⟩,
    fun present => second.present (first.present present)⟩
  · intro other different
    rw [second.others other different, first.others other different]
  · rw [own, middleOwn]

theorem write {received : Std.ExtTreeMap String Nat}
    {hints : Std.ExtTreeMap String ReceivedHint} :
    IngestFrame peerId engine
      { engine.setLink peerId
          { engine.link peerId with received := received } with
        hints := hints } := by
  refine ⟨rfl, rfl, rfl, rfl, ?_, ⟨received, ?_⟩, ?_⟩
  · intro other different
    simpa using fun same => absurd same.symm different
  · exact link_setLink_self engine peerId _
  · intro
    exact (mem_setLink engine peerId peerId _).mpr (.inl rfl)

theorem link_of_ne (frame : IngestFrame peerId before after)
    {other : String} (different : other ≠ peerId) :
    after.link other = before.link other :=
  link_congr (frame.others other different) frame.cfg

theorem keeps_iff (frame : IngestFrame peerId before after)
    (entry : PeerEntry) :
    after.Keeps peerId nowSecs entry ↔ before.Keeps peerId nowSecs entry := by
  simp [Keeps, validateCtx, frame.cfg]

end IngestFrame

theorem ingestEntry_frame (engine : PexEngine) (peerId : String)
    (nowSecs : Nat) (entry : PeerEntry) :
    IngestFrame peerId engine
      (ingestEntry peerId nowSecs engine entry).1 := by
  by_cases kept : engine.Keeps peerId nowSecs entry
  · rw [ingestEntry_of_keeps kept]
    split
    · exact .write
    · exact .write
  · rw [ingestEntry_of_not_keeps kept]
    exact .refl engine

theorem ingestDroppedId_frame (engine : PexEngine) (peerId id : String) :
    IngestFrame peerId engine (ingestDroppedId peerId engine id).1 := by
  unfold ingestDroppedId unlistSource
  dsimp only
  split
  · split
    · exact .write
    · exact .write
  · exact .write

theorem ingestAdded_frame (engine : PexEngine) (peerId : String)
    (entries : List PeerEntry) (nowMs : Nat) :
    IngestFrame peerId engine (engine.ingestAdded peerId entries nowMs).1 :=
  Machine.final_invariant _ (IngestFrame peerId engine) (.refl engine)
    (fun state entry frame =>
      frame.trans (ingestEntry_frame state peerId _ entry)) entries

theorem ingestDropped_frame (engine : PexEngine) (peerId : String)
    (dropped : List String) :
    IngestFrame peerId engine (engine.ingestDropped peerId dropped).1 :=
  Machine.final_invariant _ (IngestFrame peerId engine) (.refl engine)
    (fun state id frame =>
      frame.trans (ingestDroppedId_frame state peerId id)) dropped

/-- An accepted message changes its link's protocol fields by `advance` and
what it carries by ingestion. -/
theorem accept_frame (engine : PexEngine) (peerId : String)
    (message : PexMessage) (nowMs : Nat) :
    IngestFrame peerId
      (engine.setLink peerId ((engine.link peerId).advance message nowMs))
      (engine.accept peerId message nowMs).1 := by
  cases message with
  | pexError code text => exact .refl _
  | pexHandshake version networkId declared flags => exact .refl _
  | pexSnapshot peers => exact ingestAdded_frame _ _ _ _
  | pexDelta added dropped =>
      exact (ingestAdded_frame _ _ _ _).trans (ingestDropped_frame _ _ _)

theorem ingestAdded_quiet (engine : PexEngine) (peerId : String)
    (entries : List PeerEntry) (nowMs : Nat) :
    (engine.ingestAdded peerId entries nowMs).2.replies = [] ∧
      ∀ code mute, .violation code mute ∉
        (engine.ingestAdded peerId entries nowMs).2.events := by
  simp only [ingestAdded]
  split <;> simp

theorem ingestDropped_quiet (engine : PexEngine) (peerId : String)
    (dropped : List String) (code : Nat) (mute : Bool) :
    .violation code mute ∉ (engine.ingestDropped peerId dropped).2.events := by
  simp only [ingestDropped]
  split <;> simp

theorem accept_outcome (engine : PexEngine) (peerId : String)
    (message : PexMessage) (nowMs : Nat) :
    (engine.accept peerId message nowMs).2.replies = [] ∧
      ∀ code mute, .violation code mute ∉
        (engine.accept peerId message nowMs).2.events := by
  cases message with
  | pexError code text => simp [accept]
  | pexHandshake version networkId declared flags => simp [accept]
  | pexSnapshot peers => exact ingestAdded_quiet _ _ _ _
  | pexDelta added dropped =>
      obtain ⟨silent, faultless⟩ := ingestAdded_quiet
        (engine.setLink peerId ((engine.link peerId).advance
          (.pexDelta added dropped) nowMs)) peerId added nowMs
      refine ⟨silent, fun code mute reported => ?_⟩
      rcases List.mem_append.mp reported with early | late
      · exact faultless code mute early
      · exact ingestDropped_quiet _ _ _ code mute late

theorem link_accept (engine : PexEngine) (peerId : String)
    (message : PexMessage) (nowMs : Nat) :
    ∃ received, (engine.accept peerId message nowMs).1.link peerId =
      { (engine.link peerId).advance message nowMs with
        received := received } := by
  obtain ⟨received, own⟩ := (accept_frame engine peerId message nowMs).own
  exact ⟨received, by rw [own, link_setLink_self]⟩

end PexEngine

end DigPex
