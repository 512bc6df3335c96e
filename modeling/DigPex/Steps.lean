import DigPex.Receiving
import DigPex.Ticking

/-!
# What each public call does to one link

For every call, the link record after it as a function of the record before
it, and the messages the call returns for the link.  Invariants of whole runs
are derived from these step lemmas alone.
-/

namespace DigPex

namespace PexEngine

/-! ## Link records after each call -/

section Records

variable (engine : PexEngine) (peerId : String)

@[simp] theorem link_bumpEpoch (other : String) :
    engine.bumpEpoch.link other = engine.link other :=
  rfl

@[simp] theorem links_upsertKnown (entry : PeerEntry) :
    (engine.upsertKnown entry).links = engine.links := by
  unfold upsertKnown
  split <;> rfl

@[simp] theorem hints_upsertKnown (entry : PeerEntry) :
    (engine.upsertKnown entry).hints = engine.hints := by
  unfold upsertKnown
  split <;> rfl

@[simp] theorem cfg_upsertKnown (entry : PeerEntry) :
    (engine.upsertKnown entry).cfg = engine.cfg := by
  unfold upsertKnown
  split <;> rfl

@[simp] theorem link_upsertKnown (entry : PeerEntry) (other : String) :
    (engine.upsertKnown entry).link other = engine.link other :=
  link_congr (by simp) (by simp)

@[simp] theorem link_removeKnown (id other : String) :
    (engine.removeKnown id).link other = engine.link other :=
  rfl

theorem link_linkDown (other : String) :
    (engine.linkDown peerId).link other =
      if peerId = other then LinkState.new engine.cfg.interval
      else engine.link other := by
  split
  · rename_i same
    subst same
    apply link_of_absent
    simp [linkDown]
  · rename_i different
    have cfg : (engine.linkDown peerId).cfg = engine.cfg := rfl
    refine link_congr ?_ cfg
    simp [linkDown, Std.ExtTreeMap.getElem?_erase, different]

theorem link_penalize (strikes : Nat) (mute : Bool) (other : String) :
    (engine.penalize peerId strikes mute).link other =
      if peerId = other then
        { engine.link peerId with
          strikes := (engine.link peerId).strikes + strikes
          muted := (engine.link peerId).muted || mute
          received := if mute then ∅ else (engine.link peerId).received }
      else engine.link other :=
  link_setLink engine peerId other _

theorem link_accept_of_ne {other : String} (different : other ≠ peerId)
    (message : PexMessage) (nowMs : Nat) :
    (engine.accept peerId message nowMs).1.link other =
      engine.link other := by
  rw [(accept_frame engine peerId message nowMs).link_of_ne different,
    link_setLink_of_ne engine different.symm]

end Records

section Opening

variable [DefaultHasher] (engine : PexEngine) (peerId : String)
  (nowMs : Nat) (order : IterationOrder String) (jitter : Jitter)

/-- The peers of the snapshot a link is opened with. -/
def openingPeers : List PeerEntry :=
  trimToFrameBudget
    ((engine.advertisableFor order peerId (nowMs / 1000)).1.take
      pexMaxSnapshot)

/-- The record of a link after its direction was opened. -/
def openedLink : LinkState :=
  let link := engine.link peerId
  { link with
    selfIntervalSecs := engine.cfg.interval
    handshakeSent := true
    told := FiniteMap.insertAll PeerEntry.peerId PeerEntry.fingerprintHash
      link.told (engine.openingPeers peerId nowMs order)
    snapshotSent := true
    lastDataSendMs := some nowMs
    sendJitterMs := engine.cfg.drawJitter jitter
      (effectiveIntervalSecs engine.cfg.interval link.remoteDeclaredSecs) }

/-- The handshake of a link. -/
def handshake : PexMessage :=
  .pexHandshake pexVersion engine.cfg.networkId engine.cfg.interval
    engine.cfg.flags

theorem linkUp_eq :
    engine.linkUp peerId nowMs order jitter =
      ((engine.advertisableCached order (nowMs / 1000)).2.setLink peerId
          (engine.openedLink peerId nowMs order jitter),
        [engine.handshake,
          .pexSnapshot (engine.openingPeers peerId nowMs order)]) :=
  rfl

theorem linkUp_frame :
    SendFrame order (nowMs / 1000) engine
      (engine.linkUp peerId nowMs order jitter).1 := by
  rw [linkUp_eq]
  exact (SendFrame.cached engine).setLink _ _

theorem link_linkUp (other : String) :
    (engine.linkUp peerId nowMs order jitter).1.link other =
      if peerId = other then engine.openedLink peerId nowMs order jitter
      else engine.link other := by
  rw [linkUp_eq, link_setLink]
  split
  · rfl
  · exact link_congr (by simp) (by rw [advertisableCached_snd])

end Opening

/-! ## The receiving direction -/

section Receiving

variable (engine : PexEngine) (peerId : String)

theorem direction_accept (message : PexMessage) (nowMs : Nat) :
    ((engine.accept peerId message nowMs).1.link peerId).direction =
      (engine.link peerId).direction.advance message nowMs := by
  obtain ⟨received, accepted⟩ := link_accept engine peerId message nowMs
  rw [accepted]
  cases message with
  | pexError code text =>
      simp only [LinkState.advance, Direction.advance]
      split <;> rfl
  | pexHandshake version networkId declared flags => rfl
  | pexSnapshot peers => rfl
  | pexDelta added dropped => rfl

theorem direction_penalize (strikes : Nat) (mute : Bool) :
    ((engine.penalize peerId strikes mute).link peerId).direction =
      (engine.link peerId).direction.penalize strikes mute := by
  rw [link_penalize, if_pos rfl]
  rfl

theorem direction_conclude (message : PexMessage) (nowMs : Nat)
    (verdict : Verdict) :
    ((engine.conclude peerId message nowMs verdict).1.link
        peerId).direction =
      (engine.link peerId).direction.conclude message nowMs verdict := by
  cases verdict with
  | ignored => simp [conclude, Direction.conclude]
  | accepted => exact direction_accept engine peerId message nowMs
  | struck code => exact direction_penalize engine peerId 1 _
  | mismatched code => exact direction_penalize engine peerId 0 true

theorem link_conclude_of_ne {other : String} (different : other ≠ peerId)
    (message : PexMessage) (nowMs : Nat) (verdict : Verdict) :
    (engine.conclude peerId message nowMs verdict).1.link other =
      engine.link other := by
  cases verdict with
  | ignored => simp [conclude]
  | accepted => exact link_accept_of_ne engine peerId different message nowMs
  | struck code => simp [conclude, link_penalize, different.symm]
  | mismatched code => simp [conclude, link_penalize, different.symm]

/-- How the engine answers and counts a message that gets a verdict. -/
def Answers (engine : PexEngine) (peerId : String) (message : PexMessage)
    (nowMs : Nat) (verdict : Verdict) : Prop :=
  let answered := engine.onMessage peerId message nowMs
  let before := engine.link peerId
  let after := answered.1.link peerId
  match verdict with
  | .ignored =>
      before.muted = true ∧ answered = (engine, {})
  | .accepted =>
      before.muted = false ∧
        answered.2.replies = [] ∧
        (∀ code mute, .violation code mute ∉ answered.2.events) ∧
        after.strikes = before.strikes ∧ after.muted = false
  | .struck code =>
      before.muted = false ∧
        answered.2 = violationOutcome code
          (decide (pexViolationLimit ≤ before.strikes + 1)) ∧
        after.strikes = before.strikes + 1 ∧
        after.muted = decide (pexViolationLimit ≤ before.strikes + 1)
  | .mismatched code =>
      before.muted = false ∧
        answered.2 = violationOutcome code true ∧
        after.strikes = before.strikes ∧ after.muted = true

theorem mem_links_of_muted {engine : PexEngine} {peerId : String}
    (muted : (engine.link peerId).muted = true) : peerId ∈ engine.links := by
  by_contra absent
  rw [link_of_absent absent] at muted
  cases muted

theorem onMessage_of_muted {engine : PexEngine} {peerId : String}
    (muted : (engine.link peerId).muted = true) (message : PexMessage)
    (nowMs : Nat) : engine.onMessage peerId message nowMs = (engine, {}) := by
  rw [onMessage_eq, (Direction.judge_eq_ignored_iff _ _ _ _).mpr muted,
    conclude, ensureLink_of_mem (mem_links_of_muted muted)]

theorem answers_judge (engine : PexEngine) (peerId : String)
    (message : PexMessage) (nowMs : Nat) :
    engine.Answers peerId message nowMs
      ((engine.link peerId).direction.judge engine.cfg.networkId message
        nowMs) := by
  have answered := engine.onMessage_eq peerId message nowMs
  have direction := engine.direction_conclude peerId message nowMs
    ((engine.link peerId).direction.judge engine.cfg.networkId message nowMs)
  have ignored : (engine.link peerId).direction.judge engine.cfg.networkId
      message nowMs = .ignored ↔ (engine.link peerId).muted = true :=
    Direction.judge_eq_ignored_iff _ _ _ _
  by_cases muted : (engine.link peerId).muted = true
  · rw [ignored.mpr muted]
    exact ⟨muted, onMessage_of_muted muted message nowMs⟩
  · have judged := mt ignored.mp muted
    simp only [Bool.not_eq_true] at muted
    unfold Answers
    rw [answered]
    dsimp only
    generalize (engine.link peerId).direction.judge engine.cfg.networkId
      message nowMs = verdict at *
    cases verdict with
    | ignored => exact absurd rfl judged
    | accepted =>
        obtain ⟨silent, faultless⟩ :=
          accept_outcome engine peerId message nowMs
        have kept : ((engine.link peerId).direction.advance message
              nowMs).strikes = (engine.link peerId).strikes ∧
            ((engine.link peerId).direction.advance message nowMs).muted =
              (engine.link peerId).muted := by
          cases message <;> exact ⟨rfl, rfl⟩
        refine ⟨muted, silent, faultless, ?_, ?_⟩
        · exact (congrArg Direction.strikes direction).trans kept.1
        · exact (congrArg Direction.muted direction).trans
            (kept.2.trans muted)
    | struck code =>
        refine ⟨muted, rfl, congrArg Direction.strikes direction, ?_⟩
        calc
          _ = ((engine.link peerId).muted ||
              decide (pexViolationLimit ≤
                (engine.link peerId).strikes + 1)) :=
            congrArg Direction.muted direction
          _ = _ := by rw [muted, Bool.false_or]
    | mismatched code =>
        refine ⟨muted, rfl, congrArg Direction.strikes direction, ?_⟩
        exact (congrArg Direction.muted direction).trans (Bool.or_true _)

theorem judge_accepted_of_outcome {engine : PexEngine} {peerId : String}
    {message : PexMessage} {nowMs : Nat}
    (unmuted : (engine.link peerId).muted = false)
    (faultless : ∀ code mute, .violation code mute ∉
      (engine.onMessage peerId message nowMs).2.events) :
    (engine.link peerId).direction.judge engine.cfg.networkId message nowMs =
      .accepted := by
  have answers := engine.answers_judge peerId message nowMs
  cases verdict : (engine.link peerId).direction.judge engine.cfg.networkId
      message nowMs with
  | ignored =>
      rw [verdict] at answers
      exact absurd answers.1 (by simp [unmuted])
  | accepted => rfl
  | struck code =>
      rw [verdict] at answers
      rw [answers.2.1] at faultless
      exact absurd (List.mem_singleton.mpr rfl) (faultless code.asU16 _)
  | mismatched code =>
      rw [verdict] at answers
      rw [answers.2.1] at faultless
      exact absurd (List.mem_singleton.mpr rfl) (faultless code.asU16 _)

end Receiving

end PexEngine

/-- What a call means to the receiving direction of a link. -/
inductive Inbound where
  | message (message : PexMessage) (nowMs : Nat)
  | fault (code : PexErrorCode)
  | down
  deriving DecidableEq

/-- The inbound event a call is for a link, if it is one. -/
def Call.inbound (peerId : String) : Call → Option Inbound
  | .onMessage source message nowMs =>
      if source = peerId then some (.message message nowMs) else none
  | .recordViolation source code _ =>
      if source = peerId then some (.fault code) else none
  | .linkDown source => if source = peerId then some .down else none
  | _ => none

theorem Call.eq_of_inbound_message {call : Call} {peerId : String}
    {message : PexMessage} {nowMs : Nat}
    (inbound : call.inbound peerId = some (.message message nowMs)) :
    call = .onMessage peerId message nowMs := by
  cases call <;> simp_all [Call.inbound]

theorem Call.eq_of_inbound_fault {call : Call} {peerId : String}
    {code : PexErrorCode} (inbound : call.inbound peerId = some (.fault code)) :
    ∃ nowMs, call = .recordViolation peerId code nowMs := by
  cases call <;> simp_all [Call.inbound]

/-- A direction after one inbound event. -/
def Direction.receive (network : String) (direction : Direction) :
    Inbound → Direction
  | .message message nowMs =>
      direction.conclude message nowMs (direction.judge network message nowMs)
  | .fault _ => direction.penalize 1 direction.strikeMutes
  | .down => .fresh

variable [DefaultHasher]

theorem direction_tickedLink (engine : PexEngine) (nowMs : Nat)
    (orders : TickOrders) (jitter : String → Jitter) (peerId : String) :
    (engine.tickedLink nowMs orders jitter peerId).direction =
      (engine.link peerId).direction := by
  unfold PexEngine.tickedLink
  dsimp only
  split <;> rfl

/-- Each call changes a link's receiving direction by its inbound event on
that link, and not at all when it is none. -/
theorem direction_engineStep (engine : PexEngine) (call : Call)
    (peerId : String) :
    ((engineStep engine call).1.link peerId).direction =
      match call.inbound peerId with
      | some event =>
          (engine.link peerId).direction.receive engine.cfg.networkId event
      | none => (engine.link peerId).direction := by
  cases call with
  | upsertKnown entry => simp [engineStep, Call.inbound]
  | removeKnown id => simp [engineStep, Call.inbound]
  | linkUp opened nowMs order jitter =>
      simp only [engineStep, Call.inbound, PexEngine.link_linkUp]
      split
      · rename_i same
        rw [← same]
        rfl
      · rfl
  | linkDown closed =>
      simp only [engineStep, Call.inbound, PexEngine.link_linkDown]
      split <;> rfl
  | onMessage source message nowMs =>
      simp only [engineStep, Call.inbound, PexEngine.onMessage_eq]
      by_cases same : source = peerId
      · subst same
        simp only [if_true, PexEngine.direction_conclude, Direction.receive]
      · rw [PexEngine.link_conclude_of_ne _ _ (Ne.symm same), if_neg same]
  | recordViolation source code nowMs =>
      simp only [engineStep, Call.inbound, PexEngine.recordViolation_eq]
      by_cases same : source = peerId
      · subst same
        simp only [if_true, PexEngine.direction_penalize, Direction.receive,
          PexEngine.strikeMutes]
      · simp [PexEngine.link_penalize, same]
  | tick nowMs orders jitter =>
      simp only [engineStep, Call.inbound, PexEngine.link_tick,
        direction_tickedLink]

theorem received_engineStep {call : Call} {peerId : String}
    (outgoing : call.inbound peerId = none) (engine : PexEngine) :
    ((engineStep engine call).1.link peerId).received =
      (engine.link peerId).received := by
  cases call with
  | upsertKnown entry => simp [engineStep]
  | removeKnown id => rfl
  | linkUp opened nowMs order jitter =>
      simp only [engineStep, PexEngine.link_linkUp]
      split
      · rename_i same
        rw [← same]
        rfl
      · rfl
  | linkDown closed =>
      have other : closed ≠ peerId := by simpa [Call.inbound] using outgoing
      simp only [engineStep, PexEngine.link_linkDown, if_neg other]
  | onMessage source message nowMs =>
      have other : source ≠ peerId := by simpa [Call.inbound] using outgoing
      simp only [engineStep, PexEngine.onMessage_eq]
      rw [PexEngine.link_conclude_of_ne _ _ other.symm]
  | recordViolation source code nowMs =>
      have other : source ≠ peerId := by simpa [Call.inbound] using outgoing
      simp only [engineStep, PexEngine.recordViolation_eq,
        PexEngine.link_penalize, if_neg other]
  | tick nowMs orders jitter =>
      simp only [engineStep, PexEngine.link_tick, PexEngine.tickedLink]
      split <;> rfl

theorem cfg_engineStep (engine : PexEngine) (call : Call) :
    (engineStep engine call).1.cfg = engine.cfg := by
  cases call with
  | upsertKnown entry => simp [engineStep]
  | removeKnown id => rfl
  | linkUp opened nowMs order jitter =>
      exact (PexEngine.linkUp_frame engine opened nowMs order jitter).cfg
  | linkDown closed => rfl
  | onMessage source message nowMs =>
      simp only [engineStep, PexEngine.onMessage_eq]
      cases (engine.link source).direction.judge engine.cfg.networkId
        message nowMs with
      | ignored => rfl
      | accepted =>
          exact (PexEngine.accept_frame engine source message nowMs).cfg
      | struck code => rfl
      | mismatched code => rfl
  | recordViolation source code nowMs =>
      simp only [engineStep, PexEngine.recordViolation_eq]
      rfl
  | tick nowMs orders jitter =>
      exact (PexEngine.tick_frame nowMs orders jitter engine).cfg

@[simp] theorem cfg_final (engine : PexEngine) (calls : List Call) :
    (engineStep.final engine calls).cfg = engine.cfg := by
  induction calls generalizing engine with
  | nil => rfl
  | cons call calls induction =>
      rw [Machine.final_cons, induction, cfg_engineStep]

/-- The receiving direction of a link after a run is what its inbound events
alone make of it. -/
theorem direction_final (engine : PexEngine) (calls : List Call)
    (peerId : String) :
    ((engineStep.final engine calls).link peerId).direction =
      (calls.filterMap (Call.inbound peerId)).foldl
        (Direction.receive engine.cfg.networkId)
        (engine.link peerId).direction := by
  induction calls generalizing engine with
  | nil => rfl
  | cons call calls induction =>
      rw [Machine.final_cons, induction, direction_engineStep,
        cfg_engineStep]
      cases inbound : call.inbound peerId <;> simp [inbound]

end DigPex
