import DigPex.Concrete
import DigPex.Steps

/-!
# Faults: rejection is atomic, and when a mute is final

A rejected message changes its link's counters and nothing else.  A muted
direction ignores every message, but `record_violation` does not look at the
mute: it is final exactly in the runs whose transport records no violation on
a muted link.
-/

namespace DigPex

namespace PexEngine

theorem onMessage_of_violation {engine : PexEngine} {peerId : String}
    {message : PexMessage} {nowMs code : Nat} {mute : Bool}
    (reported : .violation code mute ∈
      (engine.onMessage peerId message nowMs).2.events) :
    ∃ (fault : PexErrorCode) (strikes : Nat),
      fault.asU16 = code ∧
        strikes = (if code = 2 ∨ code = 5 then 0 else 1) ∧
        (engine.link peerId).muted = false ∧
        engine.onMessage peerId message nowMs =
          (engine.penalize peerId strikes mute,
            violationOutcome fault mute) := by
  rw [onMessage_eq] at reported ⊢
  have ignored : (engine.link peerId).direction.judge engine.cfg.networkId
      message nowMs = .ignored ↔ (engine.link peerId).muted = true :=
    Direction.judge_eq_ignored_iff _ _ _ _
  cases verdict : (engine.link peerId).direction.judge engine.cfg.networkId
      message nowMs with
  | ignored => simp [verdict, conclude] at reported
  | accepted =>
      rw [verdict] at reported
      exact absurd reported
        ((accept_outcome engine peerId message nowMs).2 code mute)
  | struck fault =>
      have unmuted : (engine.link peerId).muted = false := by
        simpa using mt ignored.mpr (by simp [verdict])
      have strike := (Direction.judge_code _ _ _ _ fault).1 verdict
      rw [verdict] at reported
      simp only [conclude, violationOutcome, List.mem_singleton,
        PexEvent.violation.injEq] at reported
      obtain ⟨rfl, rfl⟩ := reported
      refine ⟨fault, 1, rfl, ?_, unmuted, rfl⟩
      cases fault <;> first | rfl | cases strike
  | mismatched fault =>
      have unmuted : (engine.link peerId).muted = false := by
        simpa using mt ignored.mpr (by simp [verdict])
      have mismatch := (Direction.judge_code _ _ _ _ fault).2 verdict
      rw [verdict] at reported
      simp only [conclude, violationOutcome, List.mem_singleton,
        PexEvent.violation.injEq] at reported
      obtain ⟨rfl, rfl⟩ := reported
      refine ⟨fault, 0, rfl, ?_, unmuted, rfl⟩
      cases fault <;> first | rfl | cases mismatch

/-- Rejection is atomic.  A message that is reported as a violation surfaces
nothing else, and changes only its link's strikes and, exactly when it mutes
the direction, the mute, what the link had told us and the hints it was the
source of.  A `pex_error` changes only the interval and the back-off clock. -/
theorem onMessage_rejected_atomic (engine : PexEngine) (peerId : String)
    (nowMs : Nat) :
    (∀ (message : PexMessage) (code : Nat) (mute : Bool),
      .violation code mute ∈
          (engine.onMessage peerId message nowMs).2.events →
        let link := engine.link peerId
        let answered := engine.onMessage peerId message nowMs
        (∀ entries, .candidates entries ∉ answered.2.events) ∧
          (∀ ids, .dropped ids ∉ answered.2.events) ∧
          link.muted = false ∧
          answered.1 =
            { engine with
              links := engine.links.insert peerId
                { link with
                  strikes :=
                    link.strikes + if code = 2 ∨ code = 5 then 0 else 1
                  muted := mute
                  received := if mute then ∅ else link.received }
              hints :=
                if mute then
                  engine.hints.filter fun _ hint => hint.source ≠ peerId
                else
                  engine.hints }) ∧
      ∀ (code : Nat) (text : String), ∃ (interval : Nat)
        (backoff : Option Nat),
        engine.onMessage peerId (.pexError code text) nowMs =
          ({ engine with
              links := engine.links.insert peerId
                { engine.link peerId with
                  selfIntervalSecs := interval
                  lastBackoffAppliedMs := backoff } }, {}) := by
  constructor
  · intro message code mute reported
    obtain ⟨fault, strikes, _, rfl, unmuted, answered⟩ :=
      onMessage_of_violation reported
    dsimp only
    rw [answered]
    refine ⟨by simp [violationOutcome], by simp [violationOutcome], unmuted,
      ?_⟩
    simp [penalize, setLink, unmuted]
  · intro code text
    rw [onMessage_eq]
    by_cases muted : (engine.link peerId).direction.muted = true
    · rw [(Direction.judge_eq_ignored_iff _ _ _ _).mpr muted]
      exact ⟨_, _, rfl⟩
    · have accepted := (Direction.judge_eq_accepted_iff
        (engine.link peerId).direction engine.cfg.networkId
        (.pexError code text) nowMs).mpr ⟨by simpa using muted, trivial⟩
      rw [accepted]
      simp only [conclude, accept, LinkState.advance]
      split <;> exact ⟨_, _, rfl⟩

end PexEngine

/-- A third snapshot too many mutes the direction, and with it go what the link
had told us and the hint it was the source of. -/
theorem third_fault_mutes :
    let peer := exampleId 'b'
    let told : PexMessage := .pexSnapshot [exampleEntry 'c' 1000 9444]
    let engine := (@engineStep sipHasher).final
      (.new (exampleConfig (exampleId 'a')))
      [.onMessage peer (.pexHandshake 1 "network" 60 []) 1000000,
        .onMessage peer told 1000000, .onMessage peer told 1060000,
        .onMessage peer told 1120000]
    let answered := engine.onMessage peer told 1180000
    (engine.link peer).strikes = 2 ∧
      exampleId 'c' ∈ (engine.link peer).received ∧
      (engine.hints[exampleId 'c']?).isSome = true ∧
      .violation 6 true ∈ answered.2.events ∧
      answered.1.links[peer]? = some { engine.link peer with
        strikes := 3
        muted := true
        received := ∅ } ∧
      answered.1.hints[exampleId 'c']? = none := by
  intro peer told engine answered
  have reported : .violation 6 true ∈ answered.2.events := by
    decide +kernel
  have struck : (engine.link peer).strikes = 2 := by decide +kernel
  have after := ((PexEngine.onMessage_rejected_atomic engine peer
    1180000).1 told 6 true reported).2.2.2
  refine ⟨struck, by decide +kernel, by decide +kernel, reported, ?_, ?_⟩
  · simp only [answered, after]
    rw [Std.ExtTreeMap.getElem?_insert_self, struck]
    rfl
  · simp only [answered, after]
    decide +kernel

/-! ## Mute -/

/-- The call does not record a transport violation on a muted link. -/
def RespectsMute (engine : PexEngine) : Call → Prop
  | .recordViolation peerId _ _ => (engine.link peerId).muted = false
  | _ => True

/-- An inbound call for a muted link returns nothing and changes nothing. -/
def MuteFinal (engine : PexEngine) : Call → Prop
  | .onMessage peerId message nowMs =>
      (engine.link peerId).muted = true →
        engine.onMessage peerId message nowMs = (engine, {})
  | .recordViolation peerId code nowMs =>
      (engine.link peerId).muted = true →
        engine.recordViolation peerId code nowMs = (engine, {})
  | _ => True

theorem muteFinal_iff (engine : PexEngine) (call : Call) :
    MuteFinal engine call ↔ RespectsMute engine call := by
  cases call with
  | onMessage peerId message nowMs =>
      simp only [MuteFinal, RespectsMute, iff_true]
      intro muted
      exact PexEngine.onMessage_of_muted muted message nowMs
  | recordViolation peerId code nowMs =>
      simp only [MuteFinal, RespectsMute]
      constructor
      · intro final
        by_contra muted
        have answered := final (by simpa using muted)
        rw [PexEngine.recordViolation_eq] at answered
        simp [PexEngine.violationOutcome] at answered
      · intro unmuted muted
        rw [unmuted] at muted
        cases muted
  | _ => exact Iff.rfl

/-- Whether an event reports that a direction is muted. -/
def PexEvent.reportsMute : PexEvent → Bool
  | .violation _ mute => mute
  | _ => false

/-- The number of mutes a response reports. -/
def Response.muteReports : Response → Nat
  | .outcome answer => answer.events.countP PexEvent.reportsMute
  | _ => 0

/-- The number of mutes reported for a link in its current lifetime. -/
def muteReports (peerId : String) (past : List (Call × Response)) : Nat :=
  past.foldl (fun reports event =>
    match event.1.inbound peerId with
    | none => reports
    | some .down => 0
    | some _ => reports + event.2.muteReports) 0

theorem muteReports_concat (peerId : String)
    (past : List (Call × Response)) (event : Call × Response) :
    muteReports peerId (past ++ [event]) =
      match event.1.inbound peerId with
      | none => muteReports peerId past
      | some .down => 0
      | some _ => muteReports peerId past + event.2.muteReports := by
  simp [muteReports]

@[simp] theorem muteReports_violationOutcome (code : PexErrorCode)
    (mute : Bool) :
    (Response.outcome (PexEngine.violationOutcome code mute)).muteReports =
      mute.toNat := by
  cases mute <;> rfl

/-- What a direction's counters satisfy: the strikes are within the limit, and
the limit mutes. -/
structure Direction.Counted (direction : Direction) : Prop where
  bounded : direction.strikes ≤ pexViolationLimit
  limitMutes : direction.strikes = pexViolationLimit →
    direction.muted = true

theorem Direction.Counted.fresh : Direction.fresh.Counted := by
  constructor <;> decide

theorem Direction.Counted.struck {direction : Direction}
    (counted : direction.Counted) (unmuted : direction.muted = false) :
    (direction.penalize 1 direction.strikeMutes).Counted := by
  have below : direction.strikes ≠ pexViolationLimit := by
    intro limit
    simp [counted.limitMutes limit] at unmuted
  have bounded := counted.bounded
  refine ⟨?_, fun limit => ?_⟩
  · simp only [Direction.penalize]
    omega
  · simp only [Direction.penalize, Direction.strikeMutes] at limit ⊢
    simp [limit]

theorem Direction.Counted.message {direction : Direction}
    (counted : direction.Counted) (network : String) (message : PexMessage)
    (nowMs : Nat) :
    (direction.receive network (.message message nowMs)).Counted := by
  have ignored := direction.judge_eq_ignored_iff network message nowMs
  simp only [Direction.receive]
  cases verdict : direction.judge network message nowMs with
  | ignored => exact counted
  | accepted =>
      cases message <;> exact ⟨counted.bounded, counted.limitMutes⟩
  | struck code =>
      apply counted.struck
      simpa using mt ignored.mpr (by simp [verdict])
  | mismatched code =>
      exact ⟨counted.bounded, fun _ => by
        simp [Direction.conclude, Direction.penalize]⟩

theorem muteReports_onMessage (engine : PexEngine) (peerId : String)
    (message : PexMessage) (nowMs : Nat) :
    let answered := engine.onMessage peerId message nowMs
    (Response.outcome answered.2).muteReports +
        (engine.link peerId).muted.toNat ≤
      (answered.1.link peerId).muted.toNat := by
  have answers := engine.answers_judge peerId message nowMs
  dsimp only
  cases verdict : (engine.link peerId).direction.judge engine.cfg.networkId
      message nowMs with
  | ignored =>
      rw [verdict] at answers
      rw [answers.2]
      simp [Response.muteReports]
  | accepted =>
      rw [verdict] at answers
      obtain ⟨unmuted, _, faultless, _⟩ := answers
      have none : (engine.onMessage peerId message nowMs).2.events.countP
          PexEvent.reportsMute = 0 := by
        apply List.countP_eq_zero.mpr
        intro event member
        cases event with
        | violation code mute => exact absurd member (faultless code mute)
        | candidates entries => simp [PexEvent.reportsMute]
        | dropped ids => simp [PexEvent.reportsMute]
      simp [Response.muteReports, none, unmuted]
  | struck code =>
      rw [verdict] at answers
      obtain ⟨unmuted, outcome, _, muted⟩ := answers
      rw [outcome, muteReports_violationOutcome, muted, unmuted]
      simp
  | mismatched code =>
      rw [verdict] at answers
      obtain ⟨unmuted, outcome, _, muted⟩ := answers
      rw [outcome, muteReports_violationOutcome, muted, unmuted]
      simp

variable [DefaultHasher]

/-- What holds of a link in a run that respects mutes. -/
structure MuteKept (peerId : String) (past : List (Call × Response))
    (engine : PexEngine) : Prop where
  counted : (engine.link peerId).direction.Counted
  reports : muteReports peerId past ≤ (engine.link peerId).muted.toNat

theorem MuteKept.step {peerId : String} {past : List (Call × Response)}
    {engine : PexEngine} {call : Call} (respects : RespectsMute engine call)
    (kept : MuteKept peerId past engine) :
    MuteKept peerId (past ++ [(call, (engineStep engine call).2)])
      (engineStep engine call).1 := by
  have direction := direction_engineStep engine call peerId
  have muted := congrArg Direction.muted direction
  have reports := muteReports_concat peerId past
    (call, (engineStep engine call).2)
  cases inbound : call.inbound peerId with
  | none =>
      simp only [inbound] at direction muted reports
      refine ⟨direction ▸ kept.counted, ?_⟩
      rw [reports]
      exact kept.reports.trans (le_of_eq (congrArg Bool.toNat muted.symm))
  | some event =>
      simp only [inbound] at direction muted reports
      cases event with
      | down =>
          refine ⟨direction ▸ .fresh, ?_⟩
          rw [reports]
          exact Nat.zero_le _
      | message message nowMs =>
          obtain rfl := Call.eq_of_inbound_message inbound
          refine ⟨direction ▸ kept.counted.message _ _ _, ?_⟩
          have reported := muteReports_onMessage engine peerId message nowMs
          have earlier := kept.reports
          rw [reports]
          simp only [engineStep] at reported ⊢
          omega
      | fault code =>
          obtain ⟨nowMs, rfl⟩ := Call.eq_of_inbound_fault inbound
          have unmuted : (engine.link peerId).muted = false := respects
          refine ⟨direction ▸ kept.counted.struck unmuted, ?_⟩
          have earlier := kept.reports
          have violation := engine.recordViolation_eq peerId code nowMs
          rw [unmuted] at earlier
          rw [reports]
          have after : ((engineStep engine
              (.recordViolation peerId code nowMs)).1.link peerId).muted =
              engine.strikeMutes peerId := by
            rw [show ((engineStep engine (.recordViolation peerId code
              nowMs)).1.link peerId).muted = _ from muted]
            simp [Direction.receive, Direction.penalize, unmuted,
              LinkState.direction, PexEngine.strikeMutes]
          rw [after]
          simp only [engineStep, violation, muteReports_violationOutcome]
          simpa using earlier

/-- When a mute is final.  Along a run, inbound calls for muted links return
nothing and change nothing exactly when no violation is recorded on a muted
link; and then no link has more strikes than the limit, and at most one mute
is reported for each link lifetime. -/
theorem mute_final_iff_respected (cfg : PexConfig) (calls : List Call) :
    let start := PexEngine.new cfg
    (engineStep.Along MuteFinal start calls ↔
        engineStep.Along RespectsMute start calls) ∧
      (engineStep.Along RespectsMute start calls →
        ∀ peerId : String,
          ((engineStep.final start calls).link peerId).strikes ≤
              pexViolationLimit ∧
            muteReports peerId (engineStep.trace start calls) ≤ 1) := by
  intro start
  constructor
  · have same : MuteFinal = RespectsMute := by
      funext engine call
      exact propext (muteFinal_iff engine call)
    rw [same]
  · intro respected peerId
    have initial : MuteKept peerId [] start := by
      have fresh : (start.link peerId).direction = .fresh := by
        rw [PexEngine.link_new]
        rfl
      exact ⟨fresh ▸ .fresh, Nat.zero_le _⟩
    have kept := engineStep.trace_invariant_along initial
      (fun _ _ _ respects kept => MuteKept.step respects kept) respected
    refine ⟨kept.counted.bounded, kept.reports.trans ?_⟩
    exact Bool.toNat_le _

omit [DefaultHasher] in
/-- Three recorded violations and a message respect the mute they cause. -/
theorem mute_final_after_three_violations :
    let violation := Call.recordViolation "peer" .badMessage 0
    let calls := [violation, violation, violation,
      .onMessage "peer" (.pexDelta [] []) 0]
    let start := PexEngine.new (exampleConfig "local")
    (@engineStep sipHasher).Along MuteFinal start calls ∧
      ∀ peerId : String,
        (((@engineStep sipHasher).final start calls).link peerId).strikes ≤
            pexViolationLimit ∧
          muteReports peerId ((@engineStep sipHasher).trace start calls) ≤
            1 := by
  intro violation calls start
  have respected : (@engineStep sipHasher).Along RespectsMute start calls :=
    ⟨rfl, rfl, rfl, trivial, trivial⟩
  obtain ⟨iff, bounded⟩ :=
    @mute_final_iff_respected sipHasher (exampleConfig "local") calls
  exact ⟨iff.mpr respected, bounded respected⟩

omit [DefaultHasher] in
/-- The fourth recorded violation of a link: it is muted, yet the call reports
another mute and counts a strike beyond the limit. -/
theorem fourth_violation_not_ignored :
    let violate := fun engine : PexEngine =>
      engine.recordViolation "peer" .badMessage 0
    let start := PexEngine.new (exampleConfig "local")
    let third := (violate (violate (violate start).1).1).1
    (third.link "peer").muted = true ∧
      (third.link "peer").strikes = pexViolationLimit ∧
      (violate third).2.events = [.violation 1 true] ∧
      ((violate third).1.link "peer").strikes = 4 := by
  decide +kernel

end DigPex
