import DigPex.Steps

/-!
# The receiver as a history-only monitor

The monitor states the receiving rules of one link lifetime without phases,
clocks or flags: it remembers the accepted messages, counts the strikes, and
reads every verdict off that history.  The engine's fields refine it:
`Monitor.direction` maps a monitor to the fields the handlers keep.
-/

namespace DigPex

/-- What is remembered of one link lifetime. -/
structure Monitor where
  /-- The accepted messages and their times, in order. -/
  accepted : List (PexMessage × Nat)
  strikes : Nat
  mismatched : Bool

/-- The interval a message declares, if it is a handshake. -/
def PexMessage.declaredInterval? : PexMessage → Option Nat
  | .pexHandshake _ _ declared _ => some declared
  | _ => none

def PexMessage.isSnapshot : PexMessage → Bool
  | .pexSnapshot _ => true
  | _ => false

namespace Monitor

def start : Monitor :=
  { accepted := []
    strikes := 0
    mismatched := false }

/-- The interval declared by the accepted handshake. -/
def declared (monitor : Monitor) : Option Nat :=
  monitor.accepted.findSome? fun event => event.1.declaredInterval?

/-- Whether a snapshot was accepted. -/
def opened (monitor : Monitor) : Bool :=
  monitor.accepted.any fun event => event.1.isSnapshot

/-- The time of the previous accepted data message. -/
def lastData (monitor : Monitor) : Option Nat :=
  ((monitor.accepted.filter fun event => event.1.isData).getLast?).map
    Prod.snd

def muted (monitor : Monitor) : Bool :=
  monitor.mismatched || decide (pexViolationLimit ≤ monitor.strikes)

/-- Whether a delta comes too soon after the previous accepted data
message. -/
def early (monitor : Monitor) (nowMs : Nat) : Bool :=
  monitor.lastData.any fun last =>
    nowMs < last +
      (clampInterval (monitor.declared.getD 0) - pexArrivalGrace) * 1000

/-- The rules for a message, in order of precedence: whether the message
breaks the rule, and the code of the rule. -/
def rules (monitor : Monitor) (network : String) (message : PexMessage)
    (nowMs : Nat) : List (Bool × PexErrorCode) :=
  match message with
  | .pexError _ _ => []
  | .pexHandshake version networkId _ _ =>
      [(monitor.declared.isSome, .protocolViolation),
        (version ≠ 1, .unsupportedVersion),
        (networkId ≠ network, .networkMismatch)]
  | .pexSnapshot peers =>
      [(monitor.declared.isNone || monitor.opened, .protocolViolation),
        (200 < peers.length, .oversized)]
  | .pexDelta added dropped =>
      [(!monitor.opened, .protocolViolation),
        (monitor.early nowMs, .rateViolation),
        (50 < added.length ∨ 50 < dropped.length, .oversized),
        (dropped.any fun id => id ∈ added.map PeerEntry.peerId,
          .badMessage)]

/-- A message is accepted when it breaks no rule, and otherwise rejected for
the first rule it breaks. -/
def verdict (monitor : Monitor) (network : String) (message : PexMessage)
    (nowMs : Nat) : Verdict :=
  if monitor.muted then
    .ignored
  else
    match (monitor.rules network message nowMs).find? Prod.fst with
    | none => .accepted
    | some (_, code) =>
        if code.isStrike then .struck code else .mismatched code

/-- One inbound event: a verdict is remembered, a recorded fault is a strike,
and a new lifetime starts when the link goes down. -/
def observe (network : String) (monitor : Monitor) : Inbound → Monitor
  | .message message nowMs =>
      match monitor.verdict network message nowMs with
      | .ignored => monitor
      | .accepted =>
          { monitor with accepted := monitor.accepted ++ [(message, nowMs)] }
      | .struck _ => { monitor with strikes := monitor.strikes + 1 }
      | .mismatched _ => { monitor with mismatched := true }
  | .fault _ => { monitor with strikes := monitor.strikes + 1 }
  | .down => start

/-- The monitor of a link after a run of the engine. -/
def afterCalls (network peerId : String) (calls : List Call) : Monitor :=
  (calls.filterMap (Call.inbound peerId)).foldl (observe network) start

/-- The fields by which the engine represents a monitor. -/
def direction (monitor : Monitor) : Direction :=
  { phase :=
      if monitor.declared.isNone then .awaitingHandshake
      else if monitor.opened then .streaming
      else .awaitingSnapshot
    remoteDeclaredSecs := monitor.declared.map clampInterval
    lastArrivalMs := monitor.lastData
    strikes := monitor.strikes
    muted := monitor.muted }

/-- A snapshot is accepted only after a handshake, and no data before the
snapshot. -/
structure Ordered (monitor : Monitor) : Prop where
  handshakeFirst : monitor.opened = true → monitor.declared.isSome = true
  dataOpened : monitor.lastData.isSome = true → monitor.opened = true

theorem ordered_start : start.Ordered := by
  constructor <;> simp [start, opened, lastData]

theorem direction_start : start.direction = .fresh :=
  rfl

section Accepting

variable (monitor : Monitor) (message : PexMessage) (nowMs : Nat)

def accepting : Monitor :=
  { monitor with accepted := monitor.accepted ++ [(message, nowMs)] }

theorem declared_accepting :
    (monitor.accepting message nowMs).declared =
      monitor.declared.or message.declaredInterval? := by
  have last : [(message, nowMs)].findSome?
      (fun event => event.1.declaredInterval?) =
        message.declaredInterval? := by
    cases declares : message.declaredInterval? <;> simp [declares]
  simp only [declared, accepting, List.findSome?_append, last]

theorem opened_accepting :
    (monitor.accepting message nowMs).opened =
      (monitor.opened || message.isSnapshot) := by
  simp [opened, accepting]

theorem lastData_accepting :
    (monitor.accepting message nowMs).lastData =
      if message.isData then some nowMs else monitor.lastData := by
  simp only [lastData, accepting, List.filter_append]
  cases data : message.isData <;> simp [data]

end Accepting

/-- A delta is early for the monitor exactly when it is under the engine's
arrival floor. -/
theorem early_eq (monitor : Monitor) (nowMs : Nat) :
    monitor.early nowMs =
      monitor.lastData.any fun last => nowMs - last <
        arrivalFloorMs ((monitor.declared.map clampInterval).getD 0) := by
  have same : arrivalFloorMs ((monitor.declared.map clampInterval).getD 0) =
      arrivalFloorMs (monitor.declared.getD 0) := by
    cases monitor.declared <;> simp
  have grace := arrivalFloorMs_add_grace (monitor.declared.getD 0)
  have positive := arrivalFloorMs_pos (monitor.declared.getD 0)
  unfold early
  rw [same]
  generalize arrivalFloorMs (monitor.declared.getD 0) = floor at *
  have spacing : (clampInterval (monitor.declared.getD 0) -
      pexArrivalGrace) * 1000 = floor := by
    rw [Nat.sub_mul, ← grace, Nat.add_sub_cancel]
  rw [spacing]
  congr 1
  funext last
  rw [decide_eq_decide]
  omega

section Phases

variable (monitor : Monitor)

theorem phase_awaitingHandshake_iff :
    monitor.direction.phase = .awaitingHandshake ↔
      monitor.declared.isSome = false := by
  simp only [direction]
  cases monitor.declared <;> cases monitor.opened <;> simp

theorem phase_awaitingSnapshot_iff :
    monitor.direction.phase = .awaitingSnapshot ↔
      (monitor.declared.isNone || monitor.opened) = false := by
  simp only [direction]
  cases monitor.declared <;> cases monitor.opened <;> simp

theorem phase_streaming_iff {monitor : Monitor} (ordered : monitor.Ordered) :
    monitor.direction.phase = .streaming ↔ (!monitor.opened) = false := by
  have first := ordered.handshakeFirst
  simp only [direction]
  cases opened : monitor.opened with
  | false => cases monitor.declared <;> simp
  | true =>
      rw [opened] at first
      have declared := first rfl
      simp [Option.isSome_iff_ne_none.mp declared]

end Phases

/-- The engine's decision on its fields is the monitor's on the history. -/
theorem judge_direction {monitor : Monitor} (ordered : monitor.Ordered)
    (network : String) (message : PexMessage) (nowMs : Nat) :
    monitor.direction.judge network message nowMs =
      monitor.verdict network message nowMs := by
  have sameMute : monitor.direction.muted = monitor.muted := rfl
  have sameFloor : (monitor.direction.lastArrivalMs.any fun last =>
      nowMs - last <
        arrivalFloorMs (monitor.direction.remoteDeclaredSecs.getD 0)) =
      monitor.early nowMs :=
    (monitor.early_eq nowMs).symm
  unfold Direction.judge verdict
  rw [sameMute]
  by_cases muted : monitor.muted = true
  · rw [if_pos muted, if_pos muted]
  · rw [if_neg muted, if_neg muted]
    cases message with
    | pexError code text => rfl
    | pexHandshake version networkId declared flags =>
        simp only [rules, ne_eq, phase_awaitingHandshake_iff]
        cases monitor.declared.isSome <;>
          by_cases versions : version = 1 <;>
            by_cases networks : networkId = network <;>
              simp [versions, networks, pexVersion, PexErrorCode.isStrike]
    | pexSnapshot peers =>
        simp only [rules, ne_eq, phase_awaitingSnapshot_iff]
        cases monitor.declared.isNone || monitor.opened <;>
          by_cases oversized : 200 < peers.length <;>
            simp [oversized, pexMaxSnapshot, PexErrorCode.isStrike]
    | pexDelta added dropped =>
        simp only [rules, ne_eq, phase_streaming_iff ordered, sameFloor]
        have overlaps : (dropped.any fun id =>
            (added.map PeerEntry.peerId).contains id) =
            dropped.any fun id => id ∈ added.map PeerEntry.peerId := by
          simp
        rw [overlaps]
        generalize (dropped.any fun id =>
          decide (id ∈ added.map PeerEntry.peerId)) = overlap
        cases !monitor.opened <;> cases monitor.early nowMs <;>
          by_cases oversized : 50 < added.length ∨ 50 < dropped.length <;>
            cases overlap <;>
              simp [oversized, pexMaxAdded, pexMaxDropped,
                PexErrorCode.isStrike]

theorem observe_accepted {monitor : Monitor} {network : String}
    {message : PexMessage} {nowMs : Nat}
    (accepted : monitor.verdict network message nowMs = .accepted) :
    monitor.observe network (.message message nowMs) =
      monitor.accepting message nowMs := by
  simp only [observe, accepted]
  rfl

theorem direction_accepting {monitor : Monitor} (ordered : monitor.Ordered)
    {network : String} {message : PexMessage} {nowMs : Nat}
    (admits : monitor.direction.Admits network nowMs message) :
    (monitor.accepting message nowMs).Ordered ∧
      (monitor.accepting message nowMs).direction =
        monitor.direction.advance message nowMs := by
  have declared := monitor.declared_accepting message nowMs
  have opened := monitor.opened_accepting message nowMs
  have lastData := monitor.lastData_accepting message nowMs
  have counts : (monitor.accepting message nowMs).strikes = monitor.strikes ∧
      (monitor.accepting message nowMs).muted = monitor.muted := ⟨rfl, rfl⟩
  have handshakeFirst := ordered.handshakeFirst
  have dataOpened := ordered.dataOpened
  cases message with
  | pexError code text =>
      simp only [PexMessage.declaredInterval?, Option.or_none] at declared
      simp only [PexMessage.isSnapshot, Bool.or_false] at opened
      simp only [PexMessage.isData] at lastData
      refine ⟨⟨by simpa [declared, opened], by simpa [lastData, opened]⟩, ?_⟩
      simp [direction, Direction.advance, declared, opened, lastData, counts]
  | pexHandshake version networkId interval flags =>
      have fresh := (phase_awaitingHandshake_iff monitor).mp admits.1
      simp only [PexMessage.declaredInterval?] at declared
      simp only [PexMessage.isSnapshot, Bool.or_false] at opened
      simp only [PexMessage.isData] at lastData
      have unopened : monitor.opened = false := by
        by_contra opened
        simp [handshakeFirst (by simpa using opened)] at fresh
      simp only [Option.isSome_eq_false_iff, Option.isNone_iff_eq_none]
        at fresh
      simp only [fresh, Option.none_or] at declared
      refine ⟨⟨by simp [declared], by simpa [lastData, opened]⟩, ?_⟩
      simp [direction, Direction.advance, declared, opened, unopened,
        lastData, counts]
  | pexSnapshot peers =>
      have waiting := (phase_awaitingSnapshot_iff monitor).mp admits.1
      simp only [PexMessage.declaredInterval?, Option.or_none] at declared
      simp only [PexMessage.isSnapshot, Bool.or_true] at opened
      simp only [PexMessage.isData, if_true] at lastData
      simp only [Bool.or_eq_false_iff] at waiting
      have known : monitor.declared.isSome = true := by
        simpa using waiting.1
      refine ⟨⟨by simp [declared, known], by simp [opened]⟩, ?_⟩
      simp only [direction, Direction.advance, declared, opened, lastData,
        counts, waiting.1]
      rfl
  | pexDelta added dropped =>
      have streaming := (phase_streaming_iff ordered).mp admits.1
      simp only [PexMessage.declaredInterval?, Option.or_none] at declared
      simp only [PexMessage.isSnapshot, Bool.or_false] at opened
      simp only [PexMessage.isData, if_true] at lastData
      simp only [Bool.not_eq_false'] at streaming
      refine ⟨⟨by simpa [declared, opened], by simp [opened, streaming]⟩, ?_⟩
      simp only [direction, Direction.advance, declared, opened, lastData,
        counts]

theorem direction_struck (monitor : Monitor) :
    direction { monitor with strikes := monitor.strikes + 1 } =
      monitor.direction.penalize 1 monitor.direction.strikeMutes := by
  have muted : (monitor.mismatched ||
      decide (pexViolationLimit ≤ monitor.strikes + 1)) =
      (monitor.mismatched || decide (pexViolationLimit ≤ monitor.strikes) ||
        decide (pexViolationLimit ≤ monitor.strikes + 1)) := by
    grind
  calc
    direction { monitor with strikes := monitor.strikes + 1 } =
        { monitor.direction with
          strikes := monitor.strikes + 1
          muted := monitor.mismatched ||
            decide (pexViolationLimit ≤ monitor.strikes + 1) } := rfl
    _ = monitor.direction.penalize 1 monitor.direction.strikeMutes := by
        rw [muted]
        rfl

theorem direction_observe {monitor : Monitor} (ordered : monitor.Ordered)
    (network : String) (event : Inbound) :
    (monitor.observe network event).Ordered ∧
      (monitor.observe network event).direction =
        monitor.direction.receive network event := by
  cases event with
  | down => exact ⟨ordered_start, direction_start⟩
  | fault code =>
      refine ⟨⟨ordered.handshakeFirst, ordered.dataOpened⟩, ?_⟩
      exact direction_struck monitor
  | message message nowMs =>
      have judged := judge_direction ordered network message nowMs
      simp only [Direction.receive, judged]
      cases verdict : monitor.verdict network message nowMs with
      | ignored =>
          simp only [observe, verdict]
          exact ⟨ordered, rfl⟩
      | accepted =>
          rw [observe_accepted verdict]
          rw [verdict, Direction.judge_eq_accepted_iff] at judged
          exact direction_accepting ordered judged.2
      | struck code =>
          simp only [observe, verdict]
          refine ⟨⟨ordered.handshakeFirst, ordered.dataOpened⟩, ?_⟩
          exact direction_struck monitor
      | mismatched code =>
          simp only [observe, verdict]
          refine ⟨⟨ordered.handshakeFirst, ordered.dataOpened⟩, ?_⟩
          calc
            direction { monitor with mismatched := true } =
                { monitor.direction with muted := true } := rfl
            _ = monitor.direction.penalize 0 true := by
                simp [Direction.penalize]

/-- After any inbound events the engine's fields are those of the monitor. -/
theorem direction_foldl (network : String) (events : List Inbound) :
    (events.foldl (observe network) start).Ordered ∧
      (events.foldl (observe network) start).direction =
        events.foldl (Direction.receive network) .fresh := by
  induction events using List.reverseRecOn with
  | nil => exact ⟨ordered_start, direction_start⟩
  | append_singleton events event induction =>
      obtain ⟨ordered, same⟩ := induction
      obtain ⟨nextOrdered, next⟩ := direction_observe ordered network event
      simp only [List.foldl_append, List.foldl_cons, List.foldl_nil]
      exact ⟨nextOrdered, by rw [next, same]⟩

end Monitor

/-- The receiver refines the history-only monitor: after every run, each
link's strikes and mute are the monitor's, and every message is answered by
the verdict that the monitor gives on the inbound events of that link since
it last went down. -/
theorem onMessage_refines_monitor [DefaultHasher] (cfg : PexConfig)
    (calls : List Call) (peerId : String) :
    let engine := engineStep.final (PexEngine.new cfg) calls
    let monitor := Monitor.afterCalls cfg.networkId peerId calls
    (engine.link peerId).strikes = monitor.strikes ∧
      (engine.link peerId).muted = monitor.muted ∧
      ∀ (message : PexMessage) (nowMs : Nat),
        engine.Answers peerId message nowMs
          (monitor.verdict cfg.networkId message nowMs) := by
  intro engine monitor
  have direction : (engine.link peerId).direction = monitor.direction := by
    rw [direction_final, PexEngine.link_new]
    exact (Monitor.direction_foldl cfg.networkId _).2.symm
  have ordered : monitor.Ordered :=
    (Monitor.direction_foldl cfg.networkId _).1
  have sameCfg : engine.cfg = cfg := cfg_final _ calls
  refine ⟨congrArg Direction.strikes direction,
    congrArg Direction.muted direction, ?_⟩
  intro message nowMs
  rw [← Monitor.judge_direction ordered, ← direction, ← sameCfg]
  exact engine.answers_judge peerId message nowMs

end DigPex
