import DigPex.Cadence
import DigPex.Library.Pacing

/-!
# Back-offs are bounded by our own sends

The log of a link's present lifetime records its data messages and the
back-offs applied to it.  Whatever `pex_error` messages arrive, the log is well
paced: a back-off is honoured only while a data message is recent, and only
after the interval of the previous back-off has passed.
-/

namespace DigPex

/-- The length of an interval in milliseconds. -/
def intervalMs (secs : Nat) : Nat :=
  secs * 1000

/-- A log whose slow-downs are back-offs. -/
abbrev WellPaced (configured : Nat) (log : List Pacing) : Prop :=
  Pacing.WellPaced backedOffInterval intervalMs configured log

/-- Whether a call ends a link. -/
def Call.closes (peerId : String) : Call → Bool
  | .linkDown other => other = peerId
  | _ => false

theorem Call.closes_iff {call : Call} {peerId : String} :
    call.closes peerId = true ↔ call = .linkDown peerId := by
  cases call <;> simp [closes]

/-- What a call adds to the log of a link: a back-off, or the data messages it
returns. -/
def pacingOf (peerId : String) (before after : PexEngine) (call : Call)
    (response : Response) : List Pacing :=
  if before.backsOffOn peerId call then
    [.slowed (call.clockMs.getD 0) (after.link peerId).selfIntervalSecs]
  else
    ((messagesFor peerId (call, response)).filter PexMessage.isData).map
      fun _ => .sent call.sendMs

/-- The engine with the log of a link's present lifetime, newest first. -/
def pacedStep [DefaultHasher] (peerId : String) :
    Machine (PexEngine × List Pacing) Call Response :=
  fun state call =>
    let stepped := engineStep state.1 call
    ((stepped.1,
        if call.closes peerId then []
        else pacingOf peerId state.1 stepped.1 call stepped.2 ++ state.2),
      stepped.2)

/-- The log of a link after a run. -/
def pacingLog [DefaultHasher] (cfg : PexConfig) (peerId : String)
    (calls : List Call) : List Pacing :=
  ((pacedStep peerId).final (.new cfg, []) calls).2

theorem pacingOf_of_silent {engine : PexEngine} {call : Call}
    {peerId : String} {response : Response}
    (silent : ¬SendsData peerId (call, response))
    (steady : engine.backsOffOn peerId call = false) (after : PexEngine) :
    pacingOf peerId engine after call response = [] := by
  rw [pacingOf, if_neg (by simp [steady]), List.map_eq_nil_iff,
    List.filter_eq_nil_iff]
  intro message member data
  exact silent ⟨message, member, data⟩

theorem backsOffOn_iff {engine : PexEngine} {peerId : String} {call : Call} :
    engine.backsOffOn peerId call = true ↔
      ∃ code text nowMs,
        call = .onMessage peerId (.pexError code text) nowMs ∧
          (engine.link peerId).muted = false ∧
          (engine.link peerId).backsOff code nowMs = true := by
  unfold PexEngine.backsOffOn
  split
  · rename_i source code text nowMs
    simp only [Bool.and_eq_true, decide_eq_true_eq, Bool.not_eq_true']
    constructor
    · rintro ⟨⟨rfl, unmuted⟩, backs⟩
      exact ⟨code, text, nowMs, rfl, unmuted, backs⟩
    · rintro ⟨_, _, _, same, unmuted, backs⟩
      cases same
      exact ⟨⟨rfl, unmuted⟩, backs⟩
  · rename_i other
    constructor
    · intro impossible
      cases impossible
    · rintro ⟨code, text, nowMs, rfl, _⟩
      exact absurd rfl (other _ _ _ _)

section Sends

variable [DefaultHasher]

theorem pacingOf_of_sendsData {engine : PexEngine} {call : Call}
    {peerId : String}
    (sends : SendsData peerId (call, (engineStep engine call).2))
    (after : PexEngine) :
    pacingOf peerId engine after call (engineStep engine call).2 =
      [.sent call.sendMs] := by
  cases call with
  | linkUp opened nowMs order jitter =>
      obtain rfl := (sendsData_linkUp _ _ _ _ _ _).mp sends
      simp only [pacingOf, PexEngine.backsOffOn, messagesFor_engineStep,
        Bool.false_eq_true, if_false, if_true]
      rfl
  | tick nowMs orders jitter =>
      obtain ⟨delta, owed⟩ :=
        Option.isSome_iff_exists.mp ((sendsData_tick _ _ _ _ _).mp sends)
      simp only [pacingOf, PexEngine.backsOffOn, messagesFor_engineStep,
        owed, Bool.false_eq_true, if_false]
      rfl
  | _ =>
      obtain ⟨_, member, _⟩ := sends
      cases member

theorem clockMs_of_sendsData {engine : PexEngine} {call : Call}
    {peerId : String}
    (sends : SendsData peerId (call, (engineStep engine call).2)) :
    call.clockMs = some call.sendMs := by
  cases call with
  | linkUp opened nowMs order jitter => rfl
  | tick nowMs orders jitter => rfl
  | _ =>
      obtain ⟨_, member, _⟩ := sends
      cases member

end Sends

/-! ## The interval after a number of back-offs -/

theorem iterate_backedOff (configured : Nat) {count : Nat}
    (applied : 1 ≤ count) :
    clampInterval configured ≤ backedOffInterval^[count] configured ∧
      backedOffInterval^[count] configured ≤
        min 3600 (2 ^ count * max configured 30) := by
  induction count, applied using Nat.le_induction with
  | base =>
      simp only [Function.iterate_one, backedOffInterval, clampInterval,
        pexMinInterval, pexMaxInterval]
      omega
  | succ count applied induction =>
      rw [Function.iterate_succ_apply', Nat.pow_succ, Nat.mul_comm _ 2,
        Nat.mul_assoc]
      generalize 2 ^ count * max configured 30 = bound at *
      generalize backedOffInterval^[count] configured = secs at *
      have floor : 30 ≤ bound := by
        simp only [clampInterval, pexMinInterval, pexMaxInterval]
          at induction
        omega
      simp only [backedOffInterval, clampInterval, pexMinInterval,
        pexMaxInterval] at *
      omega

/-! ## The log and the link record -/

/-- What the log of a link says about its record. -/
structure PacingKept (configured : Nat) (clocks : List Nat)
    (link : LinkState) (log : List Pacing) : Prop where
  paced : WellPaced configured log
  clocked : ∀ event ∈ log, event.time ∈ clocks
  unopened : link.snapshotSent = false → log = []
  lastSend : link.lastDataSendMs = Pacing.lastSend log
  lastBackoff : link.lastBackoffAppliedMs =
    (Pacing.lastSlowDown log).map Prod.fst
  interval : link.selfIntervalSecs = Pacing.inForce configured log

namespace PacingKept

variable {configured : Nat} {clocks : List Nat} {link : LinkState}
  {log : List Pacing}

theorem new : PacingKept configured clocks (LinkState.new configured) [] := by
  refine ⟨.empty, ?_, ?_, rfl, rfl, rfl⟩
  · intro event member
    cases member
  · intro
    rfl

/-- A back-off that is honoured answers the newest event of the log, a data
message, and is as far from the previous back-off as its interval. -/
theorem answers (kept : PacingKept configured clocks link log)
    {code nowMs : Nat} (later : ∀ event ∈ log, event.time ≤ nowMs)
    (backs : link.backsOff code nowMs = true) :
    ∃ sentMs rest, log = .sent sentMs :: rest ∧
      ∀ earlier interval,
        Pacing.lastSlowDown rest = some (earlier, interval) →
          earlier < sentMs ∧ earlier + intervalMs interval ≤ nowMs := by
  simp only [LinkState.backsOff, Bool.and_eq_true, decide_eq_true_eq,
    Option.any_eq_true, Bool.not_eq_true', Option.any_eq_false,
    decide_eq_false_iff_not, not_lt] at backs
  obtain ⟨⟨_, sentMs, lastSend, recent⟩, unlimited⟩ := backs
  have grace := arrivalFloorMs_add_grace link.selfIntervalSecs
  rw [kept.lastSend] at lastSend
  -- A stretched interval is its own clamp, so the floor lies below it.
  have limited : ∀ earlier interval,
      Pacing.lastSlowDown log = some (earlier, interval) →
        earlier + intervalMs interval ≤ nowMs ∧
          arrivalFloorMs link.selfIntervalSecs < intervalMs interval := by
    intro earlier interval found
    have applied := unlimited earlier (by rw [kept.lastBackoff, found]; rfl)
    have self : link.selfIntervalSecs = interval := by
      rw [kept.interval, Pacing.inForce, found]
      rfl
    obtain ⟨previous, stretched⟩ := kept.paced.stretched found
    have clamped : clampInterval interval = interval := by
      rw [stretched, backedOffInterval, clampInterval_idem]
    have positive : 30 ≤ interval := by
      rw [← clamped]
      exact le_max_left _ _
    rw [self] at applied grace ⊢
    rw [clamped, pexArrivalGrace] at grace
    unfold intervalMs
    omega
  cases log with
  | nil => cases lastSend
  | cons event rest =>
      cases event with
      | sent newest =>
          obtain rfl : newest = sentMs := Option.some.inj lastSend
          refine ⟨newest, rest, rfl, ?_⟩
          intro earlier interval found
          obtain ⟨distance, floor⟩ := limited earlier interval found
          exact ⟨by omega, distance⟩
      | slowed applied interval =>
          obtain ⟨distance, floor⟩ := limited applied interval rfl
          have before : sentMs ≤ applied :=
            kept.paced.time_le (Pacing.mem_of_lastSend lastSend)
          omega

variable {after : LinkState} {nowMs : Nat}

theorem clocked_cons (kept : PacingKept configured clocks link log)
    {event : Pacing} (now : event.time = nowMs) :
    ∀ logged ∈ event :: log, logged.time ∈ clocks ++ [nowMs] := by
  intro logged member
  rcases List.mem_cons.mp member with rfl | older
  · simp [now]
  · exact List.mem_append_left _ (kept.clocked logged older)

theorem send (kept : PacingKept configured clocks link log)
    (later : ∀ event ∈ log, event.time ≤ nowMs)
    (sent : after.snapshotSent = true)
    (lastSend : after.lastDataSendMs = some nowMs)
    (applied : after.lastBackoffAppliedMs = link.lastBackoffAppliedMs)
    (own : after.selfIntervalSecs = Pacing.inForce configured log) :
    PacingKept configured (clocks ++ [nowMs]) after (.sent nowMs :: log) := by
  refine ⟨.sent kept.paced later, ?_, ?_, lastSend, ?_, own⟩
  · exact kept.clocked_cons rfl
  · intro unsent
    rw [sent] at unsent
    cases unsent
  · exact applied.trans kept.lastBackoff

theorem slow (kept : PacingKept configured clocks link log) {code : Nat}
    (later : ∀ event ∈ log, event.time ≤ nowMs)
    (backs : link.backsOff code nowMs = true)
    (sent : after.snapshotSent = link.snapshotSent)
    (lastSend : after.lastDataSendMs = link.lastDataSendMs)
    (applied : after.lastBackoffAppliedMs = some nowMs)
    (own : after.selfIntervalSecs = backedOffInterval link.selfIntervalSecs) :
    PacingKept configured (clocks ++ [nowMs]) after
      (.slowed nowMs (backedOffInterval link.selfIntervalSecs) :: log) := by
  obtain ⟨sentMs, rest, rfl, apart⟩ := kept.answers later backs
  have stretched : backedOffInterval link.selfIntervalSecs =
      backedOffInterval (Pacing.inForce configured rest) := by
    rw [kept.interval]
    rfl
  have recent : sentMs ≤ nowMs := later (.sent sentMs) (by simp)
  refine ⟨?_, ?_, ?_, ?_, applied, own⟩
  · rw [stretched]
    exact .slowed kept.paced recent apart
  · exact kept.clocked_cons rfl
  · intro unsent
    have empty := kept.unopened (sent.symm.trans unsent)
    cases empty
  · exact lastSend.trans kept.lastSend

theorem idle (kept : PacingKept configured clocks link log) {more : List Nat}
    (sent : after.snapshotSent = link.snapshotSent)
    (lastSend : after.lastDataSendMs = link.lastDataSendMs)
    (applied : after.lastBackoffAppliedMs = link.lastBackoffAppliedMs)
    (own : after.selfIntervalSecs = link.selfIntervalSecs) :
    PacingKept configured (clocks ++ more) after log := by
  refine ⟨kept.paced, ?_, ?_, ?_, ?_, ?_⟩
  · intro event member
    exact List.mem_append_left _ (kept.clocked event member)
  · exact fun unsent => kept.unopened (sent.symm.trans unsent)
  · exact lastSend.trans kept.lastSend
  · exact applied.trans kept.lastBackoff
  · exact own.trans kept.interval

variable [DefaultHasher]

theorem step {engine : PexEngine} {peerId : String} {call : Call}
    (kept : PacingKept engine.cfg.interval clocks (engine.link peerId) log)
    (once : call.opens peerId = true →
      (engine.link peerId).snapshotSent = false)
    (later : ∀ nowMs, call.clockMs = some nowMs →
      ∀ clock ∈ clocks, clock ≤ nowMs) :
    PacingKept engine.cfg.interval (clocks ++ call.clockMs.toList)
      ((engineStep engine call).1.link peerId)
      (pacedStep peerId (engine, log) call).1.2 := by
  by_cases down : call = .linkDown peerId
  · subst down
    simp only [engineStep, PexEngine.link_linkDown, if_true, pacedStep,
      Call.closes, decide_true]
    exact new
  · have lives : call.closes peerId = false :=
      Bool.eq_false_iff.mpr fun closes => down (Call.closes_iff.mp closes)
    have clock := sendClock_engineStep engine down
    have pace := pace_engineStep engine down
    have latest : ∀ nowMs, call.clockMs = some nowMs →
        ∀ event ∈ log, event.time ≤ nowMs := fun nowMs now event member =>
      later nowMs now _ (kept.clocked event member)
    simp only [pacedStep, lives, Bool.false_eq_true, if_false]
    by_cases sends : SendsData peerId (call, (engineStep engine call).2)
    · rw [if_pos sends] at clock
      obtain ⟨sent, clocks⟩ := Prod.mk.inj clock
      obtain ⟨lastSend, drawn⟩ := Prod.mk.inj clocks
      have now := clockMs_of_sendsData sends
      have steady : engine.backsOffOn peerId call = false := by
        apply Bool.eq_false_iff.mpr
        intro backs
        obtain ⟨_, _, _, rfl, _⟩ := backsOffOn_iff.mp backs
        obtain ⟨_, member, _⟩ := sends
        cases member
      have applied := congrArg Prod.snd pace
      have own := congrArg Prod.fst pace
      rw [steady] at applied own
      simp only [LinkState.pace, Bool.false_eq_true, if_false]
        at applied own
      rw [pacingOf_of_sendsData sends, now]
      apply kept.send (latest _ now) sent lastSend
      · rw [applied]
        split <;> rfl
      · rw [own]
        split
        · rename_i opens
          rw [kept.unopened (once opens)]
          rfl
        · exact kept.interval
    · rw [if_neg sends] at clock
      rw [if_neg (mt sendsData_of_opens sends)] at pace
      obtain ⟨sent, clocks⟩ := Prod.mk.inj clock
      obtain ⟨lastSend, drawn⟩ := Prod.mk.inj clocks
      by_cases backs : engine.backsOffOn peerId call = true
      · rw [if_pos backs] at pace
        obtain ⟨own, applied⟩ := Prod.mk.inj pace
        rw [pacingOf, if_pos backs, own]
        obtain ⟨code, text, nowMs, rfl, unmuted, honoured⟩ :=
          backsOffOn_iff.mp backs
        exact kept.slow (latest nowMs rfl) honoured sent lastSend applied own
      · have steady : engine.backsOffOn peerId call = false := by
          simpa using backs
        rw [if_neg backs] at pace
        obtain ⟨own, applied⟩ := Prod.mk.inj pace
        rw [pacingOf_of_silent sends steady]
        exact kept.idle sent lastSend applied own

end PacingKept

variable [DefaultHasher]

theorem fst_final_pacedStep (peerId : String)
    (state : PexEngine × List Pacing) (calls : List Call) :
    ((pacedStep peerId).final state calls).1 =
      engineStep.final state.1 calls := by
  induction calls generalizing state with
  | nil => rfl
  | cons call calls induction => exact induction _

/-- Over a run with a clock that never goes back and a link that is opened
once a lifetime, the log of the link is well paced and agrees with its
record. -/
theorem pacingKept_final (cfg : PexConfig) (peerId : String)
    (calls : List Call) (once : OpensOnce peerId calls)
    (ordered : (calls.filterMap Call.clockMs).Pairwise (· ≤ ·)) :
    PacingKept cfg.interval (calls.filterMap Call.clockMs)
      ((engineStep.final (PexEngine.new cfg) calls).link peerId)
      (pacingLog cfg peerId calls) := by
  induction calls using List.reverseRecOn with
  | nil =>
      rw [Machine.final_nil, PexEngine.link_new]
      exact .new
  | append_singleton calls call induction =>
      obtain ⟨earlier, last⟩ :=
        (Machine.along_append _ false calls [call]).mp once
      rw [List.filterMap_append, List.pairwise_append] at ordered
      have kept := induction earlier ordered.1
      have opening := last.1
      rw [← snapshotSent_final cfg] at opening
      have later : ∀ nowMs, call.clockMs = some nowMs →
          ∀ clock ∈ calls.filterMap Call.clockMs, clock ≤ nowMs := by
        intro nowMs now clock member
        apply ordered.2.2 clock member nowMs
        simp [now]
      have single : [call].filterMap Call.clockMs =
          call.clockMs.toList := by
        cases now : call.clockMs <;> simp [now]
      have sameCfg : (engineStep.final (PexEngine.new cfg) calls).cfg = cfg :=
        cfg_final _ calls
      have paired : (pacedStep peerId).final (.new cfg, []) calls =
          (engineStep.final (PexEngine.new cfg) calls,
            pacingLog cfg peerId calls) :=
        Prod.ext (fst_final_pacedStep peerId _ calls) rfl
      rw [List.filterMap_append, single, Machine.final_concat, pacingLog,
        Machine.final_concat, paired]
      generalize engineStep.final (PexEngine.new cfg) calls = engine at *
      subst sameCfg
      exact kept.step opening later

/-- A spoofed back-off is bounded by our own sends.  Whatever messages arrive,
the back-offs of a link lifetime are no more than its data messages; between
two of them a data message is sent, and they keep the distance of every
interval in force between them; and after any number of them the interval has
at most doubled each time, within its limits. -/
theorem backoff_bounded (cfg : PexConfig) (peerId : String)
    (calls : List Call) (once : OpensOnce peerId calls)
    (ordered : (calls.filterMap Call.clockMs).Pairwise (· ≤ ·)) :
    let link := (engineStep.final (PexEngine.new cfg) calls).link peerId
    let log := pacingLog cfg peerId calls
    let count := Pacing.slowDowns log
    count ≤ Pacing.sends log ∧
      (∀ late second secondSecs middle first firstSecs early,
        log = late ++ .slowed second secondSecs ::
            (middle ++ .slowed first firstSecs :: early) →
          (∃ sentMs, .sent sentMs ∈ middle ∧ first < sentMs ∧
              sentMs ≤ second) ∧
            ∀ applied secs,
              .slowed applied secs ∈ middle ++ [.slowed first firstSecs] →
                first + 1000 * secs ≤ second) ∧
      link.lastBackoffAppliedMs =
        (Pacing.lastSlowDown log).map Prod.fst ∧
      link.selfIntervalSecs = Pacing.inForce cfg.interval log ∧
      (1 ≤ count → clampInterval cfg.interval ≤ link.selfIntervalSecs ∧
        link.selfIntervalSecs ≤
          min 3600 (2 ^ count * max cfg.interval 30)) := by
  intro link log count
  have kept := pacingKept_final cfg peerId calls once ordered
  refine ⟨kept.paced.slowDowns_le.1, ?_, kept.lastBackoff, kept.interval, ?_⟩
  · intro late second secondSecs middle first firstSecs early split
    have paced : WellPaced cfg.interval log := kept.paced
    rw [split] at paced
    obtain ⟨sent, apart⟩ := paced.between
    refine ⟨sent, fun applied secs member => ?_⟩
    rw [Nat.mul_comm 1000 secs]
    exact apart applied secs member
  · intro applied
    have iterated : link.selfIntervalSecs =
        backedOffInterval^[count] cfg.interval :=
      kept.interval.trans kept.paced.inForce_eq
    rw [iterated]
    exact iterate_backedOff cfg.interval applied

omit [DefaultHasher] in
/-- Three spoofed errors, of which the second is ignored: the two back-offs
each answer a data message. -/
theorem backoff_bounded_twice :
    let peerId := exampleId 'b'
    let spoofed (nowMs : Nat) : Call :=
      .onMessage peerId (.pexError 3 "") nowMs
    let calls : List Call := [.linkUp peerId 1000000 .ascending .zero,
      spoofed 1010000, spoofed 1020000,
      .upsertKnown (exampleEntry 'c' 1000 9444),
      .tick 1120000 exampleOrders fun _ => .zero, spoofed 1130000]
    let cfg := exampleConfig (exampleId 'a')
    let link := ((@engineStep sipHasher).final (.new cfg) calls).link peerId
    @pacingLog sipHasher cfg peerId calls =
        [.slowed 1130000 240, .sent 1120000, .slowed 1010000 120,
          .sent 1000000] ∧
      clampInterval 60 ≤ link.selfIntervalSecs ∧
      link.selfIntervalSecs ≤ min 3600 (2 ^ 2 * max 60 30) := by
  intro peerId spoofed calls cfg link
  have logged : @pacingLog sipHasher cfg peerId calls =
      [.slowed 1130000 240, .sent 1120000, .slowed 1010000 120,
        .sent 1000000] := by
    decide +kernel
  obtain ⟨_, _, _, _, limits⟩ := @backoff_bounded sipHasher cfg peerId calls
    (by decide +kernel) (by decide +kernel)
  rw [logged] at limits
  exact ⟨logged, limits (by decide)⟩

end DigPex
