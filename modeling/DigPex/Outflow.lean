import DigPex.Backoff
import DigPex.HonestSender
import DigPex.Inflow

/-!
# What one link is made to send

Within one lifetime of a link, its data messages are spaced by the interval in
force, which nothing that comes in can shorten, and their lists are capped.
So what a remote can make the engine send grows with time only.
-/

namespace DigPex

/-- A call does not end the lifetime of a link, and what it may send on the
link comes within a span of clock values. -/
def Serves (peerId : String) (startMs endMs : Nat) : Call → Prop
  | .linkUp opened nowMs _ _ =>
      opened = peerId → startMs ≤ nowMs ∧ nowMs ≤ endMs
  | .tick nowMs _ _ => startMs ≤ nowMs ∧ nowMs ≤ endMs
  | .linkDown closed => closed ≠ peerId
  | _ => True

instance (peerId : String) (startMs endMs : Nat) :
    ∀ call, Decidable (Serves peerId startMs endMs call)
  | .linkUp _ _ _ _ => inferInstanceAs (Decidable (_ → _))
  | .tick _ _ _ => inferInstanceAs (Decidable (_ ∧ _))
  | .linkDown _ => inferInstanceAs (Decidable (_ ≠ _))
  | .upsertKnown _ => isTrue trivial
  | .removeKnown _ => isTrue trivial
  | .onMessage _ _ _ => isTrue trivial
  | .recordViolation _ _ _ => isTrue trivial

variable [DefaultHasher] {engine : PexEngine} {peerId : String} {call : Call}

/-! ## What one call sends -/

theorem messagesFor_of_silent
    (silent : ¬SendsData peerId (call, (engineStep engine call).2)) :
    messagesFor peerId (call, (engineStep engine call).2) = [] := by
  cases call with
  | linkUp opened nowMs order jitter =>
      rw [sendsData_linkUp] at silent
      rw [messagesFor_engineStep]
      exact if_neg silent
  | tick nowMs orders jitter =>
      rw [sendsData_tick, Option.not_isSome_iff_eq_none] at silent
      rw [messagesFor_engineStep]
      simp only [silent]
      rfl
  | _ => rfl

/-- A call that returns data for a link returns the opening of its lifetime or
one capped delta, an effective interval after the last data message. -/
theorem messagesFor_of_sends
    (sends : SendsData peerId (call, (engineStep engine call).2)) :
    (∃ peers, call.opens peerId = true ∧ peers.length ≤ pexMaxSnapshot ∧
        messagesFor peerId (call, (engineStep engine call).2) =
          [engine.handshake, .pexSnapshot peers]) ∨
      ∃ added dropped, (engine.link peerId).snapshotSent = true ∧
        call.opens peerId = false ∧
        (engine.link peerId).lastDataSendMs.getD 0 +
          (engine.link peerId).effectiveSecs * 1000 ≤ call.sendMs ∧
        added.length ≤ pexMaxAdded ∧ dropped.length ≤ pexMaxDropped ∧
        messagesFor peerId (call, (engineStep engine call).2) =
          [.pexDelta added dropped] := by
  cases call with
  | linkUp opened nowMs order jitter =>
      obtain rfl := (sendsData_linkUp _ _ _ _ _ _).mp sends
      refine .inl ⟨engine.openingPeers opened nowMs order,
        by simp [Call.opens], length_openingPeers_le, ?_⟩
      rw [messagesFor_engineStep]
      exact if_pos rfl
  | tick nowMs orders jitter =>
      obtain ⟨delta, owed⟩ :=
        Option.isSome_iff_exists.mp ((sendsData_tick _ _ _ _ _).mp sends)
      obtain ⟨sent, due, rfl, _⟩ := LinkState.dueDelta_eq_some owed
      obtain ⟨added, dropped⟩ := length_deltaAgainst (engine.link peerId)
        (orders.told peerId)
        (engine.advertisableFor orders.known peerId (nowMs / 1000)).1
      refine .inr ⟨_, _, sent, rfl, ?_, added, dropped, ?_⟩
      · simp only [LinkState.sendDue, decide_eq_true_eq] at due
        simp only [Call.sendMs, LinkState.effectiveSecs]
        omega
      · rw [messagesFor_engineStep]
        simp only [owed]
        rfl
  | _ =>
      obtain ⟨_, member, _⟩ := sends
      cases member

theorem effectiveSecs_engineStep
    (awaits : (engine.link peerId).direction.Awaits)
    (up : call ≠ .linkDown peerId)
    (fresh : call.opens peerId = true →
      (engine.link peerId).selfIntervalSecs = engine.cfg.interval) :
    (engine.link peerId).effectiveSecs ≤
      ((engineStep engine call).1.link peerId).effectiveSecs := by
  have declared := (remoteDeclared_engineStep awaits up
    ((engineStep engine call).1.link peerId).selfIntervalSecs).2
  have own := congrArg Prod.fst (pace_engineStep engine up)
  simp only [LinkState.pace] at own
  refine le_trans ?_ declared
  rw [own]
  split
  · rename_i opens
    rw [LinkState.effectiveSecs, fresh opens]
  · split
    · exact effectiveIntervalSecs_le_backedOff _ _
    · exact le_rfl

/-- Until the snapshot is sent, the configured interval is in use and there is
no data message to back off from. -/
def LinkState.Unstarted (configured : Nat) (link : LinkState) : Prop :=
  link.snapshotSent = false →
    link.selfIntervalSecs = configured ∧ link.lastDataSendMs = none

theorem unstarted_engineStep
    (unstarted : (engine.link peerId).Unstarted engine.cfg.interval)
    (call : Call) :
    ((engineStep engine call).1.link peerId).Unstarted
      engine.cfg.interval := by
  intro unsent
  by_cases down : call = .linkDown peerId
  · subst down
    simp only [engineStep, PexEngine.link_linkDown, if_true]
    exact ⟨rfl, rfl⟩
  · have clock := sendClock_engineStep engine down
    have pace := pace_engineStep engine down
    split at clock
    · have opened : ((engineStep engine call).1.link peerId).snapshotSent =
          true := congrArg Prod.fst clock
      exact absurd (opened.symm.trans unsent) (by decide)
    · rename_i silent
      obtain ⟨sent, clocks⟩ := Prod.mk.inj clock
      obtain ⟨own, last⟩ := unstarted (sent.symm.trans unsent)
      have steady : ¬engine.backsOffOn peerId call = true := by
        intro backs
        obtain ⟨code, _, nowMs, _, _, honoured⟩ := backsOffOn_iff.mp backs
        simp [LinkState.backsOff, last] at honoured
      rw [if_neg (mt sendsData_of_opens silent), if_neg steady] at pace
      exact ⟨(congrArg Prod.fst pace).trans own,
        (congrArg Prod.fst clocks).trans last⟩

theorem unstarted_final (cfg : PexConfig) (calls : List Call)
    (peerId : String) :
    ((engineStep.final (PexEngine.new cfg) calls).link peerId).Unstarted
      cfg.interval := by
  have kept := engineStep.final_invariant
    (fun engine => engine.cfg = cfg ∧
      (engine.link peerId).Unstarted cfg.interval)
    ⟨rfl, by rw [PexEngine.link_new]; exact fun _ => ⟨rfl, rfl⟩⟩
    (by
      rintro engine call ⟨rfl, unstarted⟩
      exact ⟨cfg_engineStep engine call,
        unstarted_engineStep unstarted call⟩) calls
  exact kept.2

/-! ## What a lifetime sends -/

/-- The messages sent on a link over a part of a run fit the time. -/
structure Outflow (peerId : String) (startMs endMs spacing : Nat)
    (sent : List PexMessage) (engine : PexEngine) : Prop where
  awaits : (engine.link peerId).direction.Awaits
  slow : spacing ≤ (engine.link peerId).effectiveSecs * 1000
  unstarted : (engine.link peerId).Unstarted engine.cfg.interval
  unopened : (engine.link peerId).snapshotSent = false → sent = []
  metered : Metered startMs endMs spacing (engine.link peerId).lastDataSendMs
    (sent.countP PexMessage.isData)
  length : sent.length ≤ sent.countP PexMessage.isData + 1
  entries : (sent.flatMap PexMessage.entries).length ≤
    150 * min (sent.countP PexMessage.isData) 1 +
      50 * sent.countP PexMessage.isData
  dropped : (sent.flatMap PexMessage.dropped).length ≤
    50 * sent.countP PexMessage.isData

namespace Outflow

variable {startMs endMs spacing : Nat} {sent : List PexMessage}

theorem step (outflow : Outflow peerId startMs endMs spacing sent engine)
    (serves : Serves peerId startMs endMs call)
    (once : call.opens peerId = true →
      (engine.link peerId).snapshotSent = false) :
    Outflow peerId startMs endMs spacing
      (sent ++ messagesFor peerId (call, (engineStep engine call).2))
      (engineStep engine call).1 := by
  have up : call ≠ .linkDown peerId := by
    rintro rfl
    exact serves rfl
  have awaits := (remoteDeclared_engineStep outflow.awaits up 0).1
  have slow := outflow.slow.trans (Nat.mul_le_mul_right 1000
    (effectiveSecs_engineStep outflow.awaits up fun opens =>
      (outflow.unstarted (once opens)).1))
  have unstarted := unstarted_engineStep outflow.unstarted call
  rw [← cfg_engineStep engine call] at unstarted
  have clock := sendClock_engineStep engine up
  by_cases sends : SendsData peerId (call, (engineStep engine call).2)
  · rw [if_pos sends] at clock
    obtain ⟨opened, clocks⟩ := Prod.mk.inj clock
    have last : ((engineStep engine call).1.link peerId).lastDataSendMs =
        some call.sendMs := congrArg Prod.fst clocks
    have within : startMs ≤ call.sendMs ∧ call.sendMs ≤ endMs := by
      cases call with
      | linkUp other nowMs order jitter =>
          exact serves ((sendsData_linkUp _ _ _ _ _ _).mp sends)
      | tick nowMs orders jitter => exact serves
      | _ =>
          obtain ⟨_, member, _⟩ := sends
          cases member
    rcases messagesFor_of_sends sends with
      ⟨peers, opens, small, messages⟩ |
        ⟨added, dropped, _, _, due, small, few, messages⟩
    · obtain rfl := outflow.unopened (once opens)
      have count : (messagesFor peerId (call, (engineStep engine
          call).2)).countP PexMessage.isData = 1 := by
        rw [messages]
        rfl
      refine ⟨awaits, slow, unstarted, ?_, ?_, ?_, ?_, ?_⟩
      · exact fun unsent => absurd (opened.symm.trans unsent) (by decide)
      · rw [List.nil_append, count, last]
        exact .first within
      · rw [List.nil_append, count, messages]
        exact le_rfl
      · rw [List.nil_append, count, messages]
        change peers.length ≤ 200 at small
        simpa [PexMessage.entries, PexEngine.handshake] using small
      · rw [List.nil_append, messages]
        exact Nat.zero_le _
    · have count : (sent ++ messagesFor peerId (call, (engineStep engine
          call).2)).countP PexMessage.isData =
            sent.countP PexMessage.isData + 1 := by
        rw [messages, List.countP_append]
        rfl
      refine ⟨awaits, slow, unstarted, ?_, ?_, ?_, ?_, ?_⟩
      · exact fun unsent => absurd (opened.symm.trans unsent) (by decide)
      · rw [count, last]
        refine outflow.metered.next ?_ within
        intro time _ before
        rw [before] at due
        exact (Nat.add_le_add_left outflow.slow _).trans due
      · rw [count, messages, List.length_append]
        exact Nat.succ_le_succ outflow.length
      · have bound := outflow.entries
        rw [count, messages, List.flatMap_append, List.length_append]
        simp only [List.flatMap_cons, List.flatMap_nil, List.append_nil,
          PexMessage.entries]
        change added.length ≤ 50 at small
        omega
      · have bound := outflow.dropped
        rw [count, messages, List.flatMap_append, List.length_append]
        simp only [List.flatMap_cons, List.flatMap_nil, List.append_nil,
          PexMessage.dropped]
        change dropped.length ≤ 50 at few
        omega
  · rw [if_neg sends] at clock
    obtain ⟨opened, clocks⟩ := Prod.mk.inj clock
    have last : ((engineStep engine call).1.link peerId).lastDataSendMs =
        (engine.link peerId).lastDataSendMs := congrArg Prod.fst clocks
    rw [messagesFor_of_silent sends, List.append_nil]
    refine ⟨awaits, slow, unstarted, ?_, ?_, outflow.length,
      outflow.entries, outflow.dropped⟩
    · exact fun unsent => outflow.unopened (opened.symm.trans unsent)
    · rw [last]
      exact outflow.metered

theorem final {cfg : PexConfig} {earlier later : List Call}
    (once : OpensOnce peerId (earlier ++ later))
    (serves : ∀ call ∈ later, Serves peerId startMs endMs call) :
    let start := engineStep.final (PexEngine.new cfg) earlier
    Outflow peerId startMs endMs ((start.link peerId).effectiveSecs * 1000)
      ((engineStep.trace start later).flatMap (messagesFor peerId))
      (engineStep.final start later) := by
  intro start
  have along : engineStep.Along (fun engine call =>
      Serves peerId startMs endMs call ∧ (call.opens peerId = true →
        (engine.link peerId).snapshotSent = false)) start later := by
    rw [Machine.along_iff]
    rintro before call after rfl
    refine ⟨serves call (by simp), ?_⟩
    have opening := ((lifetime peerId).along_iff false _).mp once
      (earlier ++ before) call after (by simp)
    rw [← snapshotSent_final cfg, Machine.final_append] at opening
    exact opening
  refine @Machine.trace_invariant_along _ _ _ engineStep _
    (fun past engine => Outflow peerId startMs endMs
      ((start.link peerId).effectiveSecs * 1000)
      (past.flatMap (messagesFor peerId)) engine) start ?_ ?_ later along
  · have unstarted : (start.link peerId).Unstarted start.cfg.interval := by
      rw [cfg_final]
      exact unstarted_final cfg earlier peerId
    exact ⟨(measured_final cfg earlier peerId).awaits, le_rfl, unstarted,
      fun _ => rfl, .none, Nat.zero_le _, Nat.zero_le _, Nat.zero_le _⟩
  · intro past engine call allowed outflow
    rw [List.flatMap_append, List.flatMap_cons, List.flatMap_nil,
      List.append_nil]
    exact outflow.step allowed.1 allowed.2

end Outflow

/-- What one link is made to send is bounded by the time it takes.  Over any
part of a run within one lifetime of a link, whatever comes in on it or on
other links, and however the clock values of its messages lie in a span, the
link is sent at most one message for each interval in force at the start that
fits the span and two more, with at most 50 entries for each and 200 more, and
at most 50 dropped ids for each and 50 more. -/
theorem outflow_bounded (cfg : PexConfig) (earlier later : List Call)
    (peerId : String) (startMs endMs : Nat)
    (once : OpensOnce peerId (earlier ++ later))
    (serves : ∀ call ∈ later, Serves peerId startMs endMs call) :
    let start := engineStep.final (PexEngine.new cfg) earlier
    let sent := (engineStep.trace start later).flatMap (messagesFor peerId)
    let intervalMs := (start.link peerId).effectiveSecs * 1000
    let rounds := (endMs - startMs) / intervalMs
    30000 ≤ intervalMs ∧
      sent.length ≤ rounds + 2 ∧
      (sent.flatMap PexMessage.entries).length ≤ 200 + 50 * rounds ∧
      (sent.flatMap PexMessage.dropped).length ≤ 50 * (rounds + 1) := by
  intro start sent intervalMs rounds
  have flow : Outflow peerId startMs endMs intervalMs sent
      (engineStep.final start later) := Outflow.final once serves
  have floor : 30000 ≤ intervalMs := by
    simp only [intervalMs, LinkState.effectiveSecs, effectiveIntervalSecs,
      pexMinInterval]
    omega
  have fits : sent.countP PexMessage.isData ≤ rounds + 1 :=
    flow.metered.le (by omega)
  have length := flow.length
  have entries := flow.entries
  have dropped := flow.dropped
  refine ⟨floor, ?_, ?_, ?_⟩ <;> omega

omit [DefaultHasher] in
/-- A remote that asks for a longer interval and reports faults is sent no
more for it. -/
theorem outflow_bounded_asked :
    let cfg := exampleConfig (exampleId 'a')
    let earlier : List Call :=
      [.upsertKnown (exampleEntry 'c' 1000 9444),
        .linkUp (exampleId 'b') 1000000 .ascending .zero]
    let later : List Call :=
      [.onMessage (exampleId 'b') (.pexHandshake 1 "network" 120 []) 1010000,
        .onMessage (exampleId 'b') (.pexError 3 "") 1020000,
        .upsertKnown (exampleEntry 'd' 1000 9444),
        .tick 1060000 exampleOrders fun _ => .zero,
        .tick 1120000 exampleOrders fun _ => .zero]
    let start := (@engineStep sipHasher).final (PexEngine.new cfg) earlier
    let sent := ((@engineStep sipHasher).trace start later).flatMap
      (messagesFor (exampleId 'b'))
    let intervalMs := (start.link (exampleId 'b')).effectiveSecs * 1000
    let rounds := (1120000 - 1060000) / intervalMs
    30000 ≤ intervalMs ∧
      sent.length ≤ rounds + 2 ∧
      (sent.flatMap PexMessage.entries).length ≤ 200 + 50 * rounds ∧
      (sent.flatMap PexMessage.dropped).length ≤ 50 * (rounds + 1) := by
  intro cfg earlier later start sent intervalMs rounds
  exact @outflow_bounded sipHasher cfg earlier later (exampleId 'b') 1060000
    1120000 (by decide +kernel) (by decide +kernel)

end DigPex
