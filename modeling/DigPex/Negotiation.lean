import DigPex.Cadence
import DigPex.Network

/-!
# What honest participants negotiate

A direction leaves its first phase only by a handshake, and the handshake of
an honest participant declares its network and its interval.  So a direction
that was opened stands for one network and one pace, and one that serves
another network is never opened.
-/

namespace DigPex

variable [DefaultHasher] {honest : String → Prop}
  {cfg : String → PexConfig} {events : List (String × Call)}

omit [DefaultHasher] in
/-- A direction that was opened, if at all, by the handshake of a remote on
the same network. -/
structure Greeted (own remote : PexConfig) (direction : Direction) :
    Prop where
  awaits : direction.Awaits
  opened : direction.phase ≠ .awaitingHandshake →
    remote.networkId = own.networkId ∧
      direction.remoteDeclaredSecs = some (clampInterval remote.interval)

omit [DefaultHasher] in
theorem Greeted.receive {own remote : PexConfig} {direction : Direction}
    {event : Inbound}
    (genuine : ∀ version network declared flags nowMs,
      event = .message (.pexHandshake version network declared flags) nowMs →
        network = remote.networkId ∧ declared = remote.interval)
    (greeted : Greeted own remote direction) :
    Greeted own remote (direction.receive own.networkId event) := by
  cases event with
  | down => exact ⟨fun _ => rfl, fun opened => absurd rfl opened⟩
  | fault code => exact ⟨greeted.awaits, greeted.opened⟩
  | message message nowMs =>
      simp only [Direction.receive]
      cases verdict : direction.judge own.networkId message nowMs with
      | ignored => exact greeted
      | struck code => exact ⟨greeted.awaits, greeted.opened⟩
      | mismatched code => exact ⟨greeted.awaits, greeted.opened⟩
      | accepted =>
          obtain ⟨-, admits⟩ :=
            (Direction.judge_eq_accepted_iff _ _ _ _).mp verdict
          cases message with
          | pexError code text => exact greeted
          | pexHandshake version network declared flags =>
              obtain ⟨same, rfl⟩ := genuine _ _ _ _ _ rfl
              refine ⟨?_, fun _ => ⟨?_, rfl⟩⟩
              · intro early
                cases early
              · rw [← same, admits.2.2]
          | pexSnapshot peers =>
              refine ⟨?_, fun _ => greeted.opened ?_⟩
              · intro early
                cases early
              · rw [admits.1]
                decide
          | pexDelta added dropped => exact ⟨greeted.awaits, greeted.opened⟩

theorem greeted_network {source : String} (trusted : honest source)
    (target : String)
    (authentic : networkStep.Along (Authentic honest) (.start cfg) events) :
    Greeted (cfg target) (cfg source)
      (((networkStep.final (.start cfg) events).engines target).link
        source).direction := by
  induction events using List.reverseRecOn with
  | nil =>
      have fresh : ((PexEngine.new (cfg target)).link source).direction =
          .fresh := by
        rw [PexEngine.link_new]
        rfl
      exact fresh ▸ ⟨fun _ => rfl, fun opened => absurd rfl opened⟩
  | append_singleton events event induction =>
      obtain ⟨before, here, -⟩ := (Machine.along_append _ _ _ _).mp authentic
      have greeted := induction before
      rw [Machine.final_concat]
      by_cases own : event.1 = target
      · subst own
        simp only [networkStep, Function.update_self]
        rw [direction_engineStep, cfg_engines]
        cases inbound : event.2.inbound source with
        | none => exact greeted
        | some heard =>
            refine greeted.receive ?_
            rintro version network declared flags nowMs rfl
            have call := Call.eq_of_inbound_message inbound
            have heard : event = (event.1, .onMessage source
                (.pexHandshake version network declared flags) nowMs) := by
              rw [← call]
            rw [heard] at here
            obtain ⟨earlier, call, wrote⟩ :=
              wrote_of_wire cfg events (here trusted)
            exact ⟨wrote.declared.2.1, wrote.declared.2.2.1⟩
      · simp only [networkStep, Function.update_of_ne (Ne.symm own)]
        exact greeted

/-- Networks never mix.  Of an honest participant of another network nothing
gets past its handshake, in any run: it declares no interval here, nothing it
says is recorded or becomes a hint, and none of it is surfaced. -/
theorem networks_never_mix (honest : String → Prop)
    (cfg : String → PexConfig) (events : List (String × Call))
    (authentic : networkStep.Along (Authentic honest) (.start cfg) events)
    (target source : String) (trusted : honest source)
    (foreign : (cfg source).networkId ≠ (cfg target).networkId) :
    let network := networkStep.final (.start cfg) events
    let engine := network.engines target
    (engine.link source).phase = .awaitingHandshake ∧
      (engine.link source).remoteDeclaredSecs = none ∧
      (engine.link source).received = ∅ ∧
      (∀ (id : String) (hint : ReceivedHint),
        engine.hints[id]? = some hint → hint.source ≠ source) ∧
      ∀ (message : PexMessage) (nowMs : Nat),
        Authentic honest network (target, .onMessage source message nowMs) →
          (engine.onMessage source message nowMs).2.surfaced = [] := by
  intro network engine
  have unopened : ∀ events,
      networkStep.Along (Authentic honest) (.start cfg) events →
        (((networkStep.final (.start cfg) events).engines target).link
          source).phase = .awaitingHandshake := by
    intro events authentic
    by_contra opened
    exact foreign ((greeted_network trusted target authentic).opened opened).1
  have silent : ∀ events message nowMs,
      networkStep.Along (Authentic honest) (.start cfg) events →
      ((networkStep.final (.start cfg) events).engines target).Accepts source
        message nowMs → message.entries = [] := by
    intro events message nowMs authentic accepted
    have admits := ((Direction.judge_eq_accepted_iff _ _ _ _).mp accepted).2
    have phase := unopened events authentic
    cases message with
    | pexSnapshot peers => cases phase.symm.trans admits.1
    | pexDelta added dropped => cases phase.symm.trans admits.1
    | _ => rfl
  have sourced := @sourced_network _ honest cfg events
    (fun _ link _ _ => link ≠ source) target
    (fun _ _ _ _ _ other => other)
    (fun events link message nowMs before _ accepted entry carried _ same => by
      subst same
      rw [silent events message nowMs before accepted] at carried
      cases carried) authentic
  have phase := unopened events authentic
  refine ⟨phase, (greeted_network trusted target authentic).awaits phase, ?_,
    fun id hint lookup => sourced.hints id hint lookup, ?_⟩
  · apply Std.ExtTreeMap.ext_getElem?
    intro id
    cases lookup : (engine.link source).received[id]? with
    | none => simp
    | some lastSeen => exact absurd rfl (sourced.received _ _ _ lookup)
  · intro message nowMs genuine
    apply List.eq_nil_iff_forall_not_mem.mpr
    intro candidate surfaced
    have response : candidate ∈ (engineStep engine
        (.onMessage source message nowMs)).2.surfaced := surfaced
    obtain ⟨_, _, _, call, accepted, entry, carried, -⟩ :=
      of_mem_surfaced response
    obtain ⟨rfl, rfl, rfl⟩ := Call.onMessage.inj call
    rw [silent events message nowMs authentic accepted] at carried
    cases carried

omit [DefaultHasher] in
/-- An opening of a participant of another network, repeated. -/
theorem networks_never_mix_opening :
    let cfg := fun node =>
      { exampleConfig node with
        networkId := if node = exampleId 'a' then "other" else "network" }
    let events : List (String × Call) := [
      (exampleId 'a', .upsertKnown (exampleEntry 'd' 900 9444)),
      (exampleId 'a', .linkUp (exampleId 'b') 1000000 .ascending .zero),
      (exampleId 'b', .onMessage (exampleId 'a')
        (.pexSnapshot [exampleEntry 'd' 900 9444]) 1000500),
      (exampleId 'b', .onMessage (exampleId 'a')
        (.pexHandshake 1 "other" 60 []) 1000500)]
    let engine := ((@networkStep sipHasher).final (.start cfg) events).engines
      (exampleId 'b')
    (engine.link (exampleId 'a')).received = ∅ := by
  intro cfg events engine
  exact (@networks_never_mix sipHasher (fun _ => True) cfg events
    (by decide +kernel) (exampleId 'b') (exampleId 'a') trivial
    (by decide +kernel)).2.2.1

omit [DefaultHasher] in
/-- An interval that is the configured one until a link backs off, and never
shorter. -/
structure Unhurried (configured : Nat) (pace : Nat × Option Nat) : Prop where
  untouched : pace.2 = none → pace.1 = configured
  slower : clampInterval configured ≤ clampInterval pace.1

theorem Unhurried.step {engine : PexEngine} {peerId : String}
    (unhurried : Unhurried engine.cfg.interval (engine.link peerId).pace)
    (call : Call) :
    Unhurried engine.cfg.interval
      ((engineStep engine call).1.link peerId).pace := by
  by_cases down : call = .linkDown peerId
  · subst down
    simp only [engineStep, PexEngine.link_linkDown, if_true]
    exact ⟨fun _ => rfl, le_rfl⟩
  · rw [pace_engineStep engine down]
    split
    · exact ⟨fun _ => rfl, le_rfl⟩
    · split
      · rename_i backs
        refine ⟨fun never => ?_,
          unhurried.slower.trans (clampInterval_le_backedOff _)⟩
        unfold PexEngine.backsOffOn at backs
        split at backs
        · cases never
        · cases backs
      · exact unhurried

theorem unhurried_final (cfg : PexConfig) (calls : List Call)
    (peerId : String) :
    Unhurried cfg.interval
      ((engineStep.final (.new cfg) calls).link peerId).pace := by
  induction calls using List.reverseRecOn with
  | nil =>
      rw [Machine.final_nil, PexEngine.link_new]
      exact ⟨fun _ => rfl, le_rfl⟩
  | append_singleton calls call induction =>
      have own : (engineStep.final (.new cfg) calls).cfg = cfg :=
        cfg_final _ _
      rw [Machine.final_concat]
      conv => arg 1; rw [← own]
      exact Unhurried.step (by rw [own]; exact induction) call

omit [DefaultHasher] in
/-- The slower of two declared intervals. -/
def agreedSecs (first second : PexConfig) : Nat :=
  max (clampInterval first.interval) (clampInterval second.interval)

omit [DefaultHasher] in
/-- A link on which a remote has declared its interval is paced by the slower
of both, or slower once it has backed off. -/
theorem effectiveSecs_of_greeted {own remote : PexConfig} {link : LinkState}
    (unhurried : Unhurried own.interval link.pace)
    (declared : link.remoteDeclaredSecs =
      some (clampInterval remote.interval)) :
    agreedSecs own remote ≤ link.effectiveSecs ∧
      (link.lastBackoffAppliedMs = none →
        link.effectiveSecs = agreedSecs own remote) := by
  have slower : clampInterval own.interval ≤
      clampInterval link.selfIntervalSecs := unhurried.slower
  have effective : link.effectiveSecs =
      max (clampInterval link.selfIntervalSecs)
        (clampInterval remote.interval) := by
    rw [LinkState.effectiveSecs, declared]
    simp only [effectiveIntervalSecs, Option.map_some, Option.getD_some,
      clampInterval_idem]
    simp only [clampInterval, pexMinInterval]
    omega
  rw [effective, agreedSecs]
  refine ⟨max_le_max_right _ slower, fun never => ?_⟩
  have same : link.selfIntervalSecs = own.interval :=
    unhurried.untouched never
  rw [same]

omit [DefaultHasher] in
/-- An interval no shorter than the one declared to the remote is above the
floor the remote judges arrivals by. -/
theorem arrivalFloorMs_lt {declared secs : Nat}
    (slower : clampInterval declared ≤ secs) :
    arrivalFloorMs (clampInterval declared) < 1000 * secs := by
  have grace := arrivalFloorMs_add_grace declared
  rw [arrivalFloorMs_clampInterval]
  simp only [pexArrivalGrace] at grace
  omega

/-- Two honest participants agree on their pace.  In every run of a network in
which each has accepted the other's handshake, a delta of the first to the
second comes no earlier after the last data message than the slower of the two
declared intervals and the jitter drawn with that message allow, and so later
than the floor the second judges arrivals by; and until the first backs off, a
tick that finds something to say sends as soon as that time has passed. -/
theorem pace_agreed (honest : String → Prop) (cfg : String → PexConfig)
    (events : List (String × Call))
    (authentic : networkStep.Along (Authentic honest) (.start cfg) events)
    (first second : String) (trusted : honest first ∧ honest second)
    (earlier : List Call) (call : Call) (between : List Call)
    (own : callsOf first events = earlier ++ call :: between)
    (last : LastSent (cfg first) second earlier call between) :
    let network := networkStep.final (.start cfg) events
    let engine := network.engines first
    let near := engine.link second
    let far := (network.engines second).link first
    let agreed := agreedSecs (cfg first) (cfg second)
    let drawn := call.drawnMs (engineStep.final (.new (cfg first)) earlier)
      second
    near.phase ≠ .awaitingHandshake → far.phase ≠ .awaitingHandshake →
      ∀ (nowMs : Nat) (orders : TickOrders) (jitter : String → Jitter),
        let sends := ∃ added dropped,
          (second, PexMessage.pexDelta added dropped) ∈
            (engine.tick nowMs orders jitter).2
        (sends → call.sendMs + 1000 * agreed + drawn ≤ nowMs ∧
          call.sendMs + arrivalFloorMs (far.remoteDeclaredSecs.getD 0) <
            nowMs) ∧
        (near.lastBackoffAppliedMs = none →
          Pending engine second orders.known (nowMs / 1000) →
            (sends ↔ call.sendMs + 1000 * agreed + drawn ≤ nowMs)) := by
  intro network engine near far agreed drawn nearOpened farOpened nowMs orders
    jitter sends
  have nearDeclared := ((greeted_network trusted.2 first authentic).opened
    nearOpened).2
  have farDeclared : far.remoteDeclaredSecs =
      some (clampInterval (cfg first).interval) :=
    ((greeted_network trusted.1 second authentic).opened farOpened).2
  have reached : engine = engineStep.final (.new (cfg first))
      (earlier ++ call :: between) := by
    simp only [engine, network, engines_start, own]
  have pace : Unhurried (cfg first).interval near.pace := by
    simp only [near, reached]
    exact unhurried_final _ _ _
  obtain ⟨slower, exactly⟩ := effectiveSecs_of_greeted pace nearDeclared
  have sent : near.snapshotSent = true := by
    simp only [near, reached]
    exact congrArg Prod.fst last.sendClock
  have due : near.sendDue nowMs = true ↔
      call.sendMs + 1000 * near.effectiveSecs + drawn ≤ nowMs := by
    simp only [near, reached]
    exact last.sendDue_iff nowMs
  refine ⟨fun sending => ?_, fun never pending => ⟨fun sending => ?_,
    fun elapsed => ?_⟩⟩
  · have elapsed := due.mp (sendDue_of_sends sending)
    have floor := arrivalFloorMs_lt ((le_max_left _ _).trans slower)
    rw [farDeclared, Option.getD_some]
    constructor
    · have spaced : agreed ≤ near.effectiveSecs := slower
      omega
    · omega
  · have elapsed := due.mp (sendDue_of_sends sending)
    rwa [exactly never] at elapsed
  · refine sends_of_sendDue jitter sent (due.mpr ?_) pending
    rwa [exactly never]

omit [DefaultHasher] in
/-- Two participants that declare sixty and ninety seconds: a delta of the
first is sent ninety seconds after its snapshot, and not earlier. -/
theorem pace_agreed_ninety :
    let cfg := fun node =>
      { exampleConfig node with
        interval := if node = exampleId 'a' then 60 else 90 }
    let events : List (String × Call) := [
      (exampleId 'a', .linkUp (exampleId 'b') 1000000 .ascending .zero),
      (exampleId 'b', .linkUp (exampleId 'a') 1000000 .ascending .zero),
      (exampleId 'b', .onMessage (exampleId 'a')
        (.pexHandshake 1 "network" 60 []) 1000500),
      (exampleId 'a', .onMessage (exampleId 'b')
        (.pexHandshake 1 "network" 90 []) 1000500),
      (exampleId 'a', .upsertKnown (exampleEntry 'd' 1000 9444))]
    let engine := ((@networkStep sipHasher).final (.start cfg)
      events).engines (exampleId 'a')
    let sends := fun nowMs => ∃ added dropped,
      (exampleId 'b', PexMessage.pexDelta added dropped) ∈
        (@PexEngine.tick sipHasher engine nowMs exampleOrders
          fun _ => .zero).2
    ¬sends 1089000 ∧ sends 1090000 := by
  intro cfg events engine sends
  have sent : SendsData (exampleId 'b') (.linkUp (exampleId 'b') 1000000
      .ascending .zero, (@engineStep sipHasher (.new (cfg (exampleId 'a')))
        (.linkUp (exampleId 'b') 1000000 .ascending .zero)).2) := by
    decide +kernel
  have other : exampleId 'b' ≠ exampleId 'a' := by decide +kernel
  have paced := @pace_agreed sipHasher (fun _ => True) cfg events
    (by decide +kernel) (exampleId 'a') (exampleId 'b') ⟨trivial, trivial⟩
    [] (.linkUp (exampleId 'b') 1000000 .ascending .zero)
    [.onMessage (exampleId 'b') (.pexHandshake 1 "network" 90 []) 1000500,
      .upsertKnown (exampleEntry 'd' 1000 9444)]
    (by simp [callsOf, events, other])
    (@LastSent.mk sipHasher _ _ _ _ _ sent (by simp) (by decide +kernel))
    (by decide +kernel) (by decide +kernel)
  constructor
  · intro early
    have spaced := ((paced 1089000 exampleOrders fun _ => .zero).1 early).1
    revert spaced
    decide +kernel
  · refine ((paced 1090000 exampleOrders fun _ => .zero).2
      (by decide +kernel) (.inl (by decide +kernel))).mpr (by decide +kernel)

end DigPex
