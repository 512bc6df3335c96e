import DigPex.Concrete
import DigPex.Monitor
import DigPex.Pair

/-!
# The cadence of data messages

Three fields of a link record carry its send clock: whether the snapshot was
sent, when the last data message was, and the jitter drawn then.  A call sets
all three when it returns data for the link and leaves them otherwise, while
the interval in force never shrinks within a lifetime of the link.
-/

namespace DigPex

/-! ## Lifetimes -/

/-- Whether a call opens a link. -/
def Call.opens (peerId : String) : Call → Bool
  | .linkUp other _ _ _ => other = peerId
  | _ => false

/-- Over the calls, whether a link was opened in its present lifetime. -/
def lifetime (peerId : String) : Machine Bool Call Unit :=
  fun opened call =>
    match call with
    | .linkDown other => (opened && other ≠ peerId, ())
    | _ => (opened || call.opens peerId, ())

/-- A link is opened at most once in each of its lifetimes. -/
def OpensOnce (peerId : String) (calls : List Call) : Prop :=
  (lifetime peerId).Along
    (fun opened call => call.opens peerId = true → opened = false) false calls

instance (peerId : String) (calls : List Call) :
    Decidable (OpensOnce peerId calls) :=
  inferInstanceAs (Decidable (Machine.Along _ _ _ _))

/-! ## Intervals in force -/

/-- The effective interval of a link. -/
def LinkState.effectiveSecs (link : LinkState) : Nat :=
  effectiveIntervalSecs link.selfIntervalSecs link.remoteDeclaredSecs

theorem effectiveIntervalSecs_le_backedOff (own : Nat)
    (remote : Option Nat) :
    effectiveIntervalSecs own remote ≤
      effectiveIntervalSecs (backedOffInterval own) remote := by
  have longer := clampInterval_le_backedOff own
  simp only [effectiveIntervalSecs]
  omega

theorem effectiveIntervalSecs_none_le (own : Nat) (remote : Option Nat) :
    effectiveIntervalSecs own none ≤ effectiveIntervalSecs own remote := by
  simp only [effectiveIntervalSecs, Option.map_none, Option.getD_none]
  omega

/-- Nothing was declared before the handshake. -/
def Direction.Awaits (direction : Direction) : Prop :=
  direction.phase = .awaitingHandshake → direction.remoteDeclaredSecs = none

/-- An inbound event other than the end of the link never shortens the
interval in force: the remote declares once. -/
theorem Direction.receive_declared {direction : Direction}
    (awaits : direction.Awaits) (network : String) {event : Inbound}
    (up : event ≠ .down) (own : Nat) :
    (direction.receive network event).Awaits ∧
      effectiveIntervalSecs own direction.remoteDeclaredSecs ≤
        effectiveIntervalSecs own
          (direction.receive network event).remoteDeclaredSecs := by
  cases event with
  | down => exact absurd rfl up
  | fault code => exact ⟨awaits, le_refl _⟩
  | message message nowMs =>
      simp only [receive]
      cases verdict : direction.judge network message nowMs with
      | ignored => exact ⟨awaits, le_refl _⟩
      | struck code => exact ⟨awaits, le_refl _⟩
      | mismatched code => exact ⟨awaits, le_refl _⟩
      | accepted =>
          obtain ⟨_, admits⟩ := (judge_eq_accepted_iff _ _ _ _).mp verdict
          cases message with
          | pexError code text => exact ⟨awaits, le_refl _⟩
          | pexHandshake version networkId declared flags =>
              refine ⟨fun waiting => (by cases waiting), ?_⟩
              rw [awaits admits.1]
              exact effectiveIntervalSecs_none_le _ _
          | pexSnapshot peers =>
              exact ⟨fun waiting => (by cases waiting), le_refl _⟩
          | pexDelta added dropped => exact ⟨awaits, le_refl _⟩

/-! ## The send clock -/

/-- Whether an event returns a data message for a link. -/
def SendsData (peerId : String) (event : Call × Response) : Prop :=
  ∃ message ∈ messagesFor peerId event, message.isData = true

instance (peerId : String) (event : Call × Response) :
    Decidable (SendsData peerId event) :=
  inferInstanceAs (Decidable (∃ message ∈ messagesFor peerId event, _))

/-- Whether the snapshot was sent, the time of the last data message and the
jitter drawn for the next. -/
def LinkState.sendClock (link : LinkState) : Bool × Option Nat × Nat :=
  (link.snapshotSent, link.lastDataSendMs, link.sendJitterMs)

/-- The jitter a call draws for a link it sends data to. -/
def Call.drawnMs (engine : PexEngine) (peerId : String) : Call → Nat
  | .linkUp _ _ _ jitter =>
      engine.cfg.drawJitter jitter (effectiveIntervalSecs engine.cfg.interval
        (engine.link peerId).remoteDeclaredSecs)
  | .tick _ _ jitter =>
      engine.cfg.drawJitter (jitter peerId)
        (engine.link peerId).effectiveSecs
  | _ => 0

/-- The clock value a call comes with. -/
def Call.clockMs : Call → Option Nat
  | .linkUp _ nowMs _ _ | .onMessage _ _ nowMs | .recordViolation _ _ nowMs
  | .tick nowMs _ _ => some nowMs
  | _ => none

/-- Whether a call makes a link back off: a `pex_error` on the unmuted link
that the handler honours. -/
def PexEngine.backsOffOn (engine : PexEngine) (peerId : String) :
    Call → Bool
  | .onMessage source (.pexError code _) nowMs =>
      source = peerId && !(engine.link peerId).muted &&
        (engine.link peerId).backsOff code nowMs
  | _ => false

/-- The interval a link uses and when it last backed off. -/
def LinkState.pace (link : LinkState) : Nat × Option Nat :=
  (link.selfIntervalSecs, link.lastBackoffAppliedMs)

theorem drawJitter_le (cfg : PexConfig) (jitter : Jitter)
    (effectiveSecs : Nat) :
    cfg.drawJitter jitter effectiveSecs ≤ effectiveSecs * 100 := by
  unfold PexConfig.drawJitter
  split
  · exact jitter.bounded effectiveSecs
  · exact Nat.zero_le _

theorem LinkState.sendClock_heed (link : LinkState) (message : PexMessage)
    (nowMs : Nat) :
    (link.heed message nowMs).snapshotSent = link.snapshotSent ∧
      (link.heed message nowMs).lastDataSendMs = link.lastDataSendMs ∧
      (link.heed message nowMs).sendJitterMs = link.sendJitterMs := by
  cases message with
  | pexError code text =>
      simp only [heed]
      split <;> exact ⟨rfl, rfl, rfl⟩
  | _ => exact ⟨rfl, rfl, rfl⟩

variable [DefaultHasher]

theorem sendsData_linkUp (engine : PexEngine) (peerId opened : String)
    (nowMs : Nat) (order : IterationOrder String) (jitter : Jitter) :
    SendsData peerId (.linkUp opened nowMs order jitter,
        (engineStep engine (.linkUp opened nowMs order jitter)).2) ↔
      opened = peerId := by
  rw [SendsData, messagesFor_engineStep]
  dsimp only
  split
  · rename_i same
    simp [same, PexEngine.handshake, PexMessage.isData]
  · rename_i different
    simp [different]

theorem sendsData_tick (engine : PexEngine) (peerId : String) (nowMs : Nat)
    (orders : TickOrders) (jitter : String → Jitter) :
    SendsData peerId (.tick nowMs orders jitter,
        (engineStep engine (.tick nowMs orders jitter)).2) ↔
      (engine.dueDelta nowMs orders peerId).isSome = true := by
  rw [SendsData, messagesFor_engineStep]
  dsimp only
  cases engine.dueDelta nowMs orders peerId <;> simp [PexMessage.isData]

/-- A call that returns data for a link sets its send clock to the time and
the jitter of the call; any other call leaves it, unless it ends the link. -/
theorem sendClock_engineStep (engine : PexEngine) {call : Call}
    {peerId : String} (up : call ≠ .linkDown peerId) :
    ((engineStep engine call).1.link peerId).sendClock =
      if SendsData peerId (call, (engineStep engine call).2) then
        (true, some call.sendMs, call.drawnMs engine peerId)
      else
        (engine.link peerId).sendClock := by
  have outbound := outbound_engineStep engine call peerId
  have clock : ∀ left right : LinkState, left.outbound = right.outbound →
      left.sendClock = right.sendClock := by
    intro left right same
    have sent := congrArg Outbound.snapshotSent same
    have last := congrArg Outbound.lastDataSendMs same
    have jitter := congrArg Outbound.sendJitterMs same
    exact Prod.ext sent (Prod.ext last jitter)
  cases call with
  | upsertKnown entry =>
      rw [if_neg (by rintro ⟨_, member, _⟩; cases member)]
      exact clock _ _ outbound
  | removeKnown id =>
      rw [if_neg (by rintro ⟨_, member, _⟩; cases member)]
      exact clock _ _ outbound
  | linkUp opened nowMs order jitter =>
      simp only [sendsData_linkUp]
      split
      · rename_i same
        subst same
        simp only [if_true] at outbound
        exact clock _ _ outbound
      · rename_i different
        simp only [different, if_false] at outbound
        exact clock _ _ outbound
  | linkDown closed =>
      have other : closed ≠ peerId := fun same => up (same ▸ rfl)
      rw [if_neg (by rintro ⟨_, member, _⟩; cases member)]
      simp only [other, if_false] at outbound
      exact clock _ _ outbound
  | onMessage source message nowMs =>
      rw [if_neg (by rintro ⟨_, member, _⟩; cases member)]
      obtain ⟨sent, last, drawn⟩ :=
        (engine.link peerId).sendClock_heed message nowMs
      dsimp only at outbound
      split at outbound
      · refine Prod.ext ?_ (Prod.ext ?_ ?_)
        · exact (congrArg Outbound.snapshotSent outbound).trans sent
        · exact (congrArg Outbound.lastDataSendMs outbound).trans last
        · exact (congrArg Outbound.sendJitterMs outbound).trans drawn
      · exact clock _ _ outbound
  | recordViolation source code nowMs =>
      rw [if_neg (by rintro ⟨_, member, _⟩; cases member)]
      exact clock _ _ outbound
  | tick nowMs orders jitter =>
      simp only [sendsData_tick]
      have ticked := clock _ _ outbound
      simp only [PexEngine.tickedLink] at ticked
      cases due : engine.dueDelta nowMs orders peerId with
      | none =>
          rw [due] at ticked
          rw [if_neg (by simp)]
          exact ticked
      | some delta =>
          rw [due] at ticked
          rw [if_pos (by simp)]
          refine ticked.trans ?_
          obtain ⟨sent, _⟩ := LinkState.dueDelta_eq_some due
          simp only [LinkState.sendClock, LinkState.commitDelta, sent]
          rfl

theorem sendsData_of_opens {engine : PexEngine} {call : Call}
    {peerId : String} (opens : call.opens peerId = true) :
    SendsData peerId (call, (engineStep engine call).2) := by
  cases call with
  | linkUp opened nowMs order jitter =>
      apply (sendsData_linkUp _ _ _ _ _ _).mpr
      simpa [Call.opens] using opens
  | _ => cases opens

/-- The interval in use and the time of the last back-off: a link is opened
with the configured interval, and only a back-off changes them after that. -/
theorem pace_engineStep (engine : PexEngine) {call : Call} {peerId : String}
    (up : call ≠ .linkDown peerId) :
    ((engineStep engine call).1.link peerId).pace =
      if call.opens peerId then
        (engine.cfg.interval, (engine.link peerId).lastBackoffAppliedMs)
      else if engine.backsOffOn peerId call then
        (backedOffInterval (engine.link peerId).selfIntervalSecs,
          call.clockMs)
      else
        (engine.link peerId).pace := by
  have outbound := outbound_engineStep engine call peerId
  have paced : ∀ (link : LinkState) (outbound : Outbound),
      link.outbound = outbound → link.pace =
        (outbound.selfIntervalSecs, outbound.lastBackoffAppliedMs) := by
    rintro link _ rfl
    rfl
  rw [paced _ _ outbound]
  cases call with
  | upsertKnown entry => rfl
  | removeKnown id => rfl
  | linkUp opened nowMs order jitter =>
      by_cases same : opened = peerId
      · simp only [same, Call.opens, decide_true, if_true]
        rfl
      · simp only [same, Call.opens, decide_false, if_false,
          PexEngine.backsOffOn]
        rfl
  | linkDown closed =>
      have other : closed ≠ peerId := fun same => up (same ▸ rfl)
      simp only [other, if_false]
      rfl
  | onMessage source message nowMs =>
      cases message with
      | pexError code text =>
          have honours : engine.backsOffOn peerId
                (.onMessage source (.pexError code text) nowMs) = true ↔
              (source = peerId ∧ (engine.link peerId).muted = false) ∧
                (engine.link peerId).backsOff code nowMs = true := by
            simp [PexEngine.backsOffOn]
          rw [if_neg (by simp [Call.opens])]
          by_cases heard : source = peerId ∧
              (engine.link peerId).muted = false
          · by_cases backs : (engine.link peerId).backsOff code nowMs = true
            · rw [if_pos (honours.mpr ⟨heard, backs⟩)]
              simp only [if_pos heard, LinkState.heed, if_pos backs]
              rfl
            · rw [if_neg fun honoured => backs (honours.mp honoured).2]
              simp only [if_pos heard, LinkState.heed, if_neg backs]
              rfl
          · rw [if_neg fun honoured => heard (honours.mp honoured).1]
            simp only [if_neg heard]
            rfl
      | _ => simp only [LinkState.heed, ite_self]; rfl
  | recordViolation source code nowMs => rfl
  | tick nowMs orders jitter =>
      simp only [PexEngine.tickedLink, Call.opens, PexEngine.backsOffOn]
      cases engine.dueDelta nowMs orders peerId <;> rfl

theorem sendClock_final {peerId : String} {calls : List Call}
    (up : .linkDown peerId ∉ calls) (engine : PexEngine)
    (silent : ∀ event ∈ engineStep.trace engine calls,
      ¬SendsData peerId event) :
    ((engineStep.final engine calls).link peerId).sendClock =
      (engine.link peerId).sendClock := by
  induction calls generalizing engine with
  | nil => rfl
  | cons call calls induction =>
      simp only [List.mem_cons, not_or] at up
      simp only [Machine.trace_cons, List.mem_cons, forall_eq_or_imp]
        at silent
      rw [Machine.final_cons, induction up.2 _ silent.2,
        sendClock_engineStep engine (Ne.symm up.1), if_neg silent.1]

theorem snapshotSent_final (cfg : PexConfig) (calls : List Call)
    (peerId : String) :
    ((engineStep.final (PexEngine.new cfg) calls).link peerId).snapshotSent =
      (lifetime peerId).final false calls := by
  induction calls using List.reverseRecOn with
  | nil => rw [Machine.final_nil, PexEngine.link_new]; rfl
  | append_singleton calls call induction =>
      rw [Machine.final_concat, Machine.final_concat, ← induction]
      generalize engineStep.final (PexEngine.new cfg) calls = engine
      by_cases down : call = .linkDown peerId
      · subst down
        simp only [engineStep, PexEngine.link_linkDown, if_true, lifetime]
        simp [LinkState.new]
      · have clock := congrArg Prod.fst (sendClock_engineStep engine down)
        simp only [LinkState.sendClock] at clock
        rw [clock]
        cases call with
        | linkUp opened nowMs order jitter =>
            simp only [sendsData_linkUp, lifetime, Call.opens]
            by_cases same : opened = peerId <;> simp [same]
        | linkDown closed =>
            have other : closed ≠ peerId := fun same => down (same ▸ rfl)
            rw [if_neg (by rintro ⟨_, member, _⟩; cases member)]
            simp [lifetime, other]
        | tick nowMs orders jitter =>
            simp only [sendsData_tick, lifetime, Call.opens, Bool.or_false]
            cases due : engine.dueDelta nowMs orders peerId with
            | none => simp
            | some delta => simp [(LinkState.dueDelta_eq_some due).1]
        | _ =>
            rw [if_neg (by rintro ⟨_, member, _⟩; cases member)]
            simp [lifetime, Call.opens]

/-- The jitter drawn for the next data message is at most a tenth of the
interval in force, which only grows after the draw. -/
structure Measured (link : LinkState) : Prop where
  awaits : link.direction.Awaits
  jitter : link.sendJitterMs ≤ link.effectiveSecs * 100

omit [DefaultHasher] in
theorem Measured.new (interval : Nat) : Measured (LinkState.new interval) :=
  ⟨fun _ => rfl, Nat.zero_le _⟩

/-- What comes in on a link keeps or raises the interval the remote
declared. -/
theorem remoteDeclared_engineStep {engine : PexEngine} {peerId : String}
    (awaits : (engine.link peerId).direction.Awaits) {call : Call}
    (up : call ≠ .linkDown peerId) (own : Nat) :
    ((engineStep engine call).1.link peerId).direction.Awaits ∧
      effectiveIntervalSecs own (engine.link peerId).remoteDeclaredSecs ≤
        effectiveIntervalSecs own
          ((engineStep engine call).1.link peerId).remoteDeclaredSecs := by
  have stepped := direction_engineStep engine call peerId
  have declared : ((engineStep engine call).1.link
      peerId).remoteDeclaredSecs = ((engineStep engine call).1.link
        peerId).direction.remoteDeclaredSecs := rfl
  rw [declared, stepped]
  cases inbound : call.inbound peerId with
  | none => exact ⟨awaits, le_refl _⟩
  | some event =>
      refine Direction.receive_declared awaits _ ?_ own
      rintro rfl
      apply up
      cases call <;> simp_all [Call.inbound]

theorem Measured.step {engine : PexEngine} {peerId : String}
    (measured : Measured (engine.link peerId)) (call : Call) :
    Measured ((engineStep engine call).1.link peerId) := by
  by_cases down : call = .linkDown peerId
  · subst down
    simp only [engineStep, PexEngine.link_linkDown, if_true]
    exact .new _
  · have declared := remoteDeclared_engineStep measured.awaits down
    have clock := sendClock_engineStep engine down
    have pace := pace_engineStep engine down
    refine ⟨(declared 0).1, ?_⟩
    by_cases sends : SendsData peerId (call, (engineStep engine call).2)
    · rw [if_pos sends] at clock
      have drawn : ((engineStep engine call).1.link peerId).sendJitterMs =
          call.drawnMs engine peerId :=
        congrArg (fun clock => clock.2.2) clock
      rw [drawn]
      cases call with
      | linkUp opened nowMs order jitter =>
          obtain rfl := (sendsData_linkUp _ _ _ _ _ _).mp sends
          rw [if_pos (by simp [Call.opens])] at pace
          have own : ((engineStep engine (.linkUp opened nowMs order
              jitter)).1.link opened).selfIntervalSecs =
                engine.cfg.interval := congrArg Prod.fst pace
          refine (drawJitter_le _ _ _).trans (Nat.mul_le_mul_right _ ?_)
          rw [LinkState.effectiveSecs, own]
          exact (declared _).2
      | tick nowMs orders jitter =>
          rw [if_neg (by simp [Call.opens]),
            if_neg (by simp [PexEngine.backsOffOn])] at pace
          have own : ((engineStep engine (.tick nowMs orders
              jitter)).1.link peerId).selfIntervalSecs =
                (engine.link peerId).selfIntervalSecs :=
            congrArg Prod.fst pace
          refine (drawJitter_le _ _ _).trans (Nat.mul_le_mul_right _ ?_)
          simp only [LinkState.effectiveSecs, own]
          exact (declared _).2
      | _ =>
          obtain ⟨_, member, _⟩ := sends
          cases member
    · rw [if_neg sends] at clock
      have kept : ((engineStep engine call).1.link peerId).sendJitterMs =
          (engine.link peerId).sendJitterMs :=
        congrArg (fun clock => clock.2.2) clock
      rw [kept]
      refine measured.jitter.trans (Nat.mul_le_mul_right _ ?_)
      refine le_trans ?_ (declared _).2
      rw [if_neg (mt sendsData_of_opens sends)] at pace
      have own := congrArg Prod.fst pace
      simp only [LinkState.pace] at own
      rw [own]
      split
      · exact effectiveIntervalSecs_le_backedOff _ _
      · exact le_refl _

theorem measured_final (cfg : PexConfig) (calls : List Call)
    (peerId : String) :
    Measured ((engineStep.final (PexEngine.new cfg) calls).link peerId) :=
  engineStep.final_invariant (fun engine => Measured (engine.link peerId))
    (by rw [PexEngine.link_new]; exact .new _)
    (fun _ call measured => measured.step call) calls

/-! ## Two data messages in a row -/

/-- The interval in force on a link: the floor, the link's own interval, and
the one the remote declared in a handshake accepted so far. -/
def intervalInForce (own : Nat) (declared : Option Nat) : Nat :=
  max 30 (max (clampInterval own) ((declared.map clampInterval).getD 0))

/-- The effective interval of a link is the interval in force by the calls so
far. -/
theorem effectiveSecs_final (cfg : PexConfig) (calls : List Call)
    (peerId : String) :
    let link := (engineStep.final (PexEngine.new cfg) calls).link peerId
    link.effectiveSecs = intervalInForce link.selfIntervalSecs
      (Monitor.afterCalls cfg.networkId peerId calls).declared := by
  intro link
  have direction : link.direction =
      (Monitor.afterCalls cfg.networkId peerId calls).direction := by
    simp only [link]
    rw [direction_final, PexEngine.link_new]
    exact (Monitor.direction_foldl cfg.networkId _).2.symm
  have declared : link.remoteDeclaredSecs =
      (Monitor.afterCalls cfg.networkId peerId calls).declared.map
        clampInterval :=
    congrArg Direction.remoteDeclaredSecs direction
  rw [LinkState.effectiveSecs, declared]
  cases (Monitor.afterCalls cfg.networkId peerId calls).declared <;>
    simp [effectiveIntervalSecs, intervalInForce, pexMinInterval,
      max_comm, max_left_comm]

/-- Something to say on a link: an advertisable entry not told as it is now, or
a told peer that is not advertisable. -/
def Pending (engine : PexEngine) (peerId : String)
    (order : IterationOrder String) (nowSecs : Nat) : Prop :=
  (∃ entry ∈ (engine.advertisableFor order peerId nowSecs).1,
    (engine.link peerId).isPending entry = true) ∨
  ∃ id : String, id ∈ (engine.link peerId).told ∧
    ∀ entry ∈ (engine.advertisableFor order peerId nowSecs).1,
      entry.peerId ≠ id

theorem LinkState.deltaAgainst_occupied {link : LinkState}
    {toldOrder : IterationOrder String} {advertisable : List PeerEntry}
    (pending : (∃ entry ∈ advertisable, link.isPending entry = true) ∨
      ∃ id : String, id ∈ link.told ∧
        ∀ entry ∈ advertisable, entry.peerId ≠ id) :
    (link.deltaAgainst toldOrder advertisable).1 ≠ [] ∨
      (link.deltaAgainst toldOrder advertisable).2 ≠ [] := by
  rcases pending with ⟨entry, member, untold⟩ | ⟨id, told, gone⟩
  · left
    have listed := List.mem_filter.mpr ⟨member, untold⟩
    simp only [deltaAgainst, ne_eq, List.take_eq_nil_iff, pexMaxAdded]
    rintro (capped | empty)
    · cases capped
    · rw [empty] at listed
      cases listed
  · right
    have unlisted : (!(advertisable.map PeerEntry.peerId).contains id) =
        true := by
      simpa using gone
    have listed : id ∈ (toldOrder.arrange link.told.keys).filter fun id =>
        !(advertisable.map PeerEntry.peerId).contains id :=
      List.mem_filter.mpr
        ⟨toldOrder.mem_arrange.mpr (Std.ExtTreeMap.mem_keys.mpr told),
          unlisted⟩
    intro empty
    have length := congrArg List.length empty
    simp only [deltaAgainst, List.length_insertionSort, List.length_nil,
      List.length_eq_zero_iff, List.take_eq_nil_iff, pexMaxDropped]
      at length
    rcases length with capped | empty
    · cases capped
    · rw [empty] at listed
      cases listed

/-- The first data message of a stretch of calls, at the end of which the next
one is still to be sent. -/
structure LastSent (cfg : PexConfig) (peerId : String) (earlier : List Call)
    (first : Call) (between : List Call) : Prop where
  sent : SendsData peerId (first,
    (engineStep (engineStep.final (PexEngine.new cfg) earlier) first).2)
  up : .linkDown peerId ∉ between
  silent : ∀ event ∈ engineStep.trace
    (engineStep.final (PexEngine.new cfg) (earlier ++ [first])) between,
      ¬SendsData peerId event

theorem LastSent.sendClock {cfg : PexConfig} {peerId : String}
    {earlier : List Call} {first : Call} {between : List Call}
    (last : LastSent cfg peerId earlier first between) :
    ((engineStep.final (PexEngine.new cfg)
        (earlier ++ first :: between)).link peerId).sendClock =
      (true, some first.sendMs, first.drawnMs
        (engineStep.final (PexEngine.new cfg) earlier) peerId) := by
  have up : first ≠ .linkDown peerId := by
    rintro rfl
    obtain ⟨_, member, _⟩ := last.sent
    cases member
  have split : earlier ++ first :: between =
      (earlier ++ [first]) ++ between := by simp
  rw [split, Machine.final_append, sendClock_final last.up _ last.silent,
    Machine.final_concat, sendClock_engineStep _ up, if_pos last.sent]

/-- When the next data message is due: after the effective interval and the
jitter drawn with the last one. -/
theorem LastSent.sendDue_iff {cfg : PexConfig} {peerId : String}
    {earlier : List Call} {first : Call} {between : List Call}
    (last : LastSent cfg peerId earlier first between) (nowMs : Nat) :
    let link := (engineStep.final (PexEngine.new cfg)
      (earlier ++ first :: between)).link peerId
    link.sendDue nowMs = true ↔
      first.sendMs + 1000 * link.effectiveSecs + first.drawnMs
        (engineStep.final (PexEngine.new cfg) earlier) peerId ≤ nowMs := by
  intro link
  obtain ⟨-, clocks⟩ := Prod.mk.inj last.sendClock
  obtain ⟨lastSend, drawn⟩ := Prod.mk.inj clocks
  rw [LinkState.sendDue, lastSend, drawn, Nat.mul_comm 1000]
  exact decide_eq_true_iff

theorem sendDue_of_sends {engine : PexEngine} {peerId : String} {nowMs : Nat}
    {orders : TickOrders} {jitter : String → Jitter}
    (sends : ∃ added dropped, (peerId, PexMessage.pexDelta added dropped) ∈
      (engine.tick nowMs orders jitter).2) :
    (engine.link peerId).sendDue nowMs = true := by
  obtain ⟨added, dropped, member⟩ := sends
  obtain ⟨-, delta, owed, -⟩ := (PexEngine.mem_tick _ _ _).mp member
  exact (LinkState.dueDelta_eq_some owed).2.1

theorem sends_of_sendDue {engine : PexEngine} {peerId : String} {nowMs : Nat}
    {orders : TickOrders} (jitter : String → Jitter)
    (sent : (engine.link peerId).snapshotSent = true)
    (due : (engine.link peerId).sendDue nowMs = true)
    (pending : Pending engine peerId orders.known (nowMs / 1000)) :
    ∃ added dropped, (peerId, PexMessage.pexDelta added dropped) ∈
      (engine.tick nowMs orders jitter).2 := by
  have owed : (engine.dueDelta nowMs orders peerId).isSome = true := by
    rw [PexEngine.dueDelta, LinkState.dueDelta_of_due sent due]
    · rfl
    · exact LinkState.deltaAgainst_occupied pending
  obtain ⟨delta, found⟩ := Option.isSome_iff_exists.mp owed
  exact ⟨delta.1, delta.2, (PexEngine.mem_tick _ _ _).mpr
    ⟨PexEngine.mem_links_of_snapshotSent sent, delta, found, rfl⟩⟩

end DigPex
