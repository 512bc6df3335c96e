import DigPex.Pair
import DigPex.Concrete

/-!
# An honest sender is never struck

The receiver's phase tells what the queue starts with; behind that come deltas
at least the declared interval apart, ending with the sender's last data
message.  A back-off only lengthens the sender's interval, and the grace
absorbs a varying delay.
-/

namespace DigPex

/-- A delta within the caps that does not add and drop one id. -/
def SoundDelta : PexMessage → Prop
  | .pexDelta added dropped =>
      added.length ≤ pexMaxAdded ∧ dropped.length ≤ pexMaxDropped ∧
        ∀ id ∈ dropped, id ∉ added.map PeerEntry.peerId
  | _ => False

/-- Sound deltas after a data message sent at `last`, each at least `spacing`
after the one before, the latest sent at `current`. -/
def SpacedFrom (spacing : Nat) :
    Nat → List (PexMessage × Nat) → Nat → Prop
  | last, [], current => last = current
  | last, (message, sent) :: deltas, current =>
      SoundDelta message ∧ last + spacing ≤ sent ∧
        SpacedFrom spacing sent deltas current

theorem SpacedFrom.concat {spacing last current sent : Nat}
    {deltas : List (PexMessage × Nat)} {message : PexMessage}
    (spaced : SpacedFrom spacing last deltas current)
    (sound : SoundDelta message) (waited : current + spacing ≤ sent) :
    SpacedFrom spacing last (deltas ++ [(message, sent)]) sent := by
  induction deltas generalizing last with
  | nil =>
      cases spaced
      exact ⟨sound, waited, rfl⟩
  | cons delta deltas induction =>
      exact ⟨spaced.1, spaced.2.1, induction spaced.2.2⟩

/-- A sending direction that has been opened, whose last data message was sent
at `current` and whose interval is no shorter than the declared one. -/
structure Outbound.Opened (interval : Nat) (outbound : Outbound)
    (current : Nat) : Prop where
  sent : outbound.snapshotSent = true
  last : outbound.lastDataSendMs = some current
  interval : clampInterval interval ≤
    clampInterval outbound.selfIntervalSecs

/-- The least spacing of the data messages of a sender that declared an
interval. -/
def declaredSpacing (interval : Nat) : Nat :=
  clampInterval interval * 1000

/-- A message sent at one clock value arrived at another, with the constant
part of the delay and at most the grace. -/
def Punctual (delay : Int) (sentMs arrivalMs : Nat) : Prop :=
  sentMs + delay ≤ arrivalMs ∧
    (arrivalMs : Int) ≤ sentMs + delay + (pexArrivalGrace * 1000 : Nat)

instance (delay : Int) (sentMs arrivalMs : Nat) :
    Decidable (Punctual delay sentMs arrivalMs) :=
  inferInstanceAs (Decidable (_ ∧ _))

/-- What is in flight is what the receiver's direction waits for. -/
inductive Synchronized (network : String) (interval : Nat) (delay : Int) :
    Direction → Outbound → List (PexMessage × Nat) → Prop
  | unopened {outbound : Outbound} (unsent : outbound.snapshotSent = false) :
      Synchronized network interval delay .fresh outbound []
  | opening {outbound : Outbound} {flags : List String}
      {peers : List PeerEntry} {sent current : Nat}
      {deltas : List (PexMessage × Nat)}
      (opened : outbound.Opened interval current)
      (capped : peers.length ≤ pexMaxSnapshot)
      (spaced : SpacedFrom (declaredSpacing interval) sent deltas current) :
      Synchronized network interval delay .fresh outbound
        ((.pexHandshake pexVersion network interval flags, sent) ::
          (.pexSnapshot peers, sent) :: deltas)
  | shaken {outbound : Outbound} {peers : List PeerEntry}
      {sent current : Nat} {deltas : List (PexMessage × Nat)}
      (opened : outbound.Opened interval current)
      (capped : peers.length ≤ pexMaxSnapshot)
      (spaced : SpacedFrom (declaredSpacing interval) sent deltas current) :
      Synchronized network interval delay
        { Direction.fresh with
          phase := .awaitingSnapshot
          remoteDeclaredSecs := some (clampInterval interval) }
        outbound ((.pexSnapshot peers, sent) :: deltas)
  | streaming {outbound : Outbound} {sent current arrival : Nat}
      {deltas : List (PexMessage × Nat)}
      (opened : outbound.Opened interval current)
      (punctual : Punctual delay sent arrival)
      (spaced : SpacedFrom (declaredSpacing interval) sent deltas current) :
      Synchronized network interval delay
        { Direction.fresh with
          phase := .streaming
          remoteDeclaredSecs := some (clampInterval interval)
          lastArrivalMs := some arrival }
        outbound deltas

namespace Synchronized

variable {network : String} {interval : Nat} {delay : Int}
  {direction : Direction} {outbound next : Outbound}
  {inFlight : List (PexMessage × Nat)}

theorem unpunished
    (synchronized : Synchronized network interval delay direction outbound
      inFlight) : direction.strikes = 0 ∧ direction.muted = false := by
  cases synchronized <;> exact ⟨rfl, rfl⟩

theorem eq_of_unsent
    (synchronized : Synchronized network interval delay direction outbound
      inFlight) (unsent : outbound.snapshotSent = false) :
    direction = .fresh ∧ inFlight = [] := by
  cases synchronized with
  | unopened _ => exact ⟨rfl, rfl⟩
  | opening opened _ _ => cases unsent.symm.trans opened.sent
  | shaken opened _ _ => cases unsent.symm.trans opened.sent
  | streaming opened _ _ => cases unsent.symm.trans opened.sent

theorem sending
    (synchronized : Synchronized network interval delay direction outbound
      inFlight)
    (unsent : outbound.snapshotSent = false → next.snapshotSent = false)
    (opened : ∀ current, outbound.Opened interval current →
      next.Opened interval current) :
    Synchronized network interval delay direction next inFlight := by
  cases synchronized with
  | unopened still => exact .unopened (unsent still)
  | opening was capped spaced => exact .opening (opened _ was) capped spaced
  | shaken was capped spaced => exact .shaken (opened _ was) capped spaced
  | streaming was punctual spaced =>
      exact .streaming (opened _ was) punctual spaced

/-- A sound delta may be sent a declared interval after the last data
message. -/
theorem delta {message : PexMessage} {nowMs : Nat}
    (synchronized : Synchronized network interval delay direction outbound
      inFlight)
    (sound : SoundDelta message) (sent : outbound.snapshotSent = true)
    (waited : ∀ current, outbound.Opened interval current →
      current + declaredSpacing interval ≤ nowMs ∧
        next.Opened interval nowMs) :
    Synchronized network interval delay direction next
      (inFlight ++ [(message, nowMs)]) := by
  cases synchronized with
  | unopened unsent =>
      rw [unsent] at sent
      cases sent
  | opening was capped spaced =>
      obtain ⟨late, opened⟩ := waited _ was
      exact .opening opened capped (spaced.concat sound late)
  | shaken was capped spaced =>
      obtain ⟨late, opened⟩ := waited _ was
      exact .shaken opened capped (spaced.concat sound late)
  | streaming was punctual spaced =>
      obtain ⟨late, opened⟩ := waited _ was
      exact .streaming opened punctual (spaced.concat sound late)

/-- Two punctual arrivals of messages a declared interval apart respect the
arrival floor. -/
theorem floor_le_of_punctual {sent next arrival nowMs : Nat}
    (first : Punctual delay sent arrival) (second : Punctual delay next nowMs)
    (waited : sent + declaredSpacing interval ≤ next) :
    arrivalFloorMs interval ≤ nowMs - arrival := by
  have grace := arrivalFloorMs_add_grace interval
  rw [← declaredSpacing] at grace
  have latest := first.2
  have earliest := second.1
  generalize pexArrivalGrace * 1000 = tolerance at *
  omega

/-- The oldest message in flight is accepted when it arrives punctually, and
the rest is what the receiver waits for next. -/
theorem deliver {message : PexMessage} {sent nowMs : Nat}
    {rest : List (PexMessage × Nat)}
    (synchronized : Synchronized network interval delay direction outbound
      ((message, sent) :: rest))
    (punctual : Punctual delay sent nowMs) :
    direction.judge network message nowMs = .accepted ∧
      Synchronized network interval delay (direction.advance message nowMs)
        outbound rest := by
  cases synchronized with
  | opening opened capped spaced =>
      refine ⟨?_, .shaken opened capped spaced⟩
      exact (Direction.judge_eq_accepted_iff _ _ _ _).mpr
        ⟨rfl, rfl, rfl, rfl⟩
  | shaken opened capped spaced =>
      refine ⟨?_, .streaming opened punctual spaced⟩
      exact (Direction.judge_eq_accepted_iff _ _ _ _).mpr
        ⟨rfl, rfl, capped⟩
  | streaming opened before spaced =>
      obtain ⟨sound, waited, spaced⟩ := spaced
      cases message with
      | pexDelta added dropped =>
          refine ⟨?_, .streaming opened punctual spaced⟩
          refine (Direction.judge_eq_accepted_iff _ _ _ _).mpr
            ⟨rfl, rfl, fun last arrived => ?_, sound⟩
          cases arrived
          have floor := floor_le_of_punctual before punctual waited
          simpa using floor
      | _ => cases sound

end Synchronized

/-! ## The steps of an honest sender -/

/-- A pair whose queue matches its receiver. -/
def InStep (cfg : PexConfig) (delay : Int) (senderId receiverId : String)
    (pair : Pair) : Prop :=
  pair.sender.cfg = cfg ∧ pair.receiver.cfg.networkId = cfg.networkId ∧
    Synchronized cfg.networkId cfg.interval delay
      (pair.receiver.link senderId).direction
      (pair.sender.link receiverId).outbound pair.inFlight

/-- An honest connection: the sender opens its direction once and does not
take it down, the receiver hears it only through what is delivered, and every
delivery is punctual. -/
def HonestEvent (delay : Int) (senderId receiverId : String) (pair : Pair) :
    PairEvent → Prop
  | .sender (.linkUp peerId _ _ _) =>
      peerId = receiverId →
        (pair.sender.link receiverId).snapshotSent = false
  | .sender (.linkDown peerId) => peerId ≠ receiverId
  | .sender _ => True
  | .receiver call => call.Spares senderId
  | .deliver nowMs =>
      ∀ oldest ∈ pair.inFlight.head?, Punctual delay oldest.2 nowMs

instance (delay : Int) (senderId receiverId : String) (pair : Pair) :
    ∀ event, Decidable (HonestEvent delay senderId receiverId pair event)
  | .sender (.linkUp _ _ _ _) => inferInstanceAs (Decidable (_ → _))
  | .sender (.linkDown _) => inferInstanceAs (Decidable (_ ≠ _))
  | .sender (.upsertKnown _) => isTrue trivial
  | .sender (.removeKnown _) => isTrue trivial
  | .sender (.onMessage _ _ _) => isTrue trivial
  | .sender (.recordViolation _ _ _) => isTrue trivial
  | .sender (.tick _ _ _) => isTrue trivial
  | .receiver call => inferInstanceAs (Decidable (call.Spares senderId))
  | .deliver _ =>
      inferInstanceAs (Decidable (∀ oldest ∈ pair.inFlight.head?, _))

variable [DefaultHasher]

omit [DefaultHasher] in
theorem opened_heed {link : LinkState} {interval current : Nat}
    (opened : link.outbound.Opened interval current) (message : PexMessage)
    (nowMs : Nat) : (link.heed message nowMs).Opened interval current := by
  cases message with
  | pexError code text =>
      simp only [LinkState.heed]
      split
      · exact ⟨opened.sent, opened.last,
          opened.interval.trans (clampInterval_le_backedOff _)⟩
      · exact opened
  | _ => exact opened

omit [DefaultHasher] in
theorem snapshotSent_heed (link : LinkState) (message : PexMessage)
    (nowMs : Nat) :
    (link.heed message nowMs).snapshotSent = link.snapshotSent := by
  cases message with
  | pexError code text =>
      simp only [LinkState.heed]
      split <;> rfl
  | _ => rfl

omit [DefaultHasher] in
theorem length_openingPeers_le {engine : PexEngine} {peerId : String}
    {nowMs : Nat} {order : IterationOrder String} :
    (engine.openingPeers peerId nowMs order).length ≤ pexMaxSnapshot :=
  (trimFrom_isPrefix _ _).length_le.trans (List.length_take_le _ _)

theorem delta_of_dueDelta {engine : PexEngine} {peerId : String} {nowMs : Nat}
    {orders : TickOrders} (jitter : String → Jitter)
    {delta : List PeerEntry × List String} {interval : Nat}
    (due : engine.dueDelta nowMs orders peerId = some delta) :
    SoundDelta (.pexDelta delta.1 delta.2) ∧
      (engine.link peerId).snapshotSent = true ∧
      ∀ current, (engine.link peerId).outbound.Opened interval current →
        current + declaredSpacing interval ≤ nowMs ∧
          (engine.tickedLink nowMs orders jitter
            peerId).outbound.Opened interval nowMs := by
  have ticked : engine.tickedLink nowMs orders jitter peerId =
      (engine.link peerId).commitDelta delta.1 delta.2 nowMs
        (engine.cfg.drawJitter (jitter peerId)
          (effectiveIntervalSecs (engine.link peerId).selfIntervalSecs
            (engine.link peerId).remoteDeclaredSecs)) := by
    simp only [PexEngine.tickedLink, due]
  obtain ⟨sent, ready, same, _⟩ := LinkState.dueDelta_eq_some due
  have lengths := length_deltaAgainst (engine.link peerId)
    (orders.told peerId)
    (engine.advertisableFor orders.known peerId (nowMs / 1000)).1
  refine ⟨⟨?_, ?_, ?_⟩, sent, fun current opened => ⟨?_, ?_⟩⟩
  · rw [same]
    exact lengths.1
  · rw [same]
    exact lengths.2
  · intro id dropped
    rw [same] at dropped ⊢
    exact disjoint_deltaAgainst dropped
  · have last : (engine.link peerId).lastDataSendMs = some current :=
      opened.last
    have effective := opened.interval.trans
      (clampInterval_le_effectiveIntervalSecs
        (engine.link peerId).outbound.selfIntervalSecs
        (engine.link peerId).remoteDeclaredSecs)
    have spacing : declaredSpacing interval ≤
        effectiveIntervalSecs (engine.link peerId).selfIntervalSecs
          (engine.link peerId).remoteDeclaredSecs * 1000 :=
      Nat.mul_le_mul_right 1000 effective
    simp only [LinkState.sendDue, last, Option.getD_some,
      decide_eq_true_eq] at ready
    omega
  · rw [ticked]
    exact ⟨sent, rfl, opened.interval⟩

theorem InStep.sender {cfg : PexConfig} {delay : Int}
    {senderId receiverId : String} {pair : Pair} {call : Call}
    (inStep : InStep cfg delay senderId receiverId pair)
    (honest : HonestEvent delay senderId receiverId pair (.sender call)) :
    InStep cfg delay senderId receiverId
      (pairStep senderId receiverId pair (.sender call)).1 := by
  obtain ⟨own, network, synchronized⟩ := inStep
  refine ⟨(cfg_engineStep _ _).trans own, network, ?_⟩
  simp only [pairStep, messagesFor_engineStep, outbound_engineStep]
  cases call with
  | upsertKnown entry => simpa using synchronized
  | removeKnown id => simpa using synchronized
  | recordViolation source code nowMs => simpa using synchronized
  | linkDown closed =>
      have kept : closed ≠ receiverId := honest
      simpa [kept] using synchronized
  | onMessage source message nowMs =>
      simp only [List.map_nil, List.append_nil]
      split
      · refine synchronized.sending (fun unsent => ?_)
          fun _ opened => opened_heed opened message nowMs
        exact (snapshotSent_heed _ message nowMs).trans unsent
      · exact synchronized
  | linkUp opened nowMs order jitter =>
      by_cases same : opened = receiverId
      · have unsent : (pair.sender.link receiverId).outbound.snapshotSent =
            false := honest same
        subst same
        simp only [if_true, List.map_cons, List.map_nil]
        obtain ⟨fresh, idle⟩ := synchronized.eq_of_unsent unsent
        rw [fresh, idle, PexEngine.handshake, own]
        refine .opening ⟨rfl, rfl, ?_⟩ ?_ rfl
        · apply le_of_eq
          rw [← own]
          rfl
        · exact length_openingPeers_le
      · simpa [same] using synchronized
  | tick nowMs orders jitter =>
      cases due : pair.sender.dueDelta nowMs orders receiverId with
      | none =>
          simpa [due, PexEngine.tickedLink] using synchronized
      | some delta =>
          obtain ⟨sound, sent, waited⟩ := delta_of_dueDelta jitter due
          simpa [due, Call.sendMs] using synchronized.delta sound sent waited

theorem InStep.deliver {cfg : PexConfig} {delay : Int}
    {senderId receiverId : String} {pair : Pair} {nowMs : Nat}
    (inStep : InStep cfg delay senderId receiverId pair)
    (honest : HonestEvent delay senderId receiverId pair (.deliver nowMs)) :
    InStep cfg delay senderId receiverId
        (pairStep senderId receiverId pair (.deliver nowMs)).1 ∧
      Unobjected (pairStep senderId receiverId pair (.deliver nowMs)).2 := by
  obtain ⟨own, network, synchronized⟩ := inStep
  cases queue : pair.inFlight with
  | nil =>
      simp only [pairStep, queue]
      refine ⟨⟨own, network, synchronized⟩, fun outcome answered => ?_⟩
      cases answered
  | cons oldest rest =>
      obtain ⟨message, sent⟩ := oldest
      rw [queue] at synchronized
      obtain ⟨accepted, next⟩ :=
        synchronized.deliver (honest (message, sent) (by rw [queue]; rfl))
      rw [← network] at accepted
      have answers := pair.receiver.answers_judge senderId message nowMs
      rw [accepted] at answers
      have direction := direction_engineStep pair.receiver
        (.onMessage senderId message nowMs) senderId
      simp only [Call.inbound, if_true, Direction.receive, accepted,
        Direction.conclude] at direction
      simp only [pairStep, queue]
      refine ⟨⟨own, ?_, ?_⟩, fun outcome answered => ?_⟩
      · exact (congrArg PexConfig.networkId (cfg_engineStep pair.receiver
          (.onMessage senderId message nowMs))).trans network
      · exact direction ▸ next
      · cases answered
        exact ⟨answers.2.1, answers.2.2.1⟩

/-- Every honest event keeps the queue in step and is not objected to. -/
theorem InStep.step {cfg : PexConfig} {delay : Int}
    {senderId receiverId : String} {pair : Pair} {event : PairEvent}
    (inStep : InStep cfg delay senderId receiverId pair)
    (honest : HonestEvent delay senderId receiverId pair event) :
    InStep cfg delay senderId receiverId
        (pairStep senderId receiverId pair event).1 ∧
      Unobjected (pairStep senderId receiverId pair event).2 := by
  cases event with
  | sender call =>
      refine ⟨inStep.sender honest, fun outcome answered => ?_⟩
      cases answered
  | receiver call =>
      refine ⟨⟨inStep.1, ?_, ?_⟩, fun outcome answered => ?_⟩
      · exact (congrArg PexConfig.networkId
          (cfg_engineStep pair.receiver call)).trans inStep.2.1
      · exact (direction_of_spares honest).symm ▸ inStep.2.2
      · cases answered
  | deliver nowMs => exact inStep.deliver honest

/-- An honest sender is never struck.  Over every honest run of two engines of
one network, whatever else they do, the receiver answers no message of the
sender with a violation or a reply, counts no strike and does not mute. -/
theorem honest_sender_unpunished (senderId receiverId : String) (delay : Int)
    (pair : Pair) (events : List PairEvent)
    (network : pair.receiver.cfg.networkId = pair.sender.cfg.networkId)
    (unopened : (pair.sender.link receiverId).snapshotSent = false)
    (fresh : (pair.receiver.link senderId).direction = .fresh)
    (idle : pair.inFlight = [])
    (honest : (pairStep senderId receiverId).Along
      (HonestEvent delay senderId receiverId) pair events) :
    (∀ answer ∈ (pairStep senderId receiverId).outputs pair events,
      Unobjected answer) ∧
      let reached := (pairStep senderId receiverId).final pair events
      (reached.receiver.link senderId).strikes = 0 ∧
        (reached.receiver.link senderId).muted = false := by
  have start : InStep pair.sender.cfg delay senderId receiverId pair := by
    refine ⟨rfl, network, ?_⟩
    rw [fresh, idle]
    exact .unopened unopened
  obtain ⟨unobjected, inStep⟩ :=
    @Machine.trace_invariant_along _ _ _ (pairStep senderId receiverId) _
      (fun past reached => (∀ event ∈ past, Unobjected event.2) ∧
        InStep pair.sender.cfg delay senderId receiverId reached)
      pair ⟨by simp, start⟩ (fun past reached event allowed kept => by
        obtain ⟨inStep, answer⟩ := kept.2.step allowed
        refine ⟨fun earlier member => ?_, inStep⟩
        rcases List.mem_append.mp member with old | new
        · exact kept.1 earlier old
        · rw [List.mem_singleton.mp new]
          exact answer) events honest
  refine ⟨fun answer member => ?_, inStep.2.2.unpunished⟩
  obtain ⟨event, traced, rfl⟩ := List.mem_map.mp member
  exact unobjected event traced

omit [DefaultHasher] in
/-- A connection with clocks four thousand seconds apart: the receiver opens
its direction too, and a code-3 error backs the sender off. -/
theorem backed_off_sender_unpunished :
    let pair : Pair :=
      { sender := PexEngine.new (exampleConfig (exampleId 'a'))
        receiver := PexEngine.new (exampleConfig (exampleId 'b'))
        inFlight := [] }
    let events : List PairEvent := [
      .sender (.linkUp (exampleId 'b') 1000000 .ascending .zero),
      .receiver (.linkUp (exampleId 'a') 5000000 .ascending .zero),
      .deliver 5000050,
      .sender (.onMessage (exampleId 'b')
        (.pexHandshake 1 "network" 60 []) 1000100),
      .deliver 5005050,
      .sender (.upsertKnown (exampleEntry 'c' 1000 9444)),
      .sender (.tick 1060000 exampleOrders fun _ => .zero),
      .deliver 5060050,
      .sender (.onMessage (exampleId 'b') (.pexError 3 "") 1061000),
      .sender (.upsertKnown (exampleEntry 'd' 1000 9444)),
      .sender (.tick 1180000 exampleOrders fun _ => .zero),
      .deliver 5181000]
    let reached := (@pairStep sipHasher (exampleId 'a') (exampleId 'b')).final
      pair events
    (reached.receiver.link (exampleId 'a')).strikes = 0 ∧
      (reached.receiver.link (exampleId 'a')).muted = false ∧
      (reached.receiver.link (exampleId 'a')).lastArrivalMs = some 5181000 := by
  intro pair events
  have unpunished := (@honest_sender_unpunished sipHasher (exampleId 'a')
    (exampleId 'b') 4000050 pair events rfl
    (by decide +kernel) (by decide +kernel) rfl (by decide +kernel)).2
  exact ⟨unpunished.1, unpunished.2, by decide +kernel⟩

end DigPex
