import DigPex.ToldState

/-!
# Two engines and what is in flight between them

One direction of a connection: a sender, a receiver and the messages on their
way, in order.  Each engine also serves all its other links, and the receiver
opens its own direction, through its ordinary calls.
-/

namespace DigPex

/-- A sender, a receiver, and the messages in flight, each with the sender's
clock value when it was returned. -/
structure Pair where
  sender : PexEngine
  receiver : PexEngine
  inFlight : List (PexMessage × Nat)

/-- The two ends of a connection that begins. -/
def Pair.start (cfg : PexConfig) (receiver : PexEngine) : Pair :=
  { sender := .new cfg
    receiver := receiver
    inFlight := [] }

/-- A call of either side, or the arrival of the oldest message in flight at
the receiver's clock. -/
inductive PairEvent where
  | sender (call : Call)
  | receiver (call : Call)
  | deliver (nowMs : Nat)

/-- Whether an inbound event is a `pex_error`, which no direction counts. -/
def Inbound.isAdvisory : Inbound → Bool
  | .message (.pexError _ _) _ => true
  | _ => false

/-- A call that leaves the receiving direction of a link to the messages in
flight: of what comes in on the link it is at most a `pex_error`. -/
def Call.Spares (peerId : String) (call : Call) : Prop :=
  ∀ event ∈ call.inbound peerId, event.isAdvisory = true

instance (peerId : String) (call : Call) : Decidable (call.Spares peerId) :=
  inferInstanceAs (Decidable (∀ event ∈ call.inbound peerId, _))

/-- Whether an event reports a violation. -/
def PexEvent.isViolation : PexEvent → Bool
  | .violation _ _ => true
  | _ => false

instance (events : List PexEvent) :
    Decidable (∀ code mute, .violation code mute ∉ events) :=
  decidable_of_iff (∀ event ∈ events, event.isViolation = false) <| by
    constructor
    · intro none code mute member
      cases none _ member
    · intro none event member
      cases event with
      | violation code mute => exact absurd member (none code mute)
      | _ => rfl

/-- A delivery that returned neither a reply nor a violation. -/
def Unobjected (answer : Option PexOutcome) : Prop :=
  ∀ outcome, answer = some outcome → outcome.replies = [] ∧
    ∀ code mute, .violation code mute ∉ outcome.events

instance : ∀ answer, Decidable (Unobjected answer)
  | none => isTrue fun _ answered => nomatch answered
  | some outcome =>
      decidable_of_iff (outcome.replies = [] ∧
          ∀ code mute, .violation code mute ∉ outcome.events)
        ⟨fun quiet _ answered => Option.some.inj answered ▸ quiet,
          fun quiet => quiet outcome rfl⟩

variable [DefaultHasher]

/-- One event of a pair whose ends know each other under these ids; a delivery
returns what the receiver answered. -/
def pairStep (senderId receiverId : String) :
    Machine Pair PairEvent (Option PexOutcome) :=
  fun pair event =>
    match event with
    | .sender call =>
        let stepped := engineStep pair.sender call
        let messages := messagesFor receiverId (call, stepped.2)
        ({ pair with
            sender := stepped.1
            inFlight := pair.inFlight ++
              messages.map fun message => (message, call.sendMs) }, none)
    | .receiver call =>
        ({ pair with receiver := (engineStep pair.receiver call).1 }, none)
    | .deliver nowMs =>
        match pair.inFlight with
        | [] => (pair, none)
        | (message, _) :: rest =>
            let answered := pair.receiver.onMessage senderId message nowMs
            ({ pair with
                receiver := answered.1
                inFlight := rest }, some answered.2)

omit [DefaultHasher] in
/-- The calls of the sender in a run. -/
def senderCalls (events : List PairEvent) : List Call :=
  events.filterMap fun event =>
    match event with
    | .sender call => some call
    | _ => none

theorem sender_final (senderId receiverId : String) (pair : Pair)
    (events : List PairEvent) :
    ((pairStep senderId receiverId).final pair events).sender =
      engineStep.final pair.sender (senderCalls events) := by
  induction events generalizing pair with
  | nil => rfl
  | cons event events induction =>
      rw [Machine.final_cons, induction]
      cases event with
      | sender call => rfl
      | receiver call => rfl
      | deliver nowMs =>
          simp only [pairStep]
          split <;> rfl

theorem direction_of_spares {engine : PexEngine} {call : Call}
    {peerId : String} (spares : call.Spares peerId) :
    ((engineStep engine call).1.link peerId).direction =
      (engine.link peerId).direction := by
  rw [direction_engineStep]
  cases inbound : call.inbound peerId with
  | none => rfl
  | some event =>
      have advisory := spares event (Option.mem_def.mpr inbound)
      match event, advisory with
      | .message (.pexError code text) nowMs, _ =>
          have judged : (engine.link peerId).direction.judge
                engine.cfg.networkId (.pexError code text) nowMs = .ignored ∨
              (engine.link peerId).direction.judge
                engine.cfg.networkId (.pexError code text) nowMs =
                  .accepted := by
            unfold Direction.judge
            split
            · exact .inl rfl
            · exact .inr rfl
          rcases judged with ignored | accepted
          · simp only [Direction.receive, ignored, Direction.conclude]
          · simp only [Direction.receive, accepted, Direction.conclude,
              Direction.advance]

theorem received_of_spares {engine : PexEngine} {call : Call}
    {peerId : String} (spares : call.Spares peerId) :
    ((engineStep engine call).1.link peerId).received =
      (engine.link peerId).received := by
  cases inbound : call.inbound peerId with
  | none => exact received_engineStep inbound engine
  | some event =>
      have advisory := spares event (Option.mem_def.mpr inbound)
      match event, advisory with
      | .message (.pexError code text) nowMs, _ =>
          obtain rfl := Call.eq_of_inbound_message inbound
          simp only [engineStep, PexEngine.onMessage_eq]
          unfold Direction.judge
          split
          · simp [PexEngine.conclude]
          · simp only [PexEngine.conclude, PexEngine.accept,
              PexEngine.link_setLink_self]
            exact ((engine.link peerId).advance_kept _ nowMs).1

end DigPex
