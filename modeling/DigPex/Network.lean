import DigPex.Concrete
import DigPex.HintReasons
import DigPex.Stock

/-!
# A network of participants

Every participant is an engine that goes through its own calls, and what a
call returns goes on the wire with its link.  An honest participant is heard
only through what its engine put on the wire, which may be lost, repeated or
reordered.  The others say anything, under their own name.
-/

namespace DigPex

/-- A message on the wire. -/
structure Packet where
  source : String
  target : String
  message : PexMessage
  deriving DecidableEq

/-- The participants by peer id, and every packet written so far. -/
structure Network where
  engines : String → PexEngine
  wire : List Packet

/-- Every participant with its configuration, and nothing written. -/
def Network.start (cfg : String → PexConfig) : Network :=
  { engines := fun node => .new (cfg node)
    wire := [] }

/-- The replies of a call, each with the link it is written back on. -/
def replied : Call × Response → List (String × PexMessage)
  | (.onMessage peerId _ _, .outcome answer) =>
      answer.replies.map fun message => (peerId, message)
  | (.recordViolation peerId _ _, .outcome answer) =>
      answer.replies.map fun message => (peerId, message)
  | _ => []

/-- All a call returns to be written, each message with its link. -/
def written (event : Call × Response) : List (String × PexMessage) :=
  emitted event ++ replied event

/-- An event of a network is heard from an honest participant only if that is
on the wire. -/
def Authentic (honest : String → Prop) (network : Network) :
    String × Call → Prop
  | (target, .onMessage source message _) =>
      honest source →
        { source := source
          target := target
          message := message } ∈ network.wire
  | _ => True

instance (honest : String → Prop) [DecidablePred honest]
    (network : Network) :
    ∀ event, Decidable (Authentic honest network event)
  | (_, .onMessage _ _ _) => inferInstanceAs (Decidable (_ → _))
  | (_, .upsertKnown _) => isTrue trivial
  | (_, .removeKnown _) => isTrue trivial
  | (_, .linkUp _ _ _ _) => isTrue trivial
  | (_, .linkDown _) => isTrue trivial
  | (_, .recordViolation _ _ _) => isTrue trivial
  | (_, .tick _ _ _) => isTrue trivial

/-- The calls of one participant in a run. -/
def callsOf (node : String) (events : List (String × Call)) : List Call :=
  events.filterMap fun event =>
    if event.1 = node then some event.2 else none

theorem mem_callsOf {node : String} {call : Call}
    {events : List (String × Call)} :
    call ∈ callsOf node events ↔ (node, call) ∈ events := by
  simp [callsOf]

theorem callsOf_append (node : String) (earlier later : List (String × Call)) :
    callsOf node (earlier ++ later) =
      callsOf node earlier ++ callsOf node later :=
  List.filterMap_append ..

variable [DefaultHasher]

/-- A call of one participant. -/
def networkStep : Machine Network (String × Call) Response :=
  fun network event =>
    let stepped := engineStep (network.engines event.1) event.2
    ({ engines := Function.update network.engines event.1 stepped.1
       wire := network.wire ++ (written (event.2, stepped.2)).map
        fun message =>
          { source := event.1
            target := message.1
            message := message.2 } }, stepped.2)

theorem engines_final (network : Network) (events : List (String × Call))
    (node : String) :
    (networkStep.final network events).engines node =
      engineStep.final (network.engines node) (callsOf node events) := by
  induction events generalizing network with
  | nil => rfl
  | cons event events induction =>
      rw [Machine.final_cons, induction]
      by_cases same : event.1 = node
      · subst same
        simp [networkStep, callsOf]
      · have other : node ≠ event.1 := Ne.symm same
        simp [networkStep, callsOf, same, Function.update_of_ne other]

theorem engines_start (cfg : String → PexConfig)
    (events : List (String × Call)) (node : String) :
    (networkStep.final (.start cfg) events).engines node =
      engineStep.final (.new (cfg node)) (callsOf node events) :=
  engines_final _ _ _

/-- What a participant writes to another in the course of its calls. -/
structure Wrote (cfg : PexConfig) (target : String) (message : PexMessage)
    (calls earlier : List Call) (call : Call) : Prop where
  past : earlier ++ [call] <+: calls
  written : (target, message) ∈ written
    (call, (engineStep (engineStep.final (.new cfg) earlier) call).2)

/-- Every packet on the wire was written by a call of its source. -/
theorem wrote_of_wire (cfg : String → PexConfig)
    (events : List (String × Call)) {packet : Packet}
    (sent : packet ∈ (networkStep.final (.start cfg) events).wire) :
    ∃ earlier call, Wrote (cfg packet.source) packet.target packet.message
      (callsOf packet.source events) earlier call := by
  induction events using List.reverseRecOn with
  | nil => cases sent
  | append_singleton events event induction =>
      rw [Machine.final_concat] at sent
      rw [callsOf_append]
      rcases List.mem_append.mp sent with old | new
      · obtain ⟨earlier, call, wrote⟩ := induction old
        exact ⟨earlier, call,
          wrote.past.trans (List.prefix_append _ _), wrote.written⟩
      · obtain ⟨message, member, rfl⟩ := List.mem_map.mp new
        rw [engines_start] at member
        refine ⟨callsOf event.1 events, event.2, ?_, member⟩
        simp [callsOf]

/-! ## What a participant writes -/

theorem pexError_of_replied {engine : PexEngine} {call : Call}
    {target : String} {message : PexMessage}
    (reply : (target, message) ∈ replied (call, (engineStep engine call).2)) :
    ∃ code text, message = .pexError code text := by
  cases call with
  | onMessage source inbound nowMs =>
      obtain ⟨reply, member, same⟩ := List.mem_map.mp reply
      obtain ⟨-, rfl⟩ := Prod.mk.inj same
      have answers := engine.answers_judge source inbound nowMs
      cases verdict : (engine.link source).direction.judge
          engine.cfg.networkId inbound nowMs with
      | ignored =>
          rw [verdict] at answers
          rw [answers.2] at member
          cases member
      | accepted =>
          rw [verdict] at answers
          rw [answers.2.1] at member
          cases member
      | struck code =>
          rw [verdict] at answers
          rw [answers.2.1] at member
          exact ⟨_, _, List.mem_singleton.mp member⟩
      | mismatched code =>
          rw [verdict] at answers
          rw [answers.2.1] at member
          exact ⟨_, _, List.mem_singleton.mp member⟩
  | recordViolation source code nowMs =>
      obtain ⟨reply, member, same⟩ := List.mem_map.mp reply
      obtain ⟨-, rfl⟩ := Prod.mk.inj same
      rw [PexEngine.recordViolation_eq] at member
      exact ⟨_, _, List.mem_singleton.mp member⟩
  | _ => cases reply

omit [DefaultHasher] in
theorem mem_messagesFor {peerId : String} {message : PexMessage}
    {event : Call × Response} :
    message ∈ messagesFor peerId event ↔ (peerId, message) ∈ emitted event := by
  simp [messagesFor]

namespace Wrote

variable {cfg : PexConfig} {target : String} {message : PexMessage}
  {calls earlier : List Call} {call : Call}

theorem upserted (wrote : Wrote cfg target message calls earlier call)
    {entry : PeerEntry} (carried : entry ∈ message.entries) :
    .upsertKnown entry ∈ calls := by
  rcases List.mem_append.mp wrote.written with emission | reply
  · obtain ⟨order, listed⟩ := mem_advertisableFor_of_messagesFor
      (mem_messagesFor.mpr emission) carried
    have stocked := @stocked_final _
      (fun given => .upsertKnown given ∈ earlier) cfg earlier fun _ given =>
        given
    exact wrote.past.subset
      (List.mem_append_left _ (stocked.advertisableFor listed))
  · obtain ⟨code, text, rfl⟩ := pexError_of_replied reply
    cases carried

theorem declared {version declared : Nat} {network : String}
    {flags : List String}
    (wrote : Wrote cfg target (.pexHandshake version network declared flags)
      calls earlier call) :
    version = pexVersion ∧ network = cfg.networkId ∧
      declared = cfg.interval ∧ flags = cfg.flags := by
  rcases List.mem_append.mp wrote.written with emission | reply
  · have member := mem_messagesFor.mpr emission
    rw [messagesFor_engineStep] at member
    cases call with
    | linkUp opened nowMs order jitter =>
        dsimp only at member
        split at member
        · simpa [PexEngine.handshake, PexEngine.new] using member
        · cases member
    | tick nowMs orders jitter => simp at member
    | _ => cases member
  · obtain ⟨code, text, same⟩ := pexError_of_replied reply
    cases same

end Wrote

/-! ## What is heard one hop away -/

omit [DefaultHasher] in
/-- Everything a link told, and every hint, is vouched for. -/
structure Hearsay.Sourced (vouched : String → String → Nat → Prop)
    (memory : Hearsay) : Prop where
  received : ∀ (link id : String) (lastSeen : Nat),
    (memory.received link)[id]? = some lastSeen → vouched link id lastSeen
  hints : ∀ (id : String) (hint : ReceivedHint),
    memory.hints[id]? = some hint → vouched hint.source id hint.lastSeen

namespace Hearsay.Sourced

variable {vouched : String → String → Nat → Prop} {memory : Hearsay}

omit [DefaultHasher]

theorem empty : Sourced vouched Hearsay.empty :=
  ⟨fun link id lastSeen lookup => by simp [Hearsay.empty] at lookup,
    fun id hint lookup => by simp [Hearsay.empty] at lookup⟩

theorem mono {weaker : String → String → Nat → Prop}
    (weaken : ∀ link id lastSeen, vouched link id lastSeen →
      weaker link id lastSeen)
    (sourced : Sourced vouched memory) : Sourced weaker memory :=
  ⟨fun _ _ _ lookup => weaken _ _ _ (sourced.received _ _ _ lookup),
    fun _ _ lookup => weaken _ _ _ (sourced.hints _ _ lookup)⟩

theorem hear {report : Report}
    (told : ∀ link candidate, report = .tell link candidate →
      vouched link candidate.peerId candidate.lastSeen)
    (sourced : Sourced vouched memory) :
    Sourced vouched (Hearsay.hear memory report).1 := by
  constructor
  · intro link id lastSeen lookup
    rcases received_of_hear lookup with ⟨candidate, tells, rfl, rfl⟩ | ⟨old, _⟩
    · exact told link candidate tells
    · exact sourced.received link id lastSeen old
  · intro id hint lookup
    rcases hint_of_hear lookup with ⟨candidate, tells, rfl, same⟩ | old
    · rw [← same]
      exact told hint.source candidate tells
    · exact sourced.hints id hint old

theorem final {reports : List Report}
    (told : ∀ link candidate, .tell link candidate ∈ reports →
      vouched link candidate.peerId candidate.lastSeen)
    (sourced : Sourced vouched memory) :
    Sourced vouched (Hearsay.hear.final memory reports) := by
  induction reports generalizing memory with
  | nil => exact sourced
  | cons report reports induction =>
      rw [Machine.final_cons]
      apply induction
      · exact fun link candidate later =>
          told link candidate (List.mem_cons_of_mem _ later)
      · exact sourced.hear fun link candidate tells =>
          told link candidate (tells ▸ List.mem_cons_self)

end Hearsay.Sourced

variable {honest : String → Prop} {cfg : String → PexConfig}
  {events : List (String × Call)}

/-- A call keeps everything vouched for when so is every valid entry of an
accepted message. -/
theorem sourced_engineStep {vouched : String → String → Nat → Prop}
    {engine : PexEngine} {call : Call}
    (told : ∀ source message nowMs, call = .onMessage source message nowMs →
      engine.Accepts source message nowMs → ∀ entry ∈ message.entries,
        engine.Keeps source (nowMs / 1000) entry →
          vouched source entry.peerId
            (entry.clamped (nowMs / 1000)).lastSeen)
    (sourced : engine.hearsay.Sourced vouched) :
    (engineStep engine call).1.hearsay.Sourced vouched := by
  rw [← (hear_engineStep engine call).1]
  apply sourced.final
  intro link candidate tells
  obtain ⟨message, nowMs, same, accepted, entry, carried, kept, rfl⟩ :=
    PexEngine.of_tell_mem_reportsOf tells
  rw [PeerEntry.clamped_peerId]
  exact told link message nowMs same accepted entry carried kept

theorem of_mem_surfaced {engine : PexEngine} {call : Call}
    {candidate : PeerEntry}
    (surfaced : candidate ∈ (engineStep engine call).2.surfaced) :
    ∃ source message nowMs, call = .onMessage source message nowMs ∧
      engine.Accepts source message nowMs ∧ ∃ entry ∈ message.entries,
        engine.Keeps source (nowMs / 1000) entry ∧
          candidate = entry.clamped (nowMs / 1000) := by
  rw [← (hear_engineStep engine call).2] at surfaced
  obtain ⟨report, told, same⟩ := List.mem_filterMap.mp
    ((Hearsay.surfaced_sublist _ _).subset surfaced)
  cases report with
  | tell link told =>
      obtain rfl := Option.some.inj same
      obtain ⟨message, nowMs, call, accepted, rest⟩ :=
        PexEngine.of_tell_mem_reportsOf told
      exact ⟨link, message, nowMs, call, accepted, rest⟩
  | _ => cases same

/-- An entry that one participant's own host supplied, that its engine wrote
to another participant, and that is valid there. -/
structure Passed (cfg : String → PexConfig) (events : List (String × Call))
    (source target : String) (entry : PeerEntry) : Prop where
  upserted : (source, .upsertKnown entry) ∈ events
  written : ∃ message, entry ∈ message.entries ∧
    { source := source
      target := target
      message := message } ∈
        (networkStep.final (.start cfg) events).wire
  wellFormed : entry.WellFormed (cfg target).localPeerId source
    (cfg target).networkId

/-- What is known of a peer through one hop: an entry passed from the source,
not seen later than its source's host did. -/
def OneHop (cfg : String → PexConfig) (events : List (String × Call))
    (target source id : String) (lastSeen : Nat) : Prop :=
  ∃ entry nowSecs, Passed cfg events source target entry ∧
    entry.peerId = id ∧ lastSeen = min entry.lastSeen nowSecs ∧
      nowSecs ≤ entry.lastSeen + pexMaxEntryAge

theorem Passed.concat {source target : String} {entry : PeerEntry}
    (passed : Passed cfg events source target entry)
    (event : String × Call) :
    Passed cfg (events ++ [event]) source target entry := by
  obtain ⟨message, carried, sent⟩ := passed.written
  refine ⟨List.mem_append_left _ passed.upserted,
    ⟨message, carried, ?_⟩, passed.wellFormed⟩
  rw [Machine.final_concat]
  exact List.mem_append_left _ sent

theorem OneHop.concat {target source id : String} {lastSeen : Nat}
    (hop : OneHop cfg events target source id lastSeen)
    (event : String × Call) :
    OneHop cfg (events ++ [event]) target source id lastSeen := by
  obtain ⟨entry, nowSecs, passed, same⟩ := hop
  exact ⟨entry, nowSecs, passed.concat event, same⟩

theorem cfg_engines (target : String) :
    ((networkStep.final (.start cfg) events).engines target).cfg =
      cfg target := by
  rw [engines_start, cfg_final]
  rfl

theorem passed_of_authentic {target source : String} {message : PexMessage}
    {nowMs : Nat} {entry : PeerEntry} (trusted : honest source)
    (authentic : Authentic honest (networkStep.final (.start cfg) events)
      (target, .onMessage source message nowMs))
    (carried : entry ∈ message.entries)
    (kept : ((networkStep.final (.start cfg) events).engines target).Keeps
      source (nowMs / 1000) entry) :
    Passed cfg events source target entry ∧
      nowMs / 1000 ≤ entry.lastSeen + pexMaxEntryAge := by
  have sent := authentic trusted
  obtain ⟨earlier, call, wrote⟩ := wrote_of_wire cfg events sent
  obtain ⟨wellFormed, recent⟩ := (entry.validate_eq_ok_iff _).mp kept
  simp only [PexEngine.validateCtx, cfg_engines] at wellFormed recent
  exact ⟨⟨mem_callsOf.mp (wrote.upserted carried), ⟨message, carried, sent⟩,
    wellFormed⟩, recent⟩

/-- Everything a participant remembers is vouched for when every valid entry
it accepts is, at the time, and stays so. -/
theorem sourced_network
    {vouched : List (String × Call) → String → String → Nat → Prop}
    (target : String)
    (lasting : ∀ events event source id lastSeen,
      vouched events source id lastSeen →
        vouched (events ++ [event]) source id lastSeen)
    (told : ∀ events source message nowMs,
      let network := networkStep.final (.start cfg) events
      networkStep.Along (Authentic honest) (.start cfg) events →
        Authentic honest network (target, .onMessage source message nowMs) →
        (network.engines target).Accepts source message nowMs →
        ∀ entry ∈ message.entries,
          (network.engines target).Keeps source (nowMs / 1000) entry →
            vouched events source entry.peerId
              (entry.clamped (nowMs / 1000)).lastSeen)
    (authentic : networkStep.Along (Authentic honest) (.start cfg) events) :
    ((networkStep.final (.start cfg) events).engines
      target).hearsay.Sourced (vouched events) := by
  induction events using List.reverseRecOn with
  | nil =>
      have silent : (PexEngine.new (cfg target)).hearsay = .empty := by
        simp only [PexEngine.hearsay, PexEngine.link_new]
        rfl
      exact silent ▸ .empty
  | append_singleton events event induction =>
      obtain ⟨before, here, -⟩ := (Machine.along_append _ _ _ _).mp authentic
      have sourced := (induction before).mono (lasting events event)
      rw [Machine.final_concat]
      by_cases own : event.1 = target
      · subst own
        simp only [networkStep, Function.update_self]
        refine sourced_engineStep ?_ sourced
        intro source message nowMs call accepted entry carried kept
        have heard : event = (event.1, .onMessage source message nowMs) := by
          rw [← call]
        rw [heard] at here
        exact lasting _ _ _ _ _
          (told events source message nowMs before here accepted entry carried
            kept)
      · simp only [networkStep, Function.update_of_ne (Ne.symm own)]
        exact sourced

theorem oneHop_network
    (authentic : networkStep.Along (Authentic honest) (.start cfg) events)
    (target : String) :
    ((networkStep.final (.start cfg) events).engines
      target).hearsay.Sourced fun source id lastSeen =>
        honest source → OneHop cfg events target source id lastSeen := by
  apply @sourced_network _ honest cfg events
    (fun events source id lastSeen =>
      honest source → OneHop cfg events target source id lastSeen) target
  · exact fun _ event _ _ _ hop trusted => (hop trusted).concat event
  · intro events source message nowMs network _ genuine _ entry carried kept
      trusted
    obtain ⟨passed, recent⟩ := passed_of_authentic trusted genuine carried kept
    exact ⟨entry, nowMs / 1000, passed, rfl, entry.clamped_lastSeen _, recent⟩
  · exact authentic

/-- Gossip goes one hop.  In every run of a network in which honest
participants are heard only through what they put on the wire, whatever a
participant has recorded from an honest one, every hint with an honest source
and every candidate surfaced next from an honest participant is an entry that
participant's own host supplied and its engine wrote to this participant:
nothing an honest participant was told by others is passed on. -/
theorem one_hop (honest : String → Prop) (cfg : String → PexConfig)
    (events : List (String × Call))
    (authentic : networkStep.Along (Authentic honest) (.start cfg) events)
    (target source : String) (trusted : honest source) :
    let network := networkStep.final (.start cfg) events
    let engine := network.engines target
    (∀ (id : String) (lastSeen : Nat),
      (engine.link source).received[id]? = some lastSeen →
        OneHop cfg events target source id lastSeen) ∧
      (∀ (id : String) (hint : ReceivedHint), engine.hints[id]? = some hint →
        hint.source = source →
          OneHop cfg events target source id hint.lastSeen) ∧
      ∀ (message : PexMessage) (nowMs : Nat) (candidate : PeerEntry),
        Authentic honest network (target, .onMessage source message nowMs) →
          candidate ∈ (engine.onMessage source message nowMs).2.surfaced →
            ∃ entry, Passed cfg events source target entry ∧
              candidate = entry.clamped (nowMs / 1000) ∧
                nowMs / 1000 ≤ entry.lastSeen + pexMaxEntryAge := by
  intro network engine
  have sourced := oneHop_network authentic target
  refine ⟨?_, ?_, ?_⟩
  · intro id lastSeen lookup
    exact sourced.received source id lastSeen lookup trusted
  · rintro id hint lookup rfl
    exact sourced.hints id hint lookup trusted
  · intro message nowMs candidate genuine surfaced
    have response : candidate ∈ (engineStep engine
        (.onMessage source message nowMs)).2.surfaced := surfaced
    obtain ⟨_, _, _, call, _, entry, carried, kept, rfl⟩ :=
      of_mem_surfaced response
    obtain ⟨rfl, rfl, rfl⟩ := Call.onMessage.inj call
    obtain ⟨passed, recent⟩ :=
      passed_of_authentic trusted genuine carried kept
    exact ⟨entry, passed, rfl, recent⟩

omit [DefaultHasher] in
/-- A record of an entry that an honest participant's host supplied, while
another participant tells the same peer as it likes. -/
theorem one_hop_recorded :
    let cfg := exampleConfig
    let opening := PexMessage.pexHandshake 1 "network" 60 []
    let events : List (String × Call) := [
      (exampleId 'a', .upsertKnown (exampleEntry 'd' 900 9444)),
      (exampleId 'a', .linkUp (exampleId 'b') 1000000 .ascending .zero),
      (exampleId 'b', .onMessage (exampleId 'a') opening 1000500),
      (exampleId 'b', .onMessage (exampleId 'a')
        (.pexSnapshot [exampleEntry 'd' 900 9444]) 1000500),
      (exampleId 'b', .onMessage (exampleId 'c') opening 1000500),
      (exampleId 'b', .onMessage (exampleId 'c')
        (.pexSnapshot [exampleEntry 'd' 999 1]) 1000500)]
    let engine := ((@networkStep sipHasher).final (.start cfg) events).engines
      (exampleId 'b')
    (engine.link (exampleId 'a')).received[exampleId 'd']? = some 900 ∧
      @OneHop sipHasher cfg events (exampleId 'b') (exampleId 'a')
        (exampleId 'd') 900 := by
  intro cfg opening events engine
  have recorded : (engine.link (exampleId 'a')).received[exampleId 'd']? =
      some 900 := by decide +kernel
  have hops := @one_hop sipHasher (· ≠ exampleId 'c') cfg events
    (by decide +kernel) (exampleId 'b') (exampleId 'a') (by decide +kernel)
  exact ⟨recorded, hops.1 _ _ recorded⟩

end DigPex
