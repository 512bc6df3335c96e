import DigPex.Attribution
import DigPex.Concrete
import DigPex.Library.Metering
import DigPex.ReceiverMemory

/-!
# What one link can pour in

Within one lifetime of a link, the arrival floor spaces the data messages that
are accepted, whatever clock values they come with, and their lists are
capped.  So the candidates and the dropped ids a remote can make the engine
report grow with time only, and replies stop with the mute.
-/

namespace DigPex

/-- The messages written back with a response. -/
def Response.replies : Response → List PexMessage
  | .outcome answer => answer.replies
  | _ => []

/-- A call does not end the lifetime of a link, and a message of the link
comes within a span of clock values. -/
def Within (peerId : String) (startMs endMs : Nat) : Call → Prop
  | .onMessage source _ nowMs =>
      source = peerId → startMs ≤ nowMs ∧ nowMs ≤ endMs
  | .linkDown closed => closed ≠ peerId
  | _ => True

instance (peerId : String) (startMs endMs : Nat) :
    ∀ call, Decidable (Within peerId startMs endMs call)
  | .onMessage _ _ _ => inferInstanceAs (Decidable (_ → _))
  | .linkDown _ => inferInstanceAs (Decidable (_ ≠ _))
  | .upsertKnown _ => isTrue trivial
  | .removeKnown _ => isTrue trivial
  | .linkUp _ _ _ _ => isTrue trivial
  | .recordViolation _ _ _ => isTrue trivial
  | .tick _ _ _ => isTrue trivial

/-- The response to a message of a link. -/
def answerTo (peerId : String) : Call × Response → Option Response
  | (.onMessage source _ _, answer) =>
      if source = peerId then some answer else none
  | _ => none

/-! ## Accepted data messages are spaced -/

/-- The arrival floor of a direction. -/
def Direction.floorMs (direction : Direction) : Nat :=
  arrivalFloorMs (direction.remoteDeclaredSecs.getD 0)

/-- A number of data messages that a direction accepted since a time, and that
their spacing allows. -/
structure Arrivals (startMs endMs : Nat) (direction : Direction)
    (rounds : Nat) : Prop where
  waiting : direction.phase ≠ .streaming → rounds = 0
  metered : Metered startMs endMs direction.floorMs direction.lastArrivalMs
    rounds

theorem Direction.dropped_of_admits {direction : Direction}
    {network : String} {message : PexMessage} {nowMs : Nat}
    (admits : direction.Admits network nowMs message) :
    message.dropped.length ≤ 50 * message.isData.toNat := by
  cases message with
  | pexDelta added dropped =>
      have small : dropped.length ≤ 50 := admits.2.2.2.1
      simpa [PexMessage.dropped, PexMessage.isData] using small
  | _ => exact Nat.zero_le _

namespace Arrivals

variable {startMs endMs rounds nowMs : Nat} {direction : Direction}
  {network : String} {message : PexMessage}

theorem none : Arrivals startMs endMs direction 0 :=
  ⟨fun _ => rfl, .none⟩

theorem penalize (arrivals : Arrivals startMs endMs direction rounds)
    (strikes : Nat) (mute : Bool) :
    Arrivals startMs endMs (direction.penalize strikes mute) rounds :=
  ⟨arrivals.waiting, arrivals.metered⟩

theorem advance (arrivals : Arrivals startMs endMs direction rounds)
    (admits : direction.Admits network nowMs message)
    (within : startMs ≤ nowMs ∧ nowMs ≤ endMs) :
    Arrivals startMs endMs (direction.advance message nowMs)
      (rounds + message.isData.toNat) := by
  cases message with
  | pexError code text => exact arrivals
  | pexHandshake version networkId declared flags =>
      have early : direction.phase ≠ .streaming := by
        rw [admits.1]
        decide
      rw [arrivals.waiting early]
      exact .none
  | pexSnapshot peers =>
      have early : direction.phase ≠ .streaming := by
        rw [admits.1]
        decide
      rw [arrivals.waiting early]
      exact ⟨fun late => absurd rfl late, .first within⟩
  | pexDelta added dropped =>
      obtain ⟨streaming, floor, _⟩ := admits
      refine ⟨fun late => absurd streaming late,
        arrivals.metered.next ?_ within⟩
      intro last _ arrived
      have positive := arrivalFloorMs_pos
        (direction.remoteDeclaredSecs.getD 0)
      have apart := floor last arrived
      unfold Direction.floorMs
      omega

theorem entries (arrivals : Arrivals startMs endMs direction rounds)
    (admits : direction.Admits network nowMs message) :
    150 * min rounds 1 + 50 * rounds + message.entries.length ≤
      150 * min (rounds + message.isData.toNat) 1 +
        50 * (rounds + message.isData.toNat) := by
  cases message with
  | pexError code text => exact le_rfl
  | pexHandshake version networkId declared flags => exact le_rfl
  | pexSnapshot peers =>
      have early : direction.phase ≠ .streaming := by
        rw [admits.1]
        decide
      have small : peers.length ≤ 200 := admits.2
      rw [arrivals.waiting early]
      simp only [PexMessage.entries, PexMessage.isData, Bool.toNat_true]
      omega
  | pexDelta added dropped =>
      have small : added.length ≤ 50 := admits.2.2.1
      simp only [PexMessage.entries, PexMessage.isData, Bool.toNat_true]
      omega

theorem le (arrivals : Arrivals startMs endMs direction rounds) :
    rounds ≤ (endMs - startMs) / direction.floorMs + 1 :=
  arrivals.metered.le (arrivalFloorMs_pos _)

end Arrivals

/-! ## Replies stop with the mute -/

/-- A number of replies that a direction's strikes allow. -/
structure Replied (direction : Direction) (replies : Nat) : Prop where
  bounded : replies ≤ pexViolationLimit
  unmuted : direction.muted = false →
    replies ≤ direction.strikes ∧ direction.strikes < pexViolationLimit

namespace Replied

variable {direction : Direction} {replies : Nat}

theorem advance (replied : Replied direction replies) (message : PexMessage)
    (nowMs : Nat) : Replied (direction.advance message nowMs) replies := by
  cases message <;> exact ⟨replied.bounded, replied.unmuted⟩

theorem fault (replied : Replied direction replies) :
    Replied (direction.penalize 1 direction.strikeMutes) replies := by
  refine ⟨replied.bounded, fun unmuted => ?_⟩
  simp only [Direction.penalize, Direction.strikeMutes, Bool.or_eq_false_iff,
    decide_eq_false_iff_not] at unmuted ⊢
  have before := replied.unmuted unmuted.1
  omega

theorem reply (replied : Replied direction replies)
    (unmuted : direction.muted = false) {strikes : Nat} {mute : Bool}
    (counted : mute = true ∨
      strikes = 1 ∧ direction.strikes + 1 < pexViolationLimit) :
    Replied (direction.penalize strikes mute) (replies + 1) := by
  have before := replied.unmuted unmuted
  refine ⟨by omega, fun after => ?_⟩
  simp only [Direction.penalize, Bool.or_eq_false_iff] at after ⊢
  rcases counted with muted | ⟨rfl, below⟩
  · rw [muted] at after
    cases after.2
  · omega

end Replied

/-! ## One message -/

namespace PexEngine

section Sizes

variable (engine : PexEngine) (source : String) (message : PexMessage)
  (nowMs : Nat)

theorem unlisted_accept_length :
    (engine.accept source message nowMs).2.unlisted.length ≤
      message.dropped.length := by
  have quiet : ∀ (state : PexEngine) entries,
      (state.ingestAdded source entries nowMs).2.unlisted = [] := by
    intro state entries
    simp only [PexEngine.ingestAdded]
    split <;> rfl
  cases message with
  | pexError code text => exact Nat.zero_le _
  | pexHandshake version networkId declared flags => exact Nat.zero_le _
  | pexSnapshot peers =>
      have none := quiet (engine.setLink source ((engine.link source).advance
        (.pexSnapshot peers) nowMs)) peers
      simp only [PexEngine.accept, none]
      exact Nat.zero_le _
  | pexDelta added dropped =>
      simp only [PexEngine.accept, PexOutcome.unlisted, List.flatMap_append]
      have none := quiet (engine.setLink source ((engine.link source).advance
        (.pexDelta added dropped) nowMs)) added
      simp only [PexOutcome.unlisted] at none
      rw [none, List.nil_append]
      refine (congrArg List.length
        (PexEngine.unlisted_ingestDropped _)).le.trans ?_
      refine (List.length_filterMap_le _ _).trans ?_
      rw [Machine.length_outputs]
      exact le_rfl

variable [DefaultHasher]

theorem surfaced_length :
    (engine.onMessage source message nowMs).2.surfaced.length ≤
      message.entries.length := by
  have heard := (hear_engineStep engine (.onMessage source message nowMs)).2
  have told := (Hearsay.surfaced_sublist engine.hearsay
    (engine.reportsOf (.onMessage source message nowMs))).trans
      (engine.candidate_reportsOf _)
  rw [heard] at told
  have length := told.length_le
  rw [Call.candidates, List.length_map] at length
  exact length

end Sizes

end PexEngine

/-! ## Runs -/

/-- How much the responses to the messages of a link carry. -/
def tally {Item : Type} (items : Response → List Item) (peerId : String)
    (past : List (Call × Response)) : Nat :=
  ((past.filterMap (answerTo peerId)).flatMap items).length

theorem tally_concat {Item : Type} (items : Response → List Item)
    (peerId : String) (past : List (Call × Response))
    (event : Call × Response) :
    tally items peerId (past ++ [event]) = tally items peerId past +
      ((answerTo peerId event).elim [] items).length := by
  unfold tally
  rw [List.filterMap_append, List.flatMap_append, List.length_append]
  cases answered : answerTo peerId event <;> simp [answered]

/-- What came in on a link fits the strikes and the arrivals of its
direction. -/
structure Inflow (peerId : String) (startMs endMs : Nat)
    (past : List (Call × Response)) (engine : PexEngine) : Prop where
  replied : Replied (engine.link peerId).direction
    (tally Response.replies peerId past)
  arrived : ∃ rounds,
    Arrivals startMs endMs (engine.link peerId).direction rounds ∧
      tally Response.surfaced peerId past ≤ 150 * min rounds 1 + 50 * rounds ∧
      tally Response.unlisted peerId past ≤ 50 * rounds

section Runs

variable [DefaultHasher] {peerId : String} {startMs endMs : Nat}
  {past : List (Call × Response)} {engine : PexEngine}

theorem direction_elsewhere {call : Call}
    (silent : ∀ response, answerTo peerId (call, response) = none)
    (up : call ≠ .linkDown peerId) :
    let before := (engine.link peerId).direction
    ((engineStep engine call).1.link peerId).direction = before ∨
      ((engineStep engine call).1.link peerId).direction =
        before.penalize 1 before.strikeMutes := by
  intro before
  rw [direction_engineStep]
  cases call with
  | onMessage source message nowMs =>
      have other : source ≠ peerId := by
        intro same
        simpa [answerTo, same] using silent .done
      simp [Call.inbound, other, before]
  | recordViolation source code nowMs =>
      by_cases same : source = peerId
      · simp [Call.inbound, same, Direction.receive, before]
      · simp [Call.inbound, same, before]
  | linkDown closed =>
      have other : closed ≠ peerId := by
        rintro rfl
        exact up rfl
      simp [Call.inbound, other, before]
  | _ => exact .inl rfl

theorem Inflow.elsewhere {call : Call}
    (silent : ∀ response, answerTo peerId (call, response) = none)
    (up : call ≠ .linkDown peerId)
    (inflow : Inflow peerId startMs endMs past engine) :
    Inflow peerId startMs endMs (past ++ [(call, (engineStep engine call).2)])
      (engineStep engine call).1 := by
  obtain ⟨rounds, arrivals, candidates, dropped⟩ := inflow.arrived
  have same : ∀ {Item : Type} (items : Response → List Item),
      tally items peerId (past ++ [(call, (engineStep engine call).2)]) =
        tally items peerId past := by
    intro Item items
    rw [tally_concat, silent]
    rfl
  rcases direction_elsewhere silent up with kept | struck
  · exact ⟨by rw [kept, same]; exact inflow.replied, rounds,
      by rw [kept]; exact arrivals, by rw [same]; exact candidates,
      by rw [same]; exact dropped⟩
  · exact ⟨by rw [struck, same]; exact inflow.replied.fault, rounds,
      by rw [struck]; exact arrivals.penalize _ _,
      by rw [same]; exact candidates, by rw [same]; exact dropped⟩

theorem Inflow.message {message : PexMessage} {nowMs : Nat}
    (within : startMs ≤ nowMs ∧ nowMs ≤ endMs)
    (inflow : Inflow peerId startMs endMs past engine) :
    let call := Call.onMessage peerId message nowMs
    Inflow peerId startMs endMs (past ++ [(call, (engineStep engine call).2)])
      (engineStep engine call).1 := by
  intro call
  obtain ⟨rounds, arrivals, candidates, dropped⟩ := inflow.arrived
  have response : (engineStep engine call).2 =
      .outcome (engine.onMessage peerId message nowMs).2 := rfl
  have tallied : ∀ {Item : Type} (items : Response → List Item),
      tally items peerId (past ++ [(call, (engineStep engine call).2)]) =
        tally items peerId past + (items (.outcome
          (engine.onMessage peerId message nowMs).2)).length := by
    intro Item items
    rw [tally_concat, response]
    simp [answerTo, call]
  have direction : ((engineStep engine call).1.link peerId).direction =
      (engine.link peerId).direction.conclude message nowMs
        ((engine.link peerId).direction.judge engine.cfg.networkId message
          nowMs) := by
    rw [direction_engineStep]
    simp [Call.inbound, call, Direction.receive]
  have answers := engine.answers_judge peerId message nowMs
  cases verdict : (engine.link peerId).direction.judge engine.cfg.networkId
      message nowMs with
  | ignored =>
      rw [verdict] at answers direction
      have silent := congrArg Prod.snd answers.2
      constructor
      · rw [tallied, direction, silent]
        exact inflow.replied
      · refine ⟨rounds, ?_, ?_, ?_⟩
        · rw [direction]
          exact arrivals
        · rw [tallied, silent]
          exact candidates
        · rw [tallied, silent]
          exact dropped
  | struck code =>
      rw [verdict] at answers direction
      obtain ⟨unmuted, violation, _⟩ := answers
      constructor
      · rw [tallied, direction, violation]
        refine inflow.replied.reply unmuted ?_
        by_cases limit : (engine.link peerId).direction.strikeMutes = true
        · exact .inl limit
        · simp only [Direction.strikeMutes, decide_eq_true_eq] at limit
          exact .inr ⟨rfl, by omega⟩
      · refine ⟨rounds, ?_, ?_, ?_⟩
        · rw [direction]
          exact arrivals.penalize _ _
        · rw [tallied, violation]
          exact candidates
        · rw [tallied, violation]
          exact dropped
  | mismatched code =>
      rw [verdict] at answers direction
      obtain ⟨unmuted, violation, _⟩ := answers
      constructor
      · rw [tallied, direction, violation]
        exact inflow.replied.reply unmuted (.inl rfl)
      · refine ⟨rounds, ?_, ?_, ?_⟩
        · rw [direction]
          exact arrivals.penalize _ _
        · rw [tallied, violation]
          exact candidates
        · rw [tallied, violation]
          exact dropped
  | accepted =>
      have accepts : engine.Accepts peerId message nowMs := verdict
      obtain ⟨_, admits⟩ := (Direction.judge_eq_accepted_iff _ _ _ _).mp verdict
      rw [verdict] at answers direction
      obtain ⟨_, quiet, _⟩ := answers
      have surfaced := engine.surfaced_length peerId message nowMs
      have unlisted := engine.unlisted_accept_length peerId message nowMs
      rw [← PexEngine.onMessage_of_accepts accepts] at unlisted
      constructor
      · rw [tallied, direction]
        simp only [Response.replies, quiet]
        exact inflow.replied.advance message nowMs
      · refine ⟨rounds + message.isData.toNat, ?_, ?_, ?_⟩
        · rw [direction]
          exact arrivals.advance admits within
        · have room := arrivals.entries admits
          rw [tallied]
          simp only [Response.surfaced]
          omega
        · have room := Direction.dropped_of_admits admits
          rw [tallied]
          simp only [Response.unlisted]
          omega

/-- Within one lifetime and a span of clock values, what comes in on a link
fits. -/
theorem inflow_final {later : List Call} {latestSecs : Nat}
    (memory : ReceiverMemory latestSecs engine)
    (within : ∀ call ∈ later, Within peerId startMs endMs call) :
    Inflow peerId startMs endMs (engineStep.trace engine later)
      (engineStep.final engine later) := by
  have along : engineStep.Along (fun _ call => Within peerId startMs endMs
      call) engine later := by
    rw [Machine.along_iff]
    rintro before call after rfl
    exact within call (by simp)
  refine engineStep.trace_invariant_along ?_ ?_ along
  · refine ⟨⟨Nat.zero_le _, fun unmuted => ⟨Nat.zero_le _, ?_⟩⟩, 0, .none,
      Nat.zero_le _, Nat.zero_le _⟩
    by_contra limit
    have muted := (memory.link peerId).limitMutes (not_lt.mp limit)
    exact absurd unmuted (by simp [LinkState.direction, muted])
  · intro past state call allowed inflow
    cases call with
    | onMessage source message nowMs =>
        by_cases same : source = peerId
        · subst same
          exact inflow.message (allowed rfl)
        · exact inflow.elsewhere (fun _ => if_neg same)
            (by rintro ⟨⟩)
    | linkDown closed =>
        refine inflow.elsewhere (fun _ => rfl) ?_
        rintro ⟨⟩
        exact allowed rfl
    | _ => exact inflow.elsewhere (fun _ => rfl) (by rintro ⟨⟩)

end Runs

/-- What one link can pour in is bounded by the time it takes.  Over any part
of a run that stays within one lifetime of a link, and however the clock values
of its messages lie in a span, the messages of the link surface at most 200
candidates and 50 for each arrival floor that fits the span, report at most 50
dropped ids for each and 50 more, and are replied to at most three times. -/
theorem inflow_bounded [DefaultHasher] (cfg : PexConfig)
    (earlier later : List Call) (peerId : String) (startMs endMs : Nat)
    (within : ∀ call ∈ later, Within peerId startMs endMs call) :
    let start := engineStep.final (.new cfg) earlier
    let past := engineStep.trace start later
    let floorMs :=
      ((engineStep.final start later).link peerId).direction.floorMs
    let rounds := (endMs - startMs) / floorMs
    25000 ≤ floorMs ∧
      tally Response.surfaced peerId past ≤ 200 + 50 * rounds ∧
      tally Response.unlisted peerId past ≤ 50 * (rounds + 1) ∧
      tally Response.replies peerId past ≤ 3 := by
  intro start past floorMs rounds
  have flow := inflow_final ((ReceiverMemory.start cfg).run earlier) within
  obtain ⟨arrived, arrivals, candidates, dropped⟩ := flow.arrived
  have fits : arrived ≤ rounds + 1 := arrivals.le
  refine ⟨?_, ?_, ?_, flow.replied.bounded⟩
  · simp only [floorMs, Direction.floorMs, arrivalFloorMs, clampInterval,
      pexMinInterval, pexMaxInterval, pexArrivalGrace]
    omega
  · have bound : tally Response.surfaced peerId past ≤ _ := candidates
    omega
  · have bound : tally Response.unlisted peerId past ≤ _ := dropped
    omega

/-- A remote that sends its snapshot and, with the clock going back and forth,
two deltas of which one is on time. -/
theorem inflow_bounded_back_and_forth :
    let cfg := exampleConfig (exampleId 'a')
    let later : List Call :=
      [.onMessage (exampleId 'b') (.pexHandshake 1 "network" 60 []) 1000000,
        .onMessage (exampleId 'b')
          (.pexSnapshot [exampleEntry 'd' 900 9444]) 1000000,
        .onMessage (exampleId 'b')
          (.pexDelta [exampleEntry 'e' 900 9444] []) 1060000,
        .onMessage (exampleId 'b') (.pexDelta [] [exampleId 'd']) 1030000]
    let past := (@engineStep sipHasher).trace (.new cfg) later
    tally Response.surfaced (exampleId 'b') past = 2 ∧
      tally Response.unlisted (exampleId 'b') past = 0 ∧
      tally Response.replies (exampleId 'b') past = 1 ∧
      tally Response.surfaced (exampleId 'b') past ≤
        200 + 50 * ((1060000 - 1000000) /
          (((@engineStep sipHasher).final (.new cfg) later).link
            (exampleId 'b')).direction.floorMs) := by
  intro cfg later past
  have bounded := @inflow_bounded sipHasher cfg [] later (exampleId 'b')
    1000000 1060000 (by decide +kernel)
  exact ⟨by decide +kernel, by decide +kernel, by decide +kernel,
    bounded.2.1⟩

end DigPex
