import DigPex.Draining
import DigPex.HintReasons
import DigPex.HonestSender
import DigPex.Quiescence

/-!
# The receiver's record converges

While an honest connection lasts, what the receiver has recorded of the sender
and what the sender has told differ only by what is in flight.  So once the
sender's queue has drained and its messages have arrived, the record is
exactly what the sender advertises.
-/

namespace DigPex

theorem foldl_listedAfter_of_kept {id : String} {messages : List PexMessage}
    {listed : Prop} (before : listed)
    (kept : ∀ added dropped, .pexDelta added dropped ∈ messages →
      id ∉ dropped) :
    messages.foldl (listedAfter id) listed := by
  induction messages generalizing listed with
  | nil => exact before
  | cons message messages induction =>
      refine induction ?_ fun added dropped later =>
        kept added dropped (List.mem_cons_of_mem _ later)
      cases message with
      | pexSnapshot peers => exact .inl before
      | pexDelta added dropped =>
          exact ⟨.inl before, kept added dropped List.mem_cons_self⟩
      | _ => exact before

theorem of_foldl_listedAfter {id : String} {messages : List PexMessage}
    {listed : Prop} (after : messages.foldl (listedAfter id) listed) :
    listed ∨ ∃ message ∈ messages, ∃ entry ∈ message.entries,
      entry.peerId = id := by
  induction messages generalizing listed with
  | nil => exact .inl after
  | cons message messages induction =>
      rcases induction after with before | ⟨later, member, carried⟩
      · cases message with
        | pexSnapshot peers =>
            exact before.imp_right fun carried =>
              ⟨_, List.mem_cons_self, List.mem_map.mp carried⟩
        | pexDelta added dropped =>
            exact before.1.imp_right fun carried =>
              ⟨_, List.mem_cons_self, List.mem_map.mp carried⟩
        | _ => exact .inl before
      · exact .inr ⟨later, List.mem_cons_of_mem _ member, carried⟩

namespace PexEngine

variable {engine : PexEngine} {peerId id : String} {nowMs : Nat}

theorem mem_received_ingestAdded {entries : List PeerEntry}
    (listed : id ∈
      ((engine.ingestAdded peerId entries nowMs).1.link peerId).received) :
    id ∈ (engine.link peerId).received ∨
      id ∈ entries.map PeerEntry.peerId := by
  have heard := (@hear_ingestEntries engine peerId (nowMs / 1000) entries).1
  have present : id ∈ (Hearsay.hear.final engine.hearsay
      (engine.tells peerId (nowMs / 1000) entries)).received peerId := by
    rw [heard]
    exact listed
  rcases Hearsay.mem_received_of_final present with
    old | ⟨candidate, told, rfl⟩
  · exact .inl old
  · obtain ⟨-, entry, member, -, rfl⟩ := tell_mem_tells.mp told
    rw [PeerEntry.clamped_peerId]
    exact .inr (List.mem_map_of_mem member)

theorem listedAfter_of_accept {message : PexMessage}
    (listed : id ∈
      ((engine.accept peerId message nowMs).1.link peerId).received) :
    listedAfter id (id ∈ (engine.link peerId).received) message := by
  have advanced : ((engine.setLink peerId ((engine.link peerId).advance
      message nowMs)).link peerId).received =
        (engine.link peerId).received := by
    rw [link_setLink_self]
    exact ((engine.link peerId).advance_kept message nowMs).1
  cases message with
  | pexError code text =>
      simp only [accept] at listed
      rwa [advanced] at listed
  | pexHandshake version networkId declared flags =>
      simp only [accept] at listed
      rwa [advanced] at listed
  | pexSnapshot peers =>
      have found := mem_received_ingestAdded listed
      rwa [advanced] at found
  | pexDelta added dropped =>
      simp only [accept] at listed
      rw [received_ingestDropped, FiniteMap.mem_eraseAll] at listed
      have found := mem_received_ingestAdded listed.1
      rw [advanced] at found
      exact ⟨found, listed.2⟩

end PexEngine

/-! ## An honest connection whose entries arrive in time -/

/-- Every upserted entry is valid for the receiver at some clock value, and no
entry is too old when it arrives. -/
def Timely (ids : Finset String) (senderId receiverId : String)
    (pair : Pair) : PairEvent → Prop
  | .sender (.upsertKnown entry) =>
      entry.peerId ∈ ids ∧ (entry.peerId ≠ receiverId →
        ∃ nowSecs, pair.receiver.Keeps senderId nowSecs entry)
  | .deliver nowMs => ∀ oldest ∈ pair.inFlight.head?,
      ∀ entry ∈ oldest.1.entries,
        nowMs / 1000 ≤ entry.lastSeen + pexMaxEntryAge
  | _ => True

instance (ids : Finset String) (senderId receiverId : String)
    (pair : Pair) :
    ∀ event, Decidable (Timely ids senderId receiverId pair event)
  | .sender (.upsertKnown _) => inferInstanceAs (Decidable (_ ∧ (_ → _)))
  | .deliver _ =>
      inferInstanceAs (Decidable (∀ oldest ∈ pair.inFlight.head?, _))
  | .sender (.removeKnown _) => isTrue trivial
  | .sender (.linkUp _ _ _ _) => isTrue trivial
  | .sender (.linkDown _) => isTrue trivial
  | .sender (.onMessage _ _ _) => isTrue trivial
  | .sender (.recordViolation _ _ _) => isTrue trivial
  | .sender (.tick _ _ _) => isTrue trivial
  | .receiver _ => isTrue trivial

/-- An event of an honest connection whose entries arrive in time. -/
def Faithful (ids : Finset String) (delay : Int)
    (senderId receiverId : String) (pair : Pair) (event : PairEvent) : Prop :=
  HonestEvent delay senderId receiverId pair event ∧
    Timely ids senderId receiverId pair event

instance (ids : Finset String) (delay : Int) (senderId receiverId : String)
    (pair : Pair) (event : PairEvent) :
    Decidable (Faithful ids delay senderId receiverId pair event) :=
  inferInstanceAs (Decidable (_ ∧ _))

/-- A receiver that has heard nothing yet, on the network of the sender. -/
structure Unheard (cfg : PexConfig) (senderId : String)
    (receiver : PexEngine) : Prop where
  network : receiver.cfg.networkId = cfg.networkId
  fresh : (receiver.link senderId).direction = .fresh
  empty : (receiver.link senderId).received = ∅

variable [DefaultHasher]

/-- The sender has told exactly what the receiver will have recorded when
everything in flight has arrived. -/
structure Mirrored (ids : Finset String) (cfg receiverCfg : PexConfig)
    (delay : Int) (senderId receiverId : String)
    (delivered : List (PexMessage × Nat)) (pair : Pair) : Prop where
  inStep : InStep cfg delay senderId receiverId pair
  settling : Settling ids receiverCfg senderId receiverId delivered pair
  inTime : ∀ (id : String), ∀ arrival ∈ arrivedSinceDropped id delivered,
    arrival.2 ≤ arrival.1.lastSeen + pexMaxEntryAge
  recorded : ∀ id : String, (pair.inFlight.map Prod.fst).foldl
      (listedAfter id) (id ∈ (pair.receiver.link senderId).received) →
    id ∈ (pair.sender.link receiverId).told

section Step

variable {ids : Finset String} {cfg receiverCfg : PexConfig} {delay : Int}
  {senderId receiverId : String} {delivered : List (PexMessage × Nat)}
  {pair : Pair}

omit [DefaultHasher] in
theorem Call.eq_linkDown_of_inbound {call : Call} {peerId : String}
    (down : call.inbound peerId = some .down) : call = .linkDown peerId := by
  cases call <;> simp_all [Call.inbound]

omit [DefaultHasher] in
theorem InStep.accepts {message : PexMessage} {sent nowMs : Nat}
    {rest : List (PexMessage × Nat)}
    (inStep : InStep cfg delay senderId receiverId pair)
    (queue : pair.inFlight = (message, sent) :: rest)
    (honest : HonestEvent delay senderId receiverId pair (.deliver nowMs)) :
    pair.receiver.Accepts senderId message nowMs := by
  obtain ⟨-, network, synchronized⟩ := inStep
  rw [queue] at synchronized
  have accepted := (synchronized.deliver
    (honest (message, sent) (by rw [queue]; rfl))).1
  rwa [← network] at accepted

omit [DefaultHasher] in
theorem Faithful.settles {event : PairEvent}
    (inStep : InStep cfg delay senderId receiverId pair)
    (faithful : Faithful ids delay senderId receiverId pair event) :
    SettlingEvent ids senderId receiverId pair event := by
  obtain ⟨honest, timely⟩ := faithful
  cases event with
  | sender call =>
      cases call with
      | upsertKnown entry => exact timely
      | _ => exact trivial
  | receiver call => exact honest
  | deliver nowMs =>
      intro oldest first
      obtain ⟨message, sent⟩ := oldest
      obtain ⟨rest, queue⟩ := List.head?_eq_some_iff.mp first
      have answers := pair.receiver.answers_judge senderId message nowMs
      rw [inStep.accepts queue honest] at answers
      exact answers.2.2.1

theorem Mirrored.sender {call : Call}
    (mirrored : Mirrored ids cfg receiverCfg delay senderId receiverId
      delivered pair)
    (faithful : Faithful ids delay senderId receiverId pair (.sender call))
    (id : String) :
    let after := (pairStep senderId receiverId pair (.sender call)).1
    (after.inFlight.map Prod.fst).foldl (listedAfter id)
        (id ∈ (after.receiver.link senderId).received) →
      id ∈ (after.sender.link receiverId).told := by
  intro after recorded
  simp only [after, pairStep] at recorded ⊢
  have up : call.inbound receiverId ≠ some .down := by
    intro down
    obtain rfl := Call.eq_linkDown_of_inbound down
    exact faithful.1 rfl
  rw [told_engineStep, if_neg up]
  apply mem_foldl_transcribe_iff.mpr
  rw [List.map_append, List.foldl_append, List.map_map] at recorded
  simp only [Function.comp_def, List.map_id'] at recorded
  exact foldl_listedAfter_mono (mirrored.recorded id) recorded

theorem Mirrored.deliver {nowMs : Nat}
    (mirrored : Mirrored ids cfg receiverCfg delay senderId receiverId
      delivered pair)
    (faithful : Faithful ids delay senderId receiverId pair (.deliver nowMs))
    (id : String) :
    let after := (pairStep senderId receiverId pair (.deliver nowMs)).1
    (after.inFlight.map Prod.fst).foldl (listedAfter id)
        (id ∈ (after.receiver.link senderId).received) →
      id ∈ (after.sender.link receiverId).told := by
  intro after recorded
  have expected := mirrored.recorded id
  cases queue : pair.inFlight with
  | nil =>
      simp only [after, pairStep, queue] at recorded ⊢
      rw [queue] at expected
      exact expected recorded
  | cons oldest rest =>
      obtain ⟨message, sent⟩ := oldest
      have accepted := mirrored.inStep.accepts queue faithful.1
      simp only [after, pairStep, queue,
        PexEngine.onMessage_of_accepts accepted] at recorded ⊢
      rw [queue, List.map_cons, List.foldl_cons] at expected
      exact expected (foldl_listedAfter_mono
        PexEngine.listedAfter_of_accept recorded)

omit [DefaultHasher] in
theorem Mirrored.inTime_step {event : PairEvent}
    (mirrored : Mirrored ids cfg receiverCfg delay senderId receiverId
      delivered pair)
    (faithful : Faithful ids delay senderId receiverId pair event)
    (id : String) :
    ∀ arrival ∈ arrivedSinceDropped id
        (delivered ++ (pair.delivery event).toList),
      arrival.2 ≤ arrival.1.lastSeen + pexMaxEntryAge := by
  cases delivery : pair.delivery event with
  | none =>
      rw [Option.toList_none, List.append_nil]
      exact mirrored.inTime id
  | some last =>
      obtain ⟨message, nowMs⟩ := last
      intro arrival member
      rw [Option.toList_some, arrivedSinceDropped_concat, mem_arrivedAfter]
        at member
      rcases member.1 with old | ⟨entry, carried, -, rfl⟩
      · exact mirrored.inTime id arrival old
      · cases event with
        | sender call => cases delivery
        | receiver call => cases delivery
        | deliver arrivedMs =>
            obtain ⟨oldest, first, same⟩ := Option.map_eq_some_iff.mp delivery
            cases same
            exact faithful.2 oldest first entry carried

theorem Mirrored.step {event : PairEvent}
    (few : ids.card < pexMaxReceivedPerLink)
    (mirrored : Mirrored ids cfg receiverCfg delay senderId receiverId
      delivered pair)
    (faithful : Faithful ids delay senderId receiverId pair event) :
    Mirrored ids cfg receiverCfg delay senderId receiverId
      (delivered ++ (pair.delivery event).toList)
      (pairStep senderId receiverId pair event).1 := by
  refine ⟨(mirrored.inStep.step faithful.1).1,
    mirrored.settling.step few (faithful.settles mirrored.inStep),
    mirrored.inTime_step faithful, fun id => ?_⟩
  · cases event with
    | sender call => exact mirrored.sender faithful id
    | receiver call =>
        simp only [pairStep, received_of_spares faithful.1]
        exact mirrored.recorded id
    | deliver nowMs => exact mirrored.deliver faithful id

omit [DefaultHasher] in
/-- What has been told is recorded once it has arrived. -/
theorem Mirrored.listed
    (mirrored : Mirrored ids cfg receiverCfg delay senderId receiverId
      delivered pair) (id : String)
    (told : id ∈ (pair.sender.link receiverId).told) :
    (pair.inFlight.map Prod.fst).foldl (listedAfter id)
      (id ∈ (pair.receiver.link senderId).received) := by
  refine foldl_listedAfter_mono (fun arrived => ?_)
    (mirrored.settling.told id told)
  obtain ⟨arrival, member⟩ := List.exists_mem_of_ne_nil _ arrived
  refine (mirrored.settling.received id).mpr fun tooOld => ?_
  exact absurd (mirrored.inTime id arrival member)
    (not_le.mpr (tooOld arrival member))

end Step

theorem mirrored_start {ids : Finset String} {cfg : PexConfig} {delay : Int}
    {senderId receiverId : String} {receiver : PexEngine}
    (unheard : Unheard cfg senderId receiver) :
    Mirrored ids cfg receiver.cfg delay senderId receiverId []
      (.start cfg receiver) := by
  refine ⟨⟨rfl, unheard.network, ?_⟩, ?_, fun id arrival arrived => ?_,
    fun id recorded => ?_⟩
  · simp only [Pair.start, unheard.fresh, PexEngine.link_new]
    exact .unopened rfl
  · exact Settling.start ids senderId receiverId cfg
      (congrArg Direction.muted unheard.fresh) unheard.empty
  · cases arrived
  · simp [Pair.start, unheard.empty] at recorded

theorem mirrored_final {ids : Finset String} {cfg : PexConfig} {delay : Int}
    {senderId receiverId : String} {receiver : PexEngine}
    {events : List PairEvent} (few : ids.card < pexMaxReceivedPerLink)
    (unheard : Unheard cfg senderId receiver)
    (faithful : (pairStep senderId receiverId).Along
      (Faithful ids delay senderId receiverId) (.start cfg receiver) events) :
    Mirrored ids cfg receiver.cfg delay senderId receiverId
      ((Pair.start cfg receiver).deliveries senderId receiverId events)
      ((pairStep senderId receiverId).final (.start cfg receiver) events) := by
  induction events using List.reverseRecOn with
  | nil => exact mirrored_start unheard
  | append_singleton events event induction =>
      obtain ⟨earlier, last⟩ :=
        ((pairStep senderId receiverId).along_append _ _ _).mp faithful
      rw [Pair.deliveries_concat, Machine.final_concat]
      exact (induction earlier).step few last.1

/-- The record of the receiver and the told map of the sender differ only by
what is in flight.  In every state of an honest connection, a peer the
receiver has recorded has been told, unless a message in flight drops it; and
a peer that was told has been recorded, unless a message in flight carries
it. -/
theorem record_mirrors_told (ids : Finset String) (few : ids.card < 4096)
    (senderId receiverId : String) (delay : Int) (cfg : PexConfig)
    (receiver : PexEngine) (events : List PairEvent)
    (unheard : Unheard cfg senderId receiver)
    (faithful : (pairStep senderId receiverId).Along
      (Faithful ids delay senderId receiverId) (.start cfg receiver)
        events) :
    let reached := (pairStep senderId receiverId).final (.start cfg receiver)
      events
    let recorded := (reached.receiver.link senderId).received
    let told := (reached.sender.link receiverId).told
    let onTheWay := reached.inFlight.map Prod.fst
    ∀ id : String,
      (id ∈ recorded → id ∈ told ∨ ∃ added dropped,
        .pexDelta added dropped ∈ onTheWay ∧ id ∈ dropped) ∧
      (id ∈ told → id ∈ recorded ∨ ∃ message ∈ onTheWay,
        ∃ entry ∈ message.entries, entry.peerId = id) := by
  intro reached recorded told onTheWay id
  have mirrored := mirrored_final few unheard faithful
  constructor
  · intro listed
    by_contra neither
    simp only [not_or, not_exists, not_and] at neither
    exact neither.1 (mirrored.recorded id
      (foldl_listedAfter_of_kept listed neither.2))
  · intro listed
    exact of_foldl_listedAfter (mirrored.listed id listed)

omit [DefaultHasher] in
theorem senderCalls_append (earlier later : List PairEvent) :
    senderCalls (earlier ++ later) =
      senderCalls earlier ++ senderCalls later :=
  List.filterMap_append ..

/-- The record converges.  Once an honest connection has come to a state from
which the sender's advertisable list stands still, its link has been due as
often as the longer of its two queues needs, and everything sent has arrived,
the receiver has recorded exactly the peers the sender advertises to it. -/
theorem record_converges (ids : Finset String) (few : ids.card < 4096)
    (senderId receiverId : String) (delay : Int) (cfg : PexConfig)
    (receiver : PexEngine) (earlier later : List PairEvent)
    (unheard : Unheard cfg senderId receiver)
    (faithful : (pairStep senderId receiverId).Along
      (Faithful ids delay senderId receiverId) (.start cfg receiver)
        (earlier ++ later))
    (changes : knownChanges cfg.localPeerId
      (senderCalls (earlier ++ later)) < 2 ^ 64)
    (nowSecs : Nat) (order : IterationOrder String) :
    let settled := engineStep.final (.new cfg) (senderCalls earlier)
    let reached := (pairStep senderId receiverId).final (.start cfg receiver)
      (earlier ++ later)
    let pending := (settled.pendingEntries order receiverId nowSecs).length
    let stale := (settled.staleIds order receiverId nowSecs).length
    engineStep.Along (Steady settled receiverId nowSecs) settled
        (senderCalls later) →
      max ((pending + 49) / 50) ((stale + 49) / 50) ≤
        eligibleTicks receiverId settled (senderCalls later) →
      reached.inFlight = [] →
      ∀ id : String, id ∈ (reached.receiver.link senderId).received ↔
        ∃ entry, Advertisable settled receiverId nowSecs entry ∧
          entry.peerId = id := by
  intro settled reached pending stale steady enough idle id
  have mirrored := mirrored_final few unheard faithful
  rw [senderCalls_append] at changes
  have drained := drained_final cfg (senderCalls earlier) (senderCalls later)
    receiverId nowSecs order changes steady
  rw [← senderCalls_append] at drained
  have sender : reached.sender = engineStep.final (.new cfg)
      (senderCalls (earlier ++ later)) := sender_final senderId receiverId _ _
  have rounds := max_le_iff.mp enough
  have pendingGone : pending ≤
      50 * eligibleTicks receiverId settled (senderCalls later) := by
    omega
  have staleGone : stale ≤
      50 * eligibleTicks receiverId settled (senderCalls later) := by
    omega
  have caughtUp := drained.caught_up
    (cacheCurrent_final cfg _
      ((knownChanges_le_append _ _ _).trans_lt changes))
    pendingGone staleGone
  rw [← sender] at caughtUp
  have told : id ∈ (reached.sender.link receiverId).told ↔
      ∃ entry, Advertisable settled receiverId nowSecs entry ∧
        entry.peerId = id := by
    rw [FiniteMap.mem_iff_lookup]
    constructor
    · rintro ⟨hash, lookup⟩
      obtain ⟨entry, advertisable, same, -⟩ := (caughtUp id hash).mp lookup
      exact ⟨entry, advertisable, same⟩
    · rintro ⟨entry, advertisable, same⟩
      exact ⟨_, (caughtUp id _).mpr ⟨entry, advertisable, same, rfl⟩⟩
  rw [← told]
  have recorded := mirrored.recorded id
  have listed := mirrored.listed id
  rw [show ((pairStep senderId receiverId).final (.start cfg receiver)
    (earlier ++ later)).inFlight = [] from idle] at recorded listed
  exact ⟨recorded, listed⟩

section Examples

/-- Two peers told in the snapshot and in a delta; the first leaves and is
dropped in the next. -/
def exampleEarlier : List PairEvent := [
  .sender (.upsertKnown (exampleEntry 'c' 1000 9444)),
  .sender (.linkUp (exampleId 'b') 1000000 .ascending .zero),
  .deliver 1000200, .deliver 1000400,
  .sender (.upsertKnown (exampleEntry 'd' 1050 9444)),
  .sender (.removeKnown (exampleId 'c'))]

def exampleLater : List PairEvent := [
  .sender (.tick 1060000 exampleOrders fun _ => .zero),
  .deliver 1061000]

def exampleReceiver : PexEngine :=
  .new (exampleConfig (exampleId 'b'))

omit [DefaultHasher] in
theorem exampleReceiver_unheard :
    Unheard (exampleConfig (exampleId 'a')) (exampleId 'a')
      exampleReceiver := by
  constructor <;> decide +kernel

omit [DefaultHasher] in
/-- The delta that brings one peer and drops another, on its way. -/
theorem record_mirrors_told_on_the_way :
    let events := exampleEarlier ++ exampleLater.take 1
    let reached := (@pairStep sipHasher (exampleId 'a') (exampleId 'b')).final
      (.start (exampleConfig (exampleId 'a')) exampleReceiver) events
    exampleId 'c' ∈ (reached.sender.link (exampleId 'b')).told ∨
      ∃ added dropped, .pexDelta added dropped ∈
        reached.inFlight.map Prod.fst ∧ exampleId 'c' ∈ dropped := by
  intro events reached
  exact (@record_mirrors_told sipHasher {exampleId 'c', exampleId 'd'}
    (by decide +kernel) (exampleId 'a') (exampleId 'b') 200
    (exampleConfig (exampleId 'a')) exampleReceiver events
    exampleReceiver_unheard (by decide +kernel) (exampleId 'c')).1
      (by decide +kernel)

omit [DefaultHasher] in
/-- Once the delta has arrived the record is what is advertised. -/
theorem record_converges_once_arrived :
    let settled := (@engineStep sipHasher).final
      (.new (exampleConfig (exampleId 'a'))) (senderCalls exampleEarlier)
    let reached := (@pairStep sipHasher (exampleId 'a') (exampleId 'b')).final
      (.start (exampleConfig (exampleId 'a')) exampleReceiver)
      (exampleEarlier ++ exampleLater)
    ∀ id : String,
      id ∈ (reached.receiver.link (exampleId 'a')).received ↔
        ∃ entry, Advertisable settled (exampleId 'b') 1060 entry ∧
          entry.peerId = id := by
  exact @record_converges sipHasher {exampleId 'c', exampleId 'd'}
    (by decide +kernel) (exampleId 'a') (exampleId 'b') 200
    (exampleConfig (exampleId 'a')) exampleReceiver exampleEarlier
    exampleLater exampleReceiver_unheard (by decide +kernel)
    (by decide +kernel) 1060 .ascending
    ⟨⟨by decide +kernel, by decide +kernel, by
      intro nowMs orders jitter call _ entry
      obtain ⟨rfl, -, -⟩ := Call.tick.inj call
      exact Iff.rfl⟩, trivial⟩
    (by decide +kernel) (by decide +kernel)

end Examples

end DigPex
