import DigPex.Pair
import DigPex.Stock
import DigPex.Concrete

/-!
# Agreement at quiescence

What the sender has told has arrived, or is in flight, since it was last
dropped; and the receiver lists of what has arrived what was not too old.  So
when nothing is in flight and the delta is empty, the receiver lists what the
sender advertises, but for peers of whom only entries too old arrived.
-/

namespace DigPex

/-- Whether an id is listed after a message, given whether it was before. -/
def listedAfter (id : String) (listed : Prop) : PexMessage → Prop
  | .pexSnapshot peers => listed ∨ id ∈ peers.map PeerEntry.peerId
  | .pexDelta added dropped =>
      (listed ∨ id ∈ added.map PeerEntry.peerId) ∧ id ∉ dropped
  | _ => listed

theorem mem_foldl_transcribe_iff {Image : Type} {image : PeerEntry → Image}
    {map : Std.ExtTreeMap String Image} {messages : List PexMessage}
    {id : String} :
    id ∈ messages.foldl (transcribe image) map ↔
      messages.foldl (listedAfter id) (id ∈ map) := by
  induction messages generalizing map with
  | nil => rfl
  | cons message messages induction =>
      rw [List.foldl_cons, List.foldl_cons, induction]
      suffices same : (id ∈ transcribe image map message) =
          listedAfter id (id ∈ map) message by rw [same]
      cases message with
      | pexSnapshot peers => exact propext (FiniteMap.mem_insertAll _ _)
      | pexDelta added dropped =>
          refine propext (FiniteMap.mem_eraseAll.trans ?_)
          rw [FiniteMap.mem_insertAll]
          rfl
      | _ => rfl

theorem foldl_listedAfter_mono {id : String} {messages : List PexMessage}
    {fewer more : Prop} (mono : fewer → more)
    (listed : messages.foldl (listedAfter id) fewer) :
    messages.foldl (listedAfter id) more := by
  induction messages generalizing fewer more with
  | nil => exact mono listed
  | cons message messages induction =>
      refine induction ?_ listed
      cases message with
      | pexSnapshot peers => exact Or.imp_left mono
      | pexDelta added dropped => exact And.imp_left (Or.imp_left mono)
      | _ => exact mono

/-! ## What has arrived -/

/-- What arrived for an id after one more delivery: the entries the message
carries for it are added, and all is forgotten when the message drops it. -/
def arrivedAfter (id : String) (arrived : List (PeerEntry × Nat))
    (delivery : PexMessage × Nat) : List (PeerEntry × Nat) :=
  if id ∈ delivery.1.dropped then []
  else arrived ++ (delivery.1.entries.filter fun entry =>
    entry.peerId = id).map fun entry => (entry, delivery.2 / 1000)

/-- The entries that arrived for an id since it was last dropped, each with the
receiver's clock in seconds. -/
def arrivedSinceDropped (id : String) (deliveries : List (PexMessage × Nat)) :
    List (PeerEntry × Nat) :=
  deliveries.foldl (arrivedAfter id) []

/-- Every entry that arrived for an id since it was last dropped was too old at
the receiver's clock. -/
def OnlyTooOld (id : String) (deliveries : List (PexMessage × Nat)) : Prop :=
  ∀ arrival ∈ arrivedSinceDropped id deliveries,
    arrival.1.lastSeen + pexMaxEntryAge < arrival.2

instance (id : String) (deliveries : List (PexMessage × Nat)) :
    Decidable (OnlyTooOld id deliveries) :=
  inferInstanceAs (Decidable (∀ arrival ∈ arrivedSinceDropped _ _, _))

theorem mem_arrivedAfter {id : String} {arrived : List (PeerEntry × Nat)}
    {message : PexMessage} {nowMs : Nat} {arrival : PeerEntry × Nat} :
    arrival ∈ arrivedAfter id arrived (message, nowMs) ↔
      (arrival ∈ arrived ∨ ∃ entry ∈ message.entries, entry.peerId = id ∧
        (entry, nowMs / 1000) = arrival) ∧ id ∉ message.dropped := by
  unfold arrivedAfter
  split
  · rename_i gone
    simp [gone]
  · rename_i kept
    simp [kept, and_assoc]

theorem arrivedSinceDropped_concat (id : String)
    (deliveries : List (PexMessage × Nat)) (delivery : PexMessage × Nat) :
    arrivedSinceDropped id (deliveries ++ [delivery]) =
      arrivedAfter id (arrivedSinceDropped id deliveries) delivery :=
  List.foldl_concat ..

theorem arrivedAfter_ne_nil_iff {id : String}
    {arrived : List (PeerEntry × Nat)} {message : PexMessage} {nowMs : Nat} :
    arrivedAfter id arrived (message, nowMs) ≠ [] ↔
      listedAfter id (arrived ≠ []) message := by
  simp only [ne_eq, List.eq_nil_iff_forall_not_mem, not_forall, not_not,
    mem_arrivedAfter]
  cases message <;>
    simp [listedAfter, PexMessage.entries, PexMessage.dropped, or_and_right,
      exists_or]

namespace PexEngine

variable {engine : PexEngine} {peerId : String} {ids : Finset String}

/-- Everything a link told us is about an id of a set. -/
def ToldWithin (engine : PexEngine) (peerId : String) (ids : Finset String) :
    Prop :=
  ∀ id : String, id ∈ (engine.link peerId).received → id ∈ ids

theorem received_ingestEntry {nowSecs : Nat} {entry : PeerEntry}
    (few : ids.card < pexMaxReceivedPerLink)
    (within : engine.ToldWithin peerId ids) (counted : entry.peerId ∈ ids) :
    let after := (ingestEntry peerId nowSecs engine entry).1
    after.ToldWithin peerId ids ∧
      ∀ id : String, id ∈ (after.link peerId).received ↔
        id ∈ (engine.link peerId).received ∨
          entry.peerId = id ∧ engine.Keeps peerId nowSecs entry := by
  have room : (engine.link peerId).received.size < pexMaxReceivedPerLink :=
    (FiniteMap.size_le_card within).trans_lt few
  by_cases kept : engine.Keeps peerId nowSecs entry
  · have attributed : ((engine.attributeTo peerId (entry.clamped
        nowSecs)).link peerId).received =
          (engine.link peerId).received.insert entry.peerId
            (entry.clamped nowSecs).lastSeen := by
      simp only [attributeTo, link_setLink_self, PeerEntry.clamped_peerId]
      exact FiniteMap.insertCapped_of_lt _ room _ _
    have received : ((ingestEntry peerId nowSecs engine entry).1.link
        peerId).received = (engine.link peerId).received.insert entry.peerId
          (entry.clamped nowSecs).lastSeen := by
      rw [ingestEntry_of_keeps kept]
      split
      · exact attributed
      · exact attributed
    dsimp only [ToldWithin]
    rw [received]
    have listed (id : String) : id ∈ (engine.link peerId).received.insert
        entry.peerId (entry.clamped nowSecs).lastSeen ↔
          id ∈ (engine.link peerId).received ∨ entry.peerId = id := by
      rw [Std.ExtTreeMap.mem_insert, compare_eq_iff_eq, or_comm]
    refine ⟨fun id member => ?_, fun id => ?_⟩
    · rcases (listed id).mp member with old | rfl
      · exact within id old
      · exact counted
    · rw [listed, and_iff_left kept]
  · rw [ingestEntry_of_not_keeps kept]
    exact ⟨within, fun id => (or_iff_left fun carried => kept carried.2).symm⟩

theorem received_ingestAdded {nowMs : Nat} {entries : List PeerEntry}
    (few : ids.card < pexMaxReceivedPerLink)
    (within : engine.ToldWithin peerId ids)
    (counted : ∀ entry ∈ entries, entry.peerId ∈ ids) :
    let after := (engine.ingestAdded peerId entries nowMs).1
    after.ToldWithin peerId ids ∧
      ∀ id : String, id ∈ (after.link peerId).received ↔
        id ∈ (engine.link peerId).received ∨
          ∃ entry ∈ entries, entry.peerId = id ∧
            engine.Keeps peerId (nowMs / 1000) entry := by
  simp only [ingestAdded]
  induction entries generalizing engine with
  | nil => exact ⟨within, fun id => by simp⟩
  | cons entry entries induction =>
      obtain ⟨stillWithin, lists⟩ := received_ingestEntry few within
        (counted entry (by simp))
      obtain ⟨within, listsLater⟩ := @induction
        (ingestEntry peerId (nowMs / 1000) engine entry).1 stillWithin
        fun later member => counted later (List.mem_cons_of_mem _ member)
      refine ⟨within, fun id => ?_⟩
      have frame := ingestEntry_frame engine peerId (nowMs / 1000) entry
      rw [Machine.final_cons, listsLater, lists, List.exists_mem_cons_iff,
        or_assoc]
      simp only [frame.keeps_iff]

theorem received_ingestDropped {dropped : List String} :
    ((engine.ingestDropped peerId dropped).1.link peerId).received =
      FiniteMap.eraseAll (engine.link peerId).received dropped := by
  simp only [ingestDropped]
  induction dropped generalizing engine with
  | nil => rfl
  | cons id dropped induction =>
      have first : ((ingestDroppedId peerId engine id).1.link
          peerId).received = (engine.link peerId).received.erase id := by
        unfold ingestDroppedId unlistSource
        dsimp only
        split
        · split <;>
            exact congrArg LinkState.received
              (link_setLink_self engine peerId _)
        · exact congrArg LinkState.received
            (link_setLink_self engine peerId _)
      rw [Machine.final_cons, induction, first]
      rfl

/-- After an accepted message a link lists what it listed and what the message
carries and is kept, but for what the message drops. -/
theorem received_accept {message : PexMessage} {nowMs : Nat}
    (few : ids.card < pexMaxReceivedPerLink)
    (within : engine.ToldWithin peerId ids)
    (counted : ∀ entry ∈ message.entries, entry.peerId ∈ ids) :
    let after := (engine.accept peerId message nowMs).1
    after.ToldWithin peerId ids ∧
      ∀ id : String, id ∈ (after.link peerId).received ↔
        (id ∈ (engine.link peerId).received ∨
          ∃ entry ∈ message.entries, entry.peerId = id ∧
            engine.Keeps peerId (nowMs / 1000) entry) ∧
          id ∉ message.dropped := by
  have advanced : ((engine.setLink peerId ((engine.link peerId).advance
      message nowMs)).link peerId).received =
        (engine.link peerId).received := by
    rw [link_setLink_self]
    exact ((engine.link peerId).advance_kept message nowMs).1
  have stillWithin : (engine.setLink peerId ((engine.link peerId).advance
      message nowMs)).ToldWithin peerId ids := by
    intro other listed
    rw [advanced] at listed
    exact within other listed
  cases message with
  | pexError code text =>
      refine ⟨stillWithin, fun id => ?_⟩
      simp only [accept, PexMessage.entries, PexMessage.dropped]
      rw [advanced]
      simp
  | pexHandshake version networkId declared flags =>
      refine ⟨stillWithin, fun id => ?_⟩
      simp only [accept, PexMessage.entries, PexMessage.dropped]
      rw [advanced]
      simp
  | pexSnapshot peers =>
      obtain ⟨within, lists⟩ :=
        @received_ingestAdded _ _ _ nowMs _ few stillWithin counted
      refine ⟨within, fun id => (lists id).trans ?_⟩
      rw [advanced]
      simp only [PexMessage.entries, PexMessage.dropped, List.not_mem_nil,
        not_false_eq_true, and_true]
      exact Iff.rfl
  | pexDelta added dropped =>
      obtain ⟨within, lists⟩ :=
        @received_ingestAdded _ _ _ nowMs _ few stillWithin counted
      simp only [accept, ToldWithin, received_ingestDropped,
        FiniteMap.mem_eraseAll]
      refine ⟨fun other listed => within other listed.1, fun id => ?_⟩
      refine and_congr_left fun _ => (lists id).trans ?_
      rw [advanced]
      exact Iff.rfl

end PexEngine

/-! ## What is told has arrived or is in flight -/

/-- An entry about an id of a set that the receiver can only skip for its age,
unless it is about the receiver. -/
structure Acceptable (ids : Finset String) (receiverCfg : PexConfig)
    (senderId receiverId : String) (entry : PeerEntry) : Prop where
  counted : entry.peerId ∈ ids
  wellFormed : entry.peerId ≠ receiverId →
    entry.WellFormed receiverCfg.localPeerId senderId receiverCfg.networkId

/-- The events of a connection whose receiver raises no violation: every
upserted entry is valid at some clock value, and the receiver hears the sender
only through what is delivered. -/
def SettlingEvent (ids : Finset String) (senderId receiverId : String)
    (pair : Pair) : PairEvent → Prop
  | .sender (.upsertKnown entry) =>
      entry.peerId ∈ ids ∧ (entry.peerId ≠ receiverId →
        ∃ nowSecs, pair.receiver.Keeps senderId nowSecs entry)
  | .sender _ => True
  | .receiver call => call.Spares senderId
  | .deliver nowMs => ∀ oldest ∈ pair.inFlight.head?,
      ∀ code mute, .violation code mute ∉
        (pair.receiver.onMessage senderId oldest.1 nowMs).2.events

/-- An entry is valid at some clock value when it is at its own. -/
instance (engine : PexEngine) (peerId : String) (entry : PeerEntry) :
    Decidable (∃ nowSecs, engine.Keeps peerId nowSecs entry) :=
  decidable_of_iff (engine.Keeps peerId entry.lastSeen entry) <| by
    refine ⟨fun kept => ⟨_, kept⟩, fun ⟨nowSecs, kept⟩ => ?_⟩
    exact (entry.validate_eq_ok_iff _).mpr
      ⟨((entry.validate_eq_ok_iff _).mp kept).1, Nat.le_add_right _ _⟩

instance (ids : Finset String) (senderId receiverId : String)
    (pair : Pair) :
    ∀ event, Decidable (SettlingEvent ids senderId receiverId pair event)
  | .sender (.upsertKnown _) => inferInstanceAs (Decidable (_ ∧ (_ → _)))
  | .sender (.removeKnown _) => isTrue trivial
  | .sender (.linkUp _ _ _ _) => isTrue trivial
  | .sender (.linkDown _) => isTrue trivial
  | .sender (.onMessage _ _ _) => isTrue trivial
  | .sender (.recordViolation _ _ _) => isTrue trivial
  | .sender (.tick _ _ _) => isTrue trivial
  | .receiver call => inferInstanceAs (Decidable (call.Spares senderId))
  | .deliver _ =>
      inferInstanceAs (Decidable (∀ oldest ∈ pair.inFlight.head?, _))

/-- What an event delivers, with the receiver's clock value. -/
def Pair.delivery (pair : Pair) : PairEvent → Option (PexMessage × Nat)
  | .deliver nowMs => pair.inFlight.head?.map fun oldest => (oldest.1, nowMs)
  | _ => none

variable [DefaultHasher]

/-- What a run delivers, in order. -/
def Pair.deliveries (senderId receiverId : String) (pair : Pair)
    (events : List PairEvent) : List (PexMessage × Nat) :=
  (((pairStep senderId receiverId).observed Pair.delivery).outputs pair
    events).reduceOption

theorem Pair.deliveries_concat (senderId receiverId : String) (pair : Pair)
    (events : List PairEvent) (event : PairEvent) :
    pair.deliveries senderId receiverId (events ++ [event]) =
      pair.deliveries senderId receiverId events ++
        (((pairStep senderId receiverId).final pair events).delivery
          event).toList := by
  rw [deliveries, Machine.outputs_observed_concat, List.reduceOption_append,
    List.reduceOption_singleton]
  rfl

/-- What told and received mean for every id once the messages of a list have
been delivered, while others are in flight. -/
structure Settling (ids : Finset String) (receiverCfg : PexConfig)
    (senderId receiverId : String) (delivered : List (PexMessage × Nat))
    (pair : Pair) : Prop where
  receiver : pair.receiver.cfg = receiverCfg
  unmuted : (pair.receiver.link senderId).muted = false
  stocked : Stocked (Acceptable ids receiverCfg senderId receiverId)
    pair.sender
  inFlight : ∀ message sent, (message, sent) ∈ pair.inFlight →
    ∀ entry ∈ message.entries, entry.peerId ∈ ids ∧
      entry.WellFormed receiverCfg.localPeerId senderId receiverCfg.networkId
  within : pair.receiver.ToldWithin senderId ids
  told : ∀ id : String, id ∈ (pair.sender.link receiverId).told →
    (pair.inFlight.map Prod.fst).foldl (listedAfter id)
      (arrivedSinceDropped id delivered ≠ [])
  received : ∀ id : String, id ∈ (pair.receiver.link senderId).received ↔
    ¬OnlyTooOld id delivered

namespace Settling

variable {ids : Finset String} {receiverCfg : PexConfig}
  {senderId receiverId : String} {delivered : List (PexMessage × Nat)}
  {pair : Pair}

theorem sender {call : Call}
    (settling : Settling ids receiverCfg senderId receiverId delivered pair)
    (allowed : SettlingEvent ids senderId receiverId pair (.sender call)) :
    Settling ids receiverCfg senderId receiverId delivered
      (pairStep senderId receiverId pair (.sender call)).1 := by
  refine ⟨settling.receiver, settling.unmuted, ?_, ?_, settling.within, ?_,
    settling.received⟩
  · refine settling.stocked.step ?_
    rintro entry rfl
    refine ⟨allowed.1, fun other => ?_⟩
    obtain ⟨nowSecs, kept⟩ := allowed.2 other
    have wellFormed := ((entry.validate_eq_ok_iff _).mp kept).1
    simpa only [PexEngine.validateCtx, settling.receiver] using wellFormed
  · intro message sent member entry carried
    simp only [pairStep] at member
    rcases List.mem_append.mp member with old | new
    · exact settling.inFlight message sent old entry carried
    · obtain ⟨returned, emission, same⟩ := List.mem_map.mp new
      cases same
      obtain ⟨order, listed⟩ :=
        mem_advertisableFor_of_messagesFor emission carried
      have acceptable := settling.stocked.advertisableFor listed
      exact ⟨acceptable.counted, acceptable.wellFormed
        (PexEngine.mem_advertisableFor.mp listed).2⟩
  · intro id told
    simp only [pairStep] at told ⊢
    rw [told_engineStep] at told
    split at told
    · simp at told
    · rw [List.map_append, List.foldl_append, List.map_map]
      simp only [Function.comp_def, List.map_id']
      exact foldl_listedAfter_mono (settling.told id)
        (mem_foldl_transcribe_iff.mp told)

omit [DefaultHasher] in
/-- What an accepted message carries is listed exactly when it is in time. -/
theorem received_of_delivered {message : PexMessage} {nowMs : Nat}
    (carried : ∀ entry ∈ message.entries,
      entry.WellFormed receiverCfg.localPeerId senderId
        receiverCfg.networkId)
    (settling : Settling ids receiverCfg senderId receiverId delivered pair)
    (id : String) :
    (id ∈ (pair.receiver.link senderId).received ∨
        ∃ entry ∈ message.entries, entry.peerId = id ∧
          pair.receiver.Keeps senderId (nowMs / 1000) entry) ∧
        id ∉ message.dropped ↔
      ¬OnlyTooOld id (delivered ++ [(message, nowMs)]) := by
  have kept (entry : PeerEntry) (member : entry ∈ message.entries) :
      pair.receiver.Keeps senderId (nowMs / 1000) entry ↔
        nowMs / 1000 ≤ entry.lastSeen + pexMaxEntryAge := by
    have wellFormed := carried entry member
    rw [← settling.receiver] at wellFormed
    exact (entry.validate_eq_ok_iff _).trans (and_iff_right wellFormed)
  rw [settling.received id]
  simp only [OnlyTooOld, arrivedSinceDropped_concat, mem_arrivedAfter,
    not_forall, not_lt, exists_prop]
  constructor
  · rintro ⟨⟨arrival, old, inTime⟩ | ⟨entry, member, same, valid⟩, undropped⟩
    · exact ⟨arrival, ⟨.inl old, undropped⟩, inTime⟩
    · exact ⟨(entry, nowMs / 1000),
        ⟨.inr ⟨entry, member, same, rfl⟩, undropped⟩,
        (kept entry member).mp valid⟩
  · rintro ⟨arrival, ⟨old | ⟨entry, member, same, rfl⟩, undropped⟩, inTime⟩
    · exact ⟨.inl ⟨arrival, old, inTime⟩, undropped⟩
    · exact ⟨.inr ⟨entry, member, same, (kept entry member).mpr inTime⟩,
        undropped⟩

theorem deliver {nowMs : Nat} (few : ids.card < pexMaxReceivedPerLink)
    (settling : Settling ids receiverCfg senderId receiverId delivered pair)
    (allowed : SettlingEvent ids senderId receiverId pair
      (.deliver nowMs)) :
    Settling ids receiverCfg senderId receiverId
      (delivered ++ (pair.delivery (.deliver nowMs)).toList)
      (pairStep senderId receiverId pair (.deliver nowMs)).1 := by
  cases queue : pair.inFlight with
  | nil =>
      simp only [pairStep, queue, Pair.delivery, List.head?_nil,
        Option.map_none, Option.toList_none, List.append_nil]
      exact settling
  | cons oldest rest =>
      obtain ⟨message, sent⟩ := oldest
      have faultless := allowed (message, sent) (by rw [queue]; rfl)
      have carried := settling.inFlight message sent (by simp [queue])
      have accepted :=
        PexEngine.judge_accepted_of_outcome settling.unmuted faultless
      have answered := pair.receiver.onMessage_eq senderId message nowMs
      rw [accepted] at answered
      obtain ⟨within, lists⟩ := @PexEngine.received_accept _ _ _ message nowMs
        few settling.within fun entry member => (carried entry member).1
      have answers := pair.receiver.answers_judge senderId message nowMs
      rw [accepted] at answers
      have told := settling.told
      simp only [pairStep, queue, List.map_cons, List.foldl_cons,
        Pair.delivery, List.head?_cons, Option.map_some,
        Option.toList_some] at told ⊢
      refine ⟨?_, ?_, settling.stocked, ?_, ?_, ?_, ?_⟩
      · exact (cfg_engineStep pair.receiver
          (.onMessage senderId message nowMs)).trans settling.receiver
      · exact answers.2.2.2.2
      · intro later time member
        apply settling.inFlight later time
        simp [queue, member]
      · rw [answered]
        exact within
      · intro id listed
        rw [arrivedSinceDropped_concat]
        exact foldl_listedAfter_mono arrivedAfter_ne_nil_iff.mpr
          (told id listed)
      · intro id
        rw [answered]
        exact (lists id).trans (settling.received_of_delivered
          (fun entry member => (carried entry member).2) id)

theorem step {event : PairEvent} (few : ids.card < pexMaxReceivedPerLink)
    (settling : Settling ids receiverCfg senderId receiverId delivered pair)
    (allowed : SettlingEvent ids senderId receiverId pair event) :
    Settling ids receiverCfg senderId receiverId
      (delivered ++ (pair.delivery event).toList)
      (pairStep senderId receiverId pair event).1 := by
  cases event with
  | sender call =>
      rw [show pair.delivery (.sender call) = none from rfl,
        Option.toList_none, List.append_nil]
      exact settling.sender allowed
  | receiver call =>
      have received := @received_of_spares _ pair.receiver _ _ allowed
      have direction := @direction_of_spares _ pair.receiver _ _ allowed
      rw [show pair.delivery (.receiver call) = none from rfl,
        Option.toList_none, List.append_nil]
      refine ⟨?_, ?_, settling.stocked, settling.inFlight, ?_, settling.told,
        ?_⟩
      · exact (cfg_engineStep pair.receiver call).trans settling.receiver
      · exact (congrArg Direction.muted direction).trans settling.unmuted
      · intro other listed
        simp only [pairStep, received] at listed
        exact settling.within other listed
      · intro id
        simp only [pairStep, received]
        exact settling.received id
  | deliver nowMs => exact settling.deliver few allowed

theorem start (ids : Finset String) (senderId receiverId : String)
    (cfg : PexConfig) {receiver : PexEngine}
    (unmuted : (receiver.link senderId).muted = false)
    (fresh : (receiver.link senderId).received = ∅) :
    Settling ids receiver.cfg senderId receiverId []
      (.start cfg receiver) := by
  refine ⟨rfl, unmuted, stocked_final cfg [] ?_, ?_, ?_, ?_, ?_⟩
  · intro upserted member
    cases member
  · intro message sent member
    cases member
  · intro other told
    simp [Pair.start, fresh] at told
  · intro id told
    simp [Pair.start, PexEngine.link_new, LinkState.new] at told
  · intro id
    simp [Pair.start, fresh, OnlyTooOld, arrivedSinceDropped]

theorem run {events : List PairEvent}
    (few : ids.card < pexMaxReceivedPerLink)
    (settling : Settling ids receiverCfg senderId receiverId [] pair)
    (settles : (pairStep senderId receiverId).Along
      (SettlingEvent ids senderId receiverId) pair events) :
    Settling ids receiverCfg senderId receiverId
      (pair.deliveries senderId receiverId events)
      ((pairStep senderId receiverId).final pair events) := by
  induction events using List.reverseRecOn with
  | nil => exact settling
  | append_singleton events event induction =>
      obtain ⟨earlier, last⟩ :=
        ((pairStep senderId receiverId).along_append _ _ _).mp settles
      rw [Pair.deliveries_concat, Machine.final_concat]
      exact (induction earlier).step few last.1

end Settling

theorem told_of_buildDelta_empty {engine : PexEngine} {peerId : String}
    {knownOrder toldOrder : IterationOrder String} {nowSecs : Nat}
    (empty : (engine.buildDelta knownOrder toldOrder peerId nowSecs).1 =
      ([], []))
    {entry : PeerEntry}
    (member : entry ∈ (engine.advertisableFor knownOrder peerId nowSecs).1) :
    entry.peerId ∈ (engine.link peerId).told := by
  have none : ((engine.advertisableFor knownOrder peerId nowSecs).1.filter
      (engine.link peerId).isPending).take pexMaxAdded = [] :=
    congrArg Prod.fst empty
  have settled : (engine.link peerId).isPending entry = false := by
    rcases List.take_eq_nil_iff.mp none with zero | nothing
    · cases zero
    · simpa using List.filter_eq_nil_iff.mp nothing entry member
  have lookup : (engine.link peerId).told[entry.peerId]? =
      some entry.fingerprintHash := by
    simpa [LinkState.isPending] using settled
  exact FiniteMap.mem_iff_lookup.mpr ⟨_, lookup⟩

/-- Agreement at quiescence.  When nothing is in flight and the delta is empty,
an entry has arrived for every peer the sender advertises since it was last
dropped, and the receiver lists the peer unless all those that arrived were
too old.  What is advertised is the fresh part of the known set while it has
changed fewer than `2 ^ 64` times. -/
theorem agreement_at_quiescence (ids : Finset String)
    (few : ids.card < 4096) (senderId receiverId : String)
    (cfg : PexConfig) (receiver : PexEngine) (events : List PairEvent)
    (unmuted : (receiver.link senderId).muted = false)
    (fresh : (receiver.link senderId).received = ∅)
    (settles : (pairStep senderId receiverId).Along
      (SettlingEvent ids senderId receiverId) (.start cfg receiver)
        events) :
    let reached := (pairStep senderId receiverId).final (.start cfg receiver)
      events
    let delivered := (Pair.start cfg receiver).deliveries senderId receiverId
      events
    ∀ (knownOrder toldOrder : IterationOrder String) (nowSecs : Nat),
      reached.inFlight = [] →
      (reached.sender.buildDelta knownOrder toldOrder receiverId
        nowSecs).1 = ([], []) →
      ∀ entry : PeerEntry,
        (entry ∈ (reached.sender.advertisableFor knownOrder receiverId
            nowSecs).1 ∨
          knownChanges cfg.localPeerId (senderCalls events) < 2 ^ 64 ∧
            Advertisable reached.sender receiverId nowSecs entry) →
        arrivedSinceDropped entry.peerId delivered ≠ [] ∧
          (entry.peerId ∈ (reached.receiver.link senderId).received ↔
            ¬OnlyTooOld entry.peerId delivered) := by
  intro reached delivered knownOrder toldOrder nowSecs idle empty entry listed
  have settling : Settling ids receiver.cfg senderId receiverId delivered
      reached :=
    (Settling.start ids senderId receiverId cfg unmuted fresh).run few settles
  have advertised : entry ∈ (reached.sender.advertisableFor knownOrder
      receiverId nowSecs).1 := by
    rcases listed with member | ⟨changes, advertisable⟩
    · exact member
    · have current := cacheCurrent_final cfg (senderCalls events) changes
      have sender : reached.sender = engineStep.final (PexEngine.new cfg)
          (senderCalls events) := sender_final senderId receiverId _ events
      rw [← sender] at current
      exact (mem_advertisableFor_iff current).mpr advertisable
  refine ⟨?_, settling.received entry.peerId⟩
  have arrived := settling.told entry.peerId
    (told_of_buildDelta_empty empty advertised)
  rw [idle] at arrived
  exact arrived

section Examples

/-- Two engines without state, and nothing in flight. -/
def examplePair : Pair :=
  { sender := PexEngine.new (exampleConfig (exampleId 'a'))
    receiver := PexEngine.new (exampleConfig (exampleId 'b'))
    inFlight := [] }

omit [DefaultHasher] in
/-- A peer whose first entry grew too old in flight is listed once a changed
entry for it has arrived in time. -/
theorem retold_entry_listed :
    let first := exampleEntry 'c' 1000 9444
    let changed := exampleEntry 'c' 2801 9445
    let events : List PairEvent := [
      .sender (.upsertKnown first),
      .sender (.linkUp (exampleId 'b') 2799000 .ascending .zero),
      .deliver 2801000, .deliver 2801000,
      .sender (.upsertKnown changed),
      .sender (.tick 2860000 exampleOrders fun _ => .zero),
      .deliver 2861000]
    let reached := (@pairStep sipHasher (exampleId 'a') (exampleId 'b')).final
      examplePair events
    changed.peerId ∈ (reached.receiver.link (exampleId 'a')).received := by
  intro first changed events reached
  obtain ⟨_, listed⟩ := @agreement_at_quiescence sipHasher {exampleId 'c'}
    (by decide) (exampleId 'a') (exampleId 'b')
    (exampleConfig (exampleId 'a'))
    (PexEngine.new (exampleConfig (exampleId 'b'))) events
    (by decide +kernel) (by decide +kernel) (by decide +kernel)
    .ascending .ascending 2861 (by decide +kernel) (by decide +kernel) changed
    (.inl (by decide +kernel))
  exact listed.mpr (by decide +kernel)

omit [DefaultHasher] in
/-- An entry that ages past the limit in flight is skipped without a word, and
its heartbeat is not advertised again. -/
theorem aged_in_flight_never_listed :
    let first := exampleEntry 'c' 1000 9444
    let heartbeat := exampleEntry 'c' 2801 9444
    let events : List PairEvent := [
      .sender (.upsertKnown first),
      .sender (.linkUp (exampleId 'b') 2799000 .ascending .zero),
      .deliver 2801000, .deliver 2801000,
      .sender (.upsertKnown heartbeat)]
    let step := @pairStep sipHasher (exampleId 'a') (exampleId 'b')
    let reached := step.final examplePair events
    (examplePair.receiver.Keeps (exampleId 'a') 2799 first ∧
        examplePair.receiver.Keeps (exampleId 'a') 2801 heartbeat) ∧
      (∀ answer ∈ step.outputs examplePair events, Unobjected answer) ∧
      reached.inFlight = [] ∧
      (@PexEngine.buildDelta sipHasher reached.sender .ascending .ascending
        (exampleId 'b') 2801).1 = ([], []) ∧
      heartbeat ∈ (reached.sender.advertisableFor .ascending (exampleId 'b')
        2801).1 ∧
      heartbeat.peerId ∉
        (reached.receiver.link (exampleId 'a')).received := by
  decide +kernel

end Examples

end DigPex
