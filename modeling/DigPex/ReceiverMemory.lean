import DigPex.Steps

/-!
# What the receiver remembers

Two maps grow with inbound entries: what each link told us and the engine-wide
hints.  The invariant bounds both, names the owner of every hint, and bounds
every stored timestamp by the latest clock value a message came with.
-/

namespace DigPex

/-- What holds of an id and a timestamp stored for a link. -/
structure ReportSound (latestSecs : Nat) (localPeerId peerId id : String)
    (lastSeen : Nat) : Prop where
  hexId : isHex64 id = true
  notLocal : id ≠ localPeerId
  notSource : id ≠ peerId
  past : lastSeen ≤ latestSecs

/-- The conditions on one link's record. -/
structure LinkMemory (latestSecs : Nat) (localPeerId peerId : String)
    (link : LinkState) : Prop where
  bounded : link.received.size ≤ pexMaxReceivedPerLink
  mutedEmpty : link.muted = true → link.received = ∅
  limitMutes : pexViolationLimit ≤ link.strikes → link.muted = true
  sound : ∀ (id : String) (lastSeen : Nat),
    link.received[id]? = some lastSeen →
      ReportSound latestSecs localPeerId peerId id lastSeen

/-- The conditions on one hint. -/
structure HintOwned (latestSecs : Nat) (engine : PexEngine) (id : String)
    (hint : ReceivedHint) : Prop where
  sourceLive : hint.source ∈ engine.links
  sourceUnmuted : (engine.link hint.source).muted = false
  sound : ReportSound latestSecs engine.cfg.localPeerId hint.source id
    hint.lastSeen

/-- Receiver-side memory is bounded and owned. -/
structure ReceiverMemory (latestSecs : Nat) (engine : PexEngine) :
    Prop where
  link : ∀ peerId : String,
    LinkMemory latestSecs engine.cfg.localPeerId peerId (engine.link peerId)
  bounded : engine.hints.size ≤ pexMaxHints
  hint : ∀ (id : String) (hint : ReceivedHint),
    engine.hints[id]? = some hint → HintOwned latestSecs engine id hint

variable {latestSecs : Nat}

theorem ReportSound.mono {localPeerId peerId id : String}
    {lastSeen laterSecs : Nat} (later : latestSecs ≤ laterSecs)
    (sound : ReportSound latestSecs localPeerId peerId id lastSeen) :
    ReportSound laterSecs localPeerId peerId id lastSeen :=
  { sound with past := sound.past.trans later }

theorem ReportSound.of_keeps {engine : PexEngine} {peerId : String}
    {nowSecs : Nat} {entry : PeerEntry} (past : nowSecs ≤ latestSecs)
    (kept : engine.Keeps peerId nowSecs entry) :
    ReportSound latestSecs engine.cfg.localPeerId peerId
      (entry.clamped nowSecs).peerId (entry.clamped nowSecs).lastSeen := by
  obtain ⟨wellFormed, _⟩ := (entry.validate_eq_ok_iff _).mp kept
  rw [PeerEntry.clamped_peerId, PeerEntry.clamped_lastSeen]
  exact ⟨wellFormed.hexId, wellFormed.notReceiver, wellFormed.notSender,
    (min_le_right _ _).trans past⟩

namespace LinkMemory

variable {localPeerId peerId : String} {link : LinkState}

theorem new (interval : Nat) :
    LinkMemory latestSecs localPeerId peerId (LinkState.new interval) := by
  constructor <;> simp [LinkState.new, pexViolationLimit]

theorem mono {laterSecs : Nat} (later : latestSecs ≤ laterSecs)
    (memory : LinkMemory latestSecs localPeerId peerId link) :
    LinkMemory laterSecs localPeerId peerId link :=
  { memory with
    sound := fun id lastSeen lookup =>
      (memory.sound id lastSeen lookup).mono later }

/-- The conditions are about the direction's counters and what it
received. -/
theorem congr {other : LinkState}
    (direction : other.direction = link.direction)
    (received : other.received = link.received)
    (memory : LinkMemory latestSecs localPeerId peerId link) :
    LinkMemory latestSecs localPeerId peerId other := by
  have strikes : other.strikes = link.strikes :=
    congrArg Direction.strikes direction
  have muted : other.muted = link.muted := congrArg Direction.muted direction
  refine ⟨?_, ?_, ?_, ?_⟩
  · rw [received]
    exact memory.bounded
  · rw [received, muted]
    exact memory.mutedEmpty
  · rw [strikes, muted]
    exact memory.limitMutes
  · rw [received]
    exact memory.sound

theorem store (unmuted : link.muted = false)
    (memory : LinkMemory latestSecs localPeerId peerId link)
    {id : String} {lastSeen : Nat}
    (sound : ReportSound latestSecs localPeerId peerId id lastSeen) :
    LinkMemory latestSecs localPeerId peerId
      { link with
        received := FiniteMap.insertCapped (fun lastSeen : Nat => lastSeen)
          pexMaxReceivedPerLink link.received id lastSeen } := by
  refine ⟨?_, ?_, memory.limitMutes, ?_⟩
  · exact FiniteMap.size_insertCapped_le _ (by decide) memory.bounded _ _
  · intro muted
    rw [unmuted] at muted
    cases muted
  · intro other found lookup
    rcases FiniteMap.getElem?_of_insertCapped _ lookup with
      ⟨rfl, rfl⟩ | ⟨_, old⟩
    · exact sound
    · exact memory.sound other found old

theorem erase (memory : LinkMemory latestSecs localPeerId peerId link)
    (id : String) :
    LinkMemory latestSecs localPeerId peerId
      { link with received := link.received.erase id } := by
  have bounded := memory.bounded
  have sound := memory.sound
  refine ⟨?_, ?_, memory.limitMutes, ?_⟩
  · exact Std.ExtTreeMap.size_erase_le.trans bounded
  · intro muted
    have empty := memory.mutedEmpty muted
    simp [empty]
  · intro other found lookup
    apply sound other found
    grind

end LinkMemory

namespace ReceiverMemory

variable {engine before after : PexEngine} {peerId : String}

theorem mono {laterSecs : Nat} (later : latestSecs ≤ laterSecs)
    (memory : ReceiverMemory latestSecs engine) :
    ReceiverMemory laterSecs engine := by
  refine ⟨fun id => (memory.link id).mono later, memory.bounded, ?_⟩
  intro id hint lookup
  have owned := memory.hint id hint lookup
  exact { owned with sound := owned.sound.mono later }

/-- A call that leaves receiving directions and hints alone, and drops no
link, keeps the memory. -/
theorem congr (cfg : after.cfg = before.cfg)
    (hints : after.hints = before.hints)
    (direction : ∀ id : String,
      (after.link id).direction = (before.link id).direction)
    (received : ∀ id : String,
      (after.link id).received = (before.link id).received)
    (present : ∀ id : String, id ∈ before.links → id ∈ after.links)
    (memory : ReceiverMemory latestSecs before) :
    ReceiverMemory latestSecs after := by
  refine ⟨?_, ?_, ?_⟩
  · intro id
    rw [cfg]
    exact (memory.link id).congr (direction id) (received id)
  · rw [hints]
    exact memory.bounded
  · intro id hint lookup
    rw [hints] at lookup
    obtain ⟨live, unmuted, sound⟩ := memory.hint id hint lookup
    refine ⟨present _ live, ?_, cfg ▸ sound⟩
    exact (congrArg Direction.muted (direction _)).trans unmuted

theorem setLink {link : LinkState}
    (memory : ReceiverMemory latestSecs engine)
    (written : LinkMemory latestSecs engine.cfg.localPeerId peerId link)
    (unmuted : (engine.link peerId).muted = false → link.muted = false) :
    ReceiverMemory latestSecs (engine.setLink peerId link) := by
  refine ⟨?_, memory.bounded, ?_⟩
  · intro id
    rw [PexEngine.link_setLink]
    split
    · rename_i same
      subst same
      exact written
    · exact memory.link id
  · intro id hint lookup
    obtain ⟨live, sourceUnmuted, sound⟩ := memory.hint id hint lookup
    refine ⟨by simp [live], ?_, sound⟩
    rw [PexEngine.link_setLink]
    split
    · rename_i same
      subst same
      exact unmuted sourceUnmuted
    · exact sourceUnmuted

/-- A link whose direction may still be ingested from. -/
def Live (peerId : String) (engine : PexEngine) : Prop :=
  peerId ∈ engine.links ∧ (engine.link peerId).muted = false

theorem Live.ingest (frame : PexEngine.IngestFrame peerId before after)
    (live : Live peerId before) : Live peerId after := by
  obtain ⟨received, own⟩ := frame.own
  exact ⟨frame.present live.1, by rw [own]; exact live.2⟩

theorem adoptHint {candidate : PeerEntry} (live : Live peerId engine)
    (sound : ReportSound latestSecs engine.cfg.localPeerId peerId
      candidate.peerId candidate.lastSeen)
    (memory : ReceiverMemory latestSecs engine) :
    ReceiverMemory latestSecs (engine.adoptHint peerId candidate) := by
  refine ⟨memory.link, ?_, ?_⟩
  · exact FiniteMap.size_insertCapped_le _ (by decide) memory.bounded _ _
  · intro id hint lookup
    rcases FiniteMap.getElem?_of_insertCapped _ lookup with
      ⟨rfl, rfl⟩ | ⟨_, old⟩
    · exact ⟨live.1, live.2, sound⟩
    · obtain ⟨present, unmuted, owned⟩ := memory.hint id hint old
      exact ⟨present, unmuted, owned⟩

theorem ingestEntry {nowSecs : Nat} (past : nowSecs ≤ latestSecs)
    (entry : PeerEntry) (live : Live peerId engine)
    (memory : ReceiverMemory latestSecs engine) :
    ReceiverMemory latestSecs
      (PexEngine.ingestEntry peerId nowSecs engine entry).1 := by
  by_cases kept : engine.Keeps peerId nowSecs entry
  · have sound := ReportSound.of_keeps past kept
    have attributed : ReceiverMemory latestSecs
        (engine.attributeTo peerId (entry.clamped nowSecs)) :=
      memory.setLink ((memory.link peerId).store live.2 sound) fun _ => live.2
    rw [PexEngine.ingestEntry_of_keeps kept]
    split
    · exact attributed.adoptHint (live.ingest .write) sound
    · exact attributed
  · rw [PexEngine.ingestEntry_of_not_keeps kept]
    exact memory

theorem ingestDroppedId (id : String) (live : Live peerId engine)
    (memory : ReceiverMemory latestSecs engine) :
    ReceiverMemory latestSecs
      (PexEngine.ingestDroppedId peerId engine id).1 := by
  by_cases told : id ∈ (engine.link peerId).received
  · have forgotten : ReceiverMemory latestSecs (engine.forget peerId id) :=
      memory.setLink ((memory.link peerId).erase id) fun _ => live.2
    rw [PexEngine.ingestDroppedId_of_told told]
    unfold PexEngine.unlistSource
    dsimp only
    split
    · refine ⟨forgotten.link, ?_, ?_⟩
      · exact Std.ExtTreeMap.size_erase_le.trans forgotten.bounded
      · intro other hint lookup
        obtain ⟨present, unmuted, owned⟩ :=
          forgotten.hint other hint (by grind)
        exact ⟨present, unmuted, owned⟩
    · exact forgotten
  · rw [PexEngine.ingestDroppedId_of_untold live.1 told]
    exact memory

theorem ingestAdded {nowMs : Nat} (past : nowMs / 1000 ≤ latestSecs)
    (entries : List PeerEntry) (live : Live peerId engine)
    (memory : ReceiverMemory latestSecs engine) :
    Live peerId (engine.ingestAdded peerId entries nowMs).1 ∧
      ReceiverMemory latestSecs
        (engine.ingestAdded peerId entries nowMs).1 :=
  Machine.final_invariant _
    (fun state => Live peerId state ∧ ReceiverMemory latestSecs state)
    ⟨live, memory⟩ (fun state entry kept => ⟨kept.1.ingest
      (PexEngine.ingestEntry_frame state peerId _ entry),
      kept.2.ingestEntry past entry kept.1⟩) entries

theorem ingestDropped (dropped : List String) (live : Live peerId engine)
    (memory : ReceiverMemory latestSecs engine) :
    ReceiverMemory latestSecs (engine.ingestDropped peerId dropped).1 :=
  (Machine.final_invariant _
    (fun state => Live peerId state ∧ ReceiverMemory latestSecs state)
    ⟨live, memory⟩ (fun state id kept => ⟨kept.1.ingest
      (PexEngine.ingestDroppedId_frame state peerId id),
      kept.2.ingestDroppedId id kept.1⟩) dropped).2

theorem advance (message : PexMessage) (nowMs : Nat)
    (memory : ReceiverMemory latestSecs engine) :
    ReceiverMemory latestSecs (engine.setLink peerId
      ((engine.link peerId).advance message nowMs)) := by
  obtain ⟨received, strikes, muted⟩ :=
    (engine.link peerId).advance_kept message nowMs
  have old := memory.link peerId
  refine memory.setLink ⟨?_, ?_, ?_, ?_⟩ (fun unmuted => muted.trans unmuted)
  · rw [received]
    exact old.bounded
  · rw [received, muted]
    exact old.mutedEmpty
  · rw [strikes, muted]
    exact old.limitMutes
  · rw [received]
    exact old.sound

theorem accept {nowMs : Nat} (past : nowMs / 1000 ≤ latestSecs)
    (message : PexMessage) (unmuted : (engine.link peerId).muted = false)
    (memory : ReceiverMemory latestSecs engine) :
    ReceiverMemory latestSecs
      (engine.accept peerId message nowMs).1 := by
  have advanced := @advance _ _ peerId message nowMs memory
  have live : Live peerId (engine.setLink peerId
      ((engine.link peerId).advance message nowMs)) := by
    refine ⟨by simp, ?_⟩
    rw [PexEngine.link_setLink_self]
    exact ((engine.link peerId).advance_kept message nowMs).2.2.trans unmuted
  cases message with
  | pexError code text => exact advanced
  | pexHandshake version networkId declared flags => exact advanced
  | pexSnapshot peers => exact (advanced.ingestAdded past peers live).2
  | pexDelta added dropped =>
      obtain ⟨stillLive, ingested⟩ := advanced.ingestAdded past added live
      exact ingested.ingestDropped dropped stillLive

/-- A hint that survives the withdrawal of a link's hints was stored, and is
from another link. -/
theorem stored_elsewhere {id : String} {hint : ReceivedHint}
    (lookup : (engine.hints.filter
      fun _ hint => hint.source ≠ peerId)[id]? = some hint) :
    engine.hints[id]? = some hint ∧ hint.source ≠ peerId := by
  simpa [Std.ExtTreeMap.getElem?_filter] using lookup

/-- A fault that mutes at the limit keeps the memory: what the link told us
and its hints go with the mute. -/
theorem penalize {strikes : Nat} {mute : Bool}
    (limitMutes : pexViolationLimit ≤ (engine.link peerId).strikes + strikes →
      ((engine.link peerId).muted || mute) = true)
    (memory : ReceiverMemory latestSecs engine) :
    ReceiverMemory latestSecs (engine.penalize peerId strikes mute) := by
  have old := memory.link peerId
  cases mute with
  | false =>
      refine memory.setLink ⟨old.bounded, ?_, limitMutes, old.sound⟩ ?_
      · intro muted
        apply old.mutedEmpty
        simpa using muted
      · intro unmuted
        simpa using unmuted
  | true =>
      refine ⟨?_, ?_, ?_⟩
      · intro id
        rw [PexEngine.link_penalize]
        split
        · rename_i same
          subst same
          constructor <;> simp
        · exact memory.link id
      · exact (Std.ExtTreeMap.size_filter_le_size).trans memory.bounded
      · intro id hint lookup
        obtain ⟨stored, elsewhere⟩ := stored_elsewhere lookup
        obtain ⟨live, unmuted, sound⟩ := memory.hint id hint stored
        refine ⟨by simp [PexEngine.penalize, live], ?_, sound⟩
        rw [PexEngine.link_penalize, if_neg (Ne.symm elsewhere)]
        exact unmuted

theorem onMessage {nowMs : Nat} (past : nowMs / 1000 ≤ latestSecs)
    (message : PexMessage) (memory : ReceiverMemory latestSecs engine) :
    ReceiverMemory latestSecs
      (engine.onMessage peerId message nowMs).1 := by
  have ignored : (engine.link peerId).direction.judge engine.cfg.networkId
      message nowMs = .ignored ↔ (engine.link peerId).muted = true :=
    Direction.judge_eq_ignored_iff _ _ _ _
  rw [PexEngine.onMessage_eq]
  cases verdict : (engine.link peerId).direction.judge engine.cfg.networkId
      message nowMs with
  | ignored => exact memory.setLink (memory.link peerId) fun unmuted => unmuted
  | accepted =>
      have unmuted : (engine.link peerId).muted = false := by
        simpa using mt ignored.mpr (by simp [verdict])
      exact memory.accept past message unmuted
  | struck code =>
      apply memory.penalize
      intro limit
      simp [PexEngine.strikeMutes, Direction.strikeMutes,
        LinkState.direction, limit]
  | mismatched code => exact memory.penalize fun _ => Bool.or_true _

theorem recordViolation (code : PexErrorCode) (nowMs : Nat)
    (memory : ReceiverMemory latestSecs engine) :
    ReceiverMemory latestSecs
      (engine.recordViolation peerId code nowMs).1 := by
  rw [PexEngine.recordViolation_eq]
  apply memory.penalize
  intro limit
  simp [PexEngine.strikeMutes, Direction.strikeMutes, LinkState.direction,
    limit]

theorem linkDown (peerId : String)
    (memory : ReceiverMemory latestSecs engine) :
    ReceiverMemory latestSecs (engine.linkDown peerId) := by
  refine ⟨?_, ?_, ?_⟩
  · intro id
    rw [PexEngine.link_linkDown]
    split
    · exact .new _
    · exact memory.link id
  · exact (Std.ExtTreeMap.size_filter_le_size).trans memory.bounded
  · intro id hint lookup
    obtain ⟨stored, elsewhere⟩ := stored_elsewhere lookup
    obtain ⟨live, unmuted, sound⟩ := memory.hint id hint stored
    refine ⟨?_, ?_, sound⟩
    · simp only [PexEngine.linkDown]
      grind
    · rw [PexEngine.link_linkDown, if_neg (Ne.symm elsewhere)]
      exact unmuted

end ReceiverMemory

/-- The clock value of an inbound message, in seconds. -/
def Call.messageSecs : Call → Nat
  | .onMessage _ _ nowMs => nowMs / 1000
  | _ => 0

/-- The latest clock value any message of a run came with. -/
def latestMessageSecs (calls : List Call) : Nat :=
  calls.foldl (fun latest call => max latest call.messageSecs) 0

variable [DefaultHasher]

theorem ReceiverMemory.step {engine : PexEngine} (call : Call)
    (memory : ReceiverMemory latestSecs engine) :
    ReceiverMemory (max latestSecs call.messageSecs)
      (engineStep engine call).1 := by
  have memory := memory.mono (le_max_left latestSecs call.messageSecs)
  cases call with
  | upsertKnown entry =>
      exact memory.congr (by simp [engineStep]) (by simp [engineStep])
        (by simp [engineStep]) (by simp [engineStep]) (by simp [engineStep])
  | removeKnown id =>
      apply memory.congr
      · rfl
      · rfl
      · exact fun _ => rfl
      · exact fun _ => rfl
      · exact fun _ present => present
  | linkUp opened nowMs order jitter =>
      have frame := PexEngine.linkUp_frame engine opened nowMs order jitter
      refine memory.congr frame.cfg frame.hints ?_ ?_ ?_
      · exact direction_engineStep engine (.linkUp opened nowMs order jitter)
      · exact fun id => received_engineStep rfl engine
      · intro id present
        simp only [engineStep, PexEngine.linkUp_eq, PexEngine.mem_setLink]
        apply Or.inr
        simpa using present
  | linkDown closed => exact memory.linkDown closed
  | onMessage source message nowMs =>
      exact memory.onMessage (le_max_right _ _) message
  | recordViolation source code nowMs =>
      exact memory.recordViolation code nowMs
  | tick nowMs orders jitter =>
      have frame := PexEngine.tick_frame nowMs orders jitter engine
      refine memory.congr frame.cfg frame.hints ?_ ?_ ?_
      · exact direction_engineStep engine (.tick nowMs orders jitter)
      · exact fun id => received_engineStep rfl engine
      · intro id present
        exact (PexEngine.mem_links_tick nowMs orders jitter engine id).mpr
          present

omit [DefaultHasher] in
theorem ReceiverMemory.start (cfg : PexConfig) :
    ReceiverMemory 0 (PexEngine.new cfg) := by
  refine ⟨fun peerId => ?_, by simp [PexEngine.new], by simp [PexEngine.new]⟩
  rw [PexEngine.link_new]
  exact .new _

/-- Every run keeps the receiver's memory bounded and owned. -/
theorem ReceiverMemory.run {engine : PexEngine}
    (memory : ReceiverMemory latestSecs engine) (calls : List Call) :
    ReceiverMemory
      (calls.foldl (fun latest call => max latest call.messageSecs)
        latestSecs)
      (engineStep.final engine calls) := by
  induction calls generalizing engine latestSecs with
  | nil => exact memory
  | cons call calls induction => exact induction (memory.step call)

/-- In every reachable state the receiver's memory is bounded and owned, and
no stored timestamp is later than the latest clock value a message came
with. -/
theorem receiverMemory_reachable (cfg : PexConfig) (calls : List Call) :
    ReceiverMemory (latestMessageSecs calls)
      (engineStep.final (PexEngine.new cfg) calls) :=
  (ReceiverMemory.start cfg).run calls

end DigPex
