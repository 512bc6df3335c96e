import DigPex.Steps

/-!
# The sending direction of a link

The sending half of a link record, what each call makes of it, and the
messages each call returns for the link.  The told map changes exactly by the
messages that are returned.
-/

namespace DigPex

/-- The fields of a link's sending direction. -/
structure Outbound where
  handshakeSent : Bool
  snapshotSent : Bool
  told : Std.ExtTreeMap String UInt64
  lastDataSendMs : Option Nat
  sendJitterMs : Nat
  selfIntervalSecs : Nat
  lastBackoffAppliedMs : Option Nat

def LinkState.outbound (link : LinkState) : Outbound :=
  { handshakeSent := link.handshakeSent
    snapshotSent := link.snapshotSent
    told := link.told
    lastDataSendMs := link.lastDataSendMs
    sendJitterMs := link.sendJitterMs
    selfIntervalSecs := link.selfIntervalSecs
    lastBackoffAppliedMs := link.lastBackoffAppliedMs }

/-- The sending direction after a back-off. -/
def Outbound.backOff (outbound : Outbound) (nowMs : Nat) : Outbound :=
  { outbound with
    selfIntervalSecs := backedOffInterval outbound.selfIntervalSecs
    lastBackoffAppliedMs := some nowMs }

/-- What a message that is not ignored does to the sending direction of its
link: a `pex_error` may back it off. -/
def LinkState.heed (link : LinkState) (message : PexMessage) (nowMs : Nat) :
    Outbound :=
  match message with
  | .pexError code _ =>
      if link.backsOff code nowMs then link.outbound.backOff nowMs
      else link.outbound
  | _ => link.outbound

namespace PexEngine

variable (engine : PexEngine) (peerId : String)

theorem outbound_accept (message : PexMessage) (nowMs : Nat) :
    ((engine.accept peerId message nowMs).1.link peerId).outbound =
      (engine.link peerId).heed message nowMs := by
  obtain ⟨received, accepted⟩ := link_accept engine peerId message nowMs
  rw [accepted]
  cases message with
  | pexError code text =>
      simp only [LinkState.advance, LinkState.heed]
      split <;> rfl
  | _ => rfl

/-- Receiving touches the sending direction of its own link only, and only
while that link is not muted. -/
theorem outbound_onMessage (message : PexMessage) (nowMs : Nat)
    (other : String) :
    ((engine.onMessage peerId message nowMs).1.link other).outbound =
      if peerId = other ∧ (engine.link other).muted = false then
        (engine.link other).heed message nowMs
      else
        (engine.link other).outbound := by
  by_cases same : peerId = other
  · subst same
    by_cases muted : (engine.link peerId).muted = true
    · simp [onMessage_of_muted muted, muted]
    · have unmuted : (engine.link peerId).muted = false := by simpa using muted
      have struck : ∀ strikes mute,
          ((engine.penalize peerId strikes mute).link peerId).outbound =
            (engine.link peerId).outbound := by
        intro strikes mute
        simp [link_penalize, LinkState.outbound]
      rw [if_pos ⟨rfl, unmuted⟩, onMessage_eq]
      cases message with
      | pexError code text =>
          rw [(Direction.judge_eq_accepted_iff _ _ (.pexError code text)
            nowMs).mpr ⟨unmuted, trivial⟩]
          exact outbound_accept engine peerId _ nowMs
      | _ =>
          cases (engine.link peerId).direction.judge engine.cfg.networkId _
            nowMs with
          | ignored => simp [conclude, LinkState.heed]
          | accepted => exact outbound_accept engine peerId _ nowMs
          | struck code => exact struck _ _
          | mismatched code => exact struck _ _
  · rw [onMessage_eq, link_conclude_of_ne _ _ (Ne.symm same), if_neg]
    exact fun both => same both.1

end PexEngine

/-- The clock value a call sends its messages at. -/
def Call.sendMs : Call → Nat
  | .linkUp _ nowMs _ _ => nowMs
  | .tick nowMs _ _ => nowMs
  | _ => 0

/-- The messages an event returns for one link. -/
def messagesFor (peerId : String) (event : Call × Response) :
    List PexMessage :=
  (emitted event).filterMap fun pair =>
    if pair.1 = peerId then some pair.2 else none

section Transcription

variable {Image : Type} (image : PeerEntry → Image)

/-- A map of images of entries after one more message: the entries carried are
inserted by id, then the dropped ids are removed. -/
def transcribe (map : Std.ExtTreeMap String Image) :
    PexMessage → Std.ExtTreeMap String Image
  | .pexSnapshot peers => FiniteMap.insertAll PeerEntry.peerId image map peers
  | .pexDelta added dropped =>
      FiniteMap.eraseAll
        (FiniteMap.insertAll PeerEntry.peerId image map added) dropped
  | _ => map

variable {image}

theorem mem_transcribe {map : Std.ExtTreeMap String Image}
    {message : PexMessage} {id : String}
    (member : id ∈ transcribe image map message) :
    id ∈ map ∨ ∃ entry ∈ message.entries, entry.peerId = id := by
  cases message with
  | pexSnapshot peers =>
      simpa [PexMessage.entries] using
        (FiniteMap.mem_insertAll _ _).mp member
  | pexDelta added dropped =>
      simpa [PexMessage.entries] using (FiniteMap.mem_insertAll _ _).mp
        (FiniteMap.mem_eraseAll.mp member).1
  | _ => exact .inl member

theorem mem_foldl_transcribe {map : Std.ExtTreeMap String Image}
    {messages : List PexMessage} {id : String}
    (member : id ∈ messages.foldl (transcribe image) map) :
    id ∈ map ∨ ∃ message ∈ messages, ∃ entry ∈ message.entries,
      entry.peerId = id := by
  induction messages generalizing map with
  | nil => exact .inl member
  | cons message messages induction =>
      rcases induction member with old | ⟨later, laterMember, entry, carried⟩
      · rcases mem_transcribe old with old | carried
        · exact .inl old
        · exact .inr ⟨message, by simp, carried⟩
      · exact .inr ⟨later, by simp [laterMember], entry, carried⟩

theorem isImage_foldl_transcribe {map : Std.ExtTreeMap String Image}
    {entries : Std.ExtTreeMap String PeerEntry} (messages : List PexMessage)
    (related : FiniteMap.IsImage image map entries) :
    FiniteMap.IsImage image (messages.foldl (transcribe image) map)
      (messages.foldl (transcribe fun entry => entry) entries) := by
  induction messages generalizing map entries with
  | nil => exact related
  | cons message messages induction =>
      refine induction ?_
      cases message with
      | pexSnapshot peers => exact related.insertAll _ _ peers
      | pexDelta added dropped =>
          exact (related.insertAll _ _ added).eraseAll _
      | _ => exact related

end Transcription

variable [DefaultHasher]

/-- The told map after sending a message. -/
def tell : Std.ExtTreeMap String UInt64 → PexMessage →
    Std.ExtTreeMap String UInt64 :=
  transcribe PeerEntry.fingerprintHash

omit [DefaultHasher] in
theorem filterMap_select {Message : Type} {peerIds : List String}
    (distinct : peerIds.Nodup) (message : String → Option Message)
    (wanted : String) :
    (peerIds.filterMap fun peerId =>
      if peerId = wanted then message peerId else none) =
      if wanted ∈ peerIds then (message wanted).toList else [] := by
  induction peerIds with
  | nil => rfl
  | cons peerId peerIds induction =>
      obtain ⟨fresh, distinct⟩ := List.nodup_cons.mp distinct
      rw [List.filterMap_cons, induction distinct]
      by_cases same : peerId = wanted
      · subst same
        cases message peerId <;> simp [fresh]
      · simp [same, Ne.symm same]

theorem messagesFor_tick (engine : PexEngine) (nowMs : Nat)
    (orders : TickOrders) (jitter : String → Jitter) (peerId : String) :
    messagesFor peerId
        (.tick nowMs orders jitter,
          .deltas (engine.tick nowMs orders jitter).2) =
      ((engine.dueDelta nowMs orders peerId).map fun delta =>
        PexMessage.pexDelta delta.1 delta.2).toList := by
  have distinct : (orders.links.arrange engine.links.keys).Nodup :=
    (orders.links.perm _).nodup_iff.mpr Std.ExtTreeMap.nodup_keys
  have selected := filterMap_select distinct (fun id =>
    (engine.dueDelta nowMs orders id).map fun delta =>
      PexMessage.pexDelta delta.1 delta.2) peerId
  have absent : peerId ∉ engine.links →
      engine.dueDelta nowMs orders peerId = none := by
    intro absent
    simp [PexEngine.dueDelta, LinkState.dueDelta,
      PexEngine.link_of_absent absent, LinkState.new]
  rw [messagesFor, emitted,
    (PexEngine.tick_spec nowMs orders jitter engine).2.2,
    List.filterMap_filterMap]
  calc
    _ = _ := List.filterMap_congr fun id _ => by
      cases engine.dueDelta nowMs orders id <;> simp
    _ = _ := selected
    _ = _ := by
      split
      · rfl
      · rename_i unvisited
        rw [absent (mt (PexEngine.mem_arrange_links _ _).mpr unvisited)]
        rfl

theorem messagesFor_engineStep (engine : PexEngine) (call : Call)
    (peerId : String) :
    messagesFor peerId (call, (engineStep engine call).2) =
      match call with
      | .linkUp opened nowMs order _ =>
          if opened = peerId then
            [engine.handshake,
              .pexSnapshot (engine.openingPeers peerId nowMs order)]
          else []
      | .tick nowMs orders _ =>
          ((engine.dueDelta nowMs orders peerId).map fun delta =>
            PexMessage.pexDelta delta.1 delta.2).toList
      | _ => [] := by
  cases call with
  | linkUp opened nowMs order jitter =>
      simp only [engineStep, PexEngine.linkUp_eq, messagesFor, emitted]
      by_cases same : opened = peerId
      · subst same
        simp
      · simp [same]
  | tick nowMs orders jitter =>
      exact messagesFor_tick engine nowMs orders jitter peerId
  | _ => rfl

theorem outbound_engineStep (engine : PexEngine) (call : Call)
    (peerId : String) :
    ((engineStep engine call).1.link peerId).outbound =
      match call with
      | .linkUp opened nowMs order jitter =>
          if opened = peerId then
            (engine.openedLink peerId nowMs order jitter).outbound
          else (engine.link peerId).outbound
      | .linkDown closed =>
          if closed = peerId then
            (LinkState.new engine.cfg.interval).outbound
          else (engine.link peerId).outbound
      | .onMessage source message nowMs =>
          if source = peerId ∧ (engine.link peerId).muted = false then
            (engine.link peerId).heed message nowMs
          else (engine.link peerId).outbound
      | .tick nowMs orders jitter =>
          (engine.tickedLink nowMs orders jitter peerId).outbound
      | _ => (engine.link peerId).outbound := by
  cases call with
  | upsertKnown entry => simp [engineStep]
  | removeKnown id => rfl
  | linkUp opened nowMs order jitter =>
      simp only [engineStep, PexEngine.link_linkUp]
      split
      · rename_i same
        rw [same]
      · rfl
  | linkDown closed =>
      simp only [engineStep, PexEngine.link_linkDown]
      split <;> rfl
  | onMessage source message nowMs =>
      exact engine.outbound_onMessage source message nowMs peerId
  | recordViolation source code nowMs =>
      simp only [engineStep, PexEngine.recordViolation_eq,
        PexEngine.link_penalize]
      split
      · rename_i same
        rw [← same]
        rfl
      · rfl
  | tick nowMs orders jitter =>
      simp only [engineStep, PexEngine.link_tick]

/-- Except when the link goes down, its told map changes exactly by the
messages returned for it. -/
theorem told_engineStep (engine : PexEngine) (call : Call) (peerId : String) :
    ((engineStep engine call).1.link peerId).told =
      if call.inbound peerId = some .down then ∅
      else (messagesFor peerId (call, (engineStep engine call).2)).foldl tell
        (engine.link peerId).told := by
  have told := congrArg Outbound.told
    (outbound_engineStep engine call peerId)
  have messages := messagesFor_engineStep engine call peerId
  cases call with
  | upsertKnown entry => exact told
  | removeKnown id => exact told
  | linkUp opened nowMs order jitter =>
      rw [messages, if_neg (by simp [Call.inbound])]
      refine told.trans ?_
      by_cases same : opened = peerId
      · simp only [same, if_true]
        rfl
      · simp only [same, if_false]
        rfl
  | linkDown closed =>
      refine told.trans ?_
      by_cases same : closed = peerId
      · simp [same, Call.inbound, LinkState.outbound, LinkState.new]
      · simp only [same, if_false, messages]
        rw [if_neg (by simp [Call.inbound, same])]
        rfl
  | onMessage source message nowMs =>
      rw [messages, if_neg (by
        simp only [Call.inbound]
        split <;> simp)]
      refine told.trans ?_
      dsimp only
      split
      · cases message with
        | pexError code text =>
            simp only [LinkState.heed]
            split <;> rfl
        | _ => rfl
      · rfl
  | recordViolation source code nowMs =>
      rw [messages, if_neg (by
        simp only [Call.inbound]
        split <;> simp)]
      exact told
  | tick nowMs orders jitter =>
      rw [messages, if_neg (by simp [Call.inbound])]
      refine told.trans ?_
      simp only [PexEngine.tickedLink]
      cases engine.dueDelta nowMs orders peerId <;> rfl

end DigPex
