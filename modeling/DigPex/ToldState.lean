import DigPex.Concrete
import DigPex.KnownHistory
import DigPex.Sending

/-!
# The told map is what the partner was sent

The view of a link is the replay, from empty, of every snapshot and delta
returned for it since it was created.  The told map is the image of the view
under the fingerprint, and every emission is judged against the view it
extends.
-/

namespace DigPex

/-- The view after one more message. -/
def replay : Std.ExtTreeMap String PeerEntry → PexMessage →
    Std.ExtTreeMap String PeerEntry :=
  transcribe fun entry => entry

/-- What a link was sent in its current lifetime. -/
def sentView (peerId : String) (past : List (Call × Response)) :
    Std.ExtTreeMap String PeerEntry :=
  past.foldl (fun sent event =>
    if event.1.inbound peerId = some .down then ∅
    else (messagesFor peerId event).foldl replay sent) ∅

/-- An entry that may be sent to a partner: the current first-hand entry of
its id, neither of the two ends, not too old. -/
structure Advertisable (engine : PexEngine) (partner : String)
    (nowSecs : Nat) (entry : PeerEntry) : Prop where
  current : engine.known.entries[entry.peerId]? = some entry
  notLocal : entry.peerId ≠ engine.cfg.localPeerId
  notPartner : entry.peerId ≠ partner
  fresh : nowSecs ≤ entry.lastSeen + pexMaxEntryAge

theorem mem_advertisableFor_iff {engine : PexEngine}
    (current : engine.CacheCurrent) {order : IterationOrder String}
    {partner : String} {nowSecs : Nat} {entry : PeerEntry} :
    entry ∈ (engine.advertisableFor order partner nowSecs).1 ↔
      Advertisable engine partner nowSecs entry := by
  rw [PexEngine.mem_advertisableFor, current.advertisableCached_fst,
    mem_advertisableBase, isFresh_iff]
  constructor
  · rintro ⟨⟨lookup, notLocal, fresh⟩, notPartner⟩
    exact ⟨lookup, notLocal, notPartner, fresh⟩
  · intro advertisable
    exact ⟨⟨advertisable.current, advertisable.notLocal,
      advertisable.fresh⟩, advertisable.notPartner⟩

theorem nodup_advertisableFor {engine : PexEngine}
    (current : engine.CacheCurrent) (order : IterationOrder String)
    (partner : String) (nowSecs : Nat) :
    ((engine.advertisableFor order partner nowSecs).1.map
      PeerEntry.peerId).Nodup := by
  have base := nodup_map_peerId_advertisableBase engine.known
    engine.cfg.localPeerId order nowSecs
  rw [← current.advertisableCached_fst] at base
  exact base.sublist (List.filter_sublist.map _)

theorem trimFrom_isPrefix (used : Nat) (peers : List PeerEntry) :
    trimFrom used peers <+: peers := by
  induction peers generalizing used with
  | nil => exact List.prefix_refl _
  | cons entry entries induction =>
      unfold trimFrom
      dsimp only
      split
      · exact (List.prefix_cons_inj entry).mpr (induction _)
      · exact List.nil_prefix

theorem mem_openingPeers {engine : PexEngine} {peerId : String} {nowMs : Nat}
    {order : IterationOrder String} {entry : PeerEntry}
    (member : entry ∈ engine.openingPeers peerId nowMs order) :
    entry ∈ (engine.advertisableFor order peerId (nowMs / 1000)).1 :=
  List.mem_of_mem_take ((trimFrom_isPrefix _ _).subset member)

section Deltas

variable [DefaultHasher] (link : LinkState)
  (toldOrder : IterationOrder String) (advertisable : List PeerEntry)

theorem length_deltaAgainst :
    (link.deltaAgainst toldOrder advertisable).1.length ≤ pexMaxAdded ∧
      (link.deltaAgainst toldOrder advertisable).2.length ≤
        pexMaxDropped := by
  simp only [LinkState.deltaAgainst, List.length_insertionSort]
  exact ⟨List.length_take_le _ _, List.length_take_le _ _⟩

variable {link toldOrder advertisable}

theorem mem_deltaAgainst_added {entry : PeerEntry}
    (member : entry ∈ (link.deltaAgainst toldOrder advertisable).1) :
    entry ∈ advertisable ∧ link.isPending entry = true :=
  List.mem_filter.mp (List.mem_of_mem_take member)

theorem mem_deltaAgainst_dropped {id : String}
    (member : id ∈ (link.deltaAgainst toldOrder advertisable).2) :
    id ∈ link.told ∧ id ∉ advertisable.map PeerEntry.peerId := by
  simp only [LinkState.deltaAgainst, List.mem_insertionSort] at member
  have kept := List.mem_filter.mp (List.mem_of_mem_take member)
  rw [toldOrder.mem_arrange, Std.ExtTreeMap.mem_keys] at kept
  simpa using kept

theorem disjoint_deltaAgainst {id : String}
    (dropped : id ∈ (link.deltaAgainst toldOrder advertisable).2) :
    id ∉ (link.deltaAgainst toldOrder advertisable).1.map
      PeerEntry.peerId := by
  intro added
  obtain ⟨entry, member, rfl⟩ := List.mem_map.mp added
  exact (mem_deltaAgainst_dropped dropped).2
    (List.mem_map_of_mem (mem_deltaAgainst_added member).1)

theorem nodup_deltaAgainst_added
    (distinct : (advertisable.map PeerEntry.peerId).Nodup) :
    ((link.deltaAgainst toldOrder advertisable).1.map
      PeerEntry.peerId).Nodup :=
  distinct.sublist
    (((List.take_sublist _ _).trans List.filter_sublist).map _)

end Deltas

variable [DefaultHasher]

/-- What a delta satisfies against the view before it. -/
structure DeltaConforms (engine : PexEngine)
    (sent : Std.ExtTreeMap String PeerEntry) (partner : String)
    (nowSecs : Nat) (added : List PeerEntry) (dropped : List String) :
    Prop where
  nonempty : added ≠ [] ∨ dropped ≠ []
  addedCap : added.length ≤ 50
  droppedCap : dropped.length ≤ 50
  distinct : (added.map PeerEntry.peerId).Nodup
  disjoint : ∀ id ∈ dropped, id ∉ added.map PeerEntry.peerId
  droppedSent : ∀ id ∈ dropped, id ∈ sent
  droppedOthers : ∀ id ∈ dropped,
    id ≠ engine.cfg.localPeerId ∧ id ≠ partner
  news : ∀ entry ∈ added, ∀ old : PeerEntry,
    sent[entry.peerId]? = some old →
      old.fingerprintHash ≠ entry.fingerprintHash
  advertisable : ∀ entry ∈ added, Advertisable engine partner nowSecs entry

/-- The told map mirrors the view, and neither end is in the view. -/
structure ToldMirrors (peerId : String) (past : List (Call × Response))
    (engine : PexEngine) : Prop where
  image : FiniteMap.IsImage PeerEntry.fingerprintHash
    (engine.link peerId).told (sentView peerId past)
  others : ∀ id ∈ sentView peerId past,
    id ≠ engine.cfg.localPeerId ∧ id ≠ peerId

namespace ToldMirrors

variable {peerId : String} {past : List (Call × Response)}
  {engine : PexEngine}

theorem delta (mirrors : ToldMirrors peerId past engine)
    (current : engine.CacheCurrent) {nowMs : Nat} {orders : TickOrders}
    {delta : List PeerEntry × List String}
    (due : engine.dueDelta nowMs orders peerId = some delta) :
    DeltaConforms engine (sentView peerId past) peerId (nowMs / 1000)
      delta.1 delta.2 := by
  obtain ⟨_, _, same, nonempty⟩ := LinkState.dueDelta_eq_some due
  have lengths := length_deltaAgainst (engine.link peerId)
    (orders.told peerId)
    (engine.advertisableFor orders.known peerId (nowMs / 1000)).1
  have distinct := nodup_advertisableFor current orders.known peerId
    (nowMs / 1000)
  rw [← same] at lengths
  have told : ∀ id : String, id ∈ (engine.link peerId).told ↔
      id ∈ sentView peerId past := by
    intro id
    have image := mirrors.image id
    grind
  refine ⟨nonempty, lengths.1, lengths.2, ?_, ?_, ?_, ?_, ?_, ?_⟩
  · rw [same]
    exact nodup_deltaAgainst_added distinct
  · intro id dropped
    rw [same] at dropped ⊢
    exact disjoint_deltaAgainst dropped
  · intro id dropped
    rw [same] at dropped
    exact (told id).mp (mem_deltaAgainst_dropped dropped).1
  · intro id dropped
    rw [same] at dropped
    exact mirrors.others id
      ((told id).mp (mem_deltaAgainst_dropped dropped).1)
  · intro entry added old lookup unchanged
    rw [same] at added
    have pending := (mem_deltaAgainst_added added).2
    have image := mirrors.image entry.peerId
    rw [lookup, Option.map_some, unchanged] at image
    simp [LinkState.isPending, image] at pending
  · intro entry added
    rw [same] at added
    exact (mem_advertisableFor_iff current).mp
      (mem_deltaAgainst_added added).1

end ToldMirrors

/-- Everything a call returns for a link is on the list it advertises to the
link when it sends. -/
theorem mem_advertisableFor_of_messagesFor {engine : PexEngine}
    {call : Call} {peerId : String} {message : PexMessage}
    {entry : PeerEntry}
    (member : message ∈
      messagesFor peerId (call, (engineStep engine call).2))
    (carried : entry ∈ message.entries) :
    ∃ order, entry ∈
      (engine.advertisableFor order peerId (call.sendMs / 1000)).1 := by
  rw [messagesFor_engineStep] at member
  cases call with
  | linkUp opened nowMs order jitter =>
      dsimp only at member
      split at member
      · rcases List.mem_cons.mp member with rfl | member
        · cases carried
        · obtain rfl := List.mem_singleton.mp member
          exact ⟨order, mem_openingPeers carried⟩
      · cases member
  | tick nowMs orders jitter =>
      simp only [Option.mem_toList, Option.map_eq_some_iff] at member
      obtain ⟨delta, due, rfl⟩ := member
      obtain ⟨_, _, rfl, _⟩ := LinkState.dueDelta_eq_some due
      exact ⟨orders.known, (mem_deltaAgainst_added carried).1⟩
  | _ => cases member

theorem ToldMirrors.step {peerId : String} {past : List (Call × Response)}
    {engine : PexEngine} (current : engine.CacheCurrent) (call : Call)
    (mirrors : ToldMirrors peerId past engine) :
    ToldMirrors peerId (past ++ [(call, (engineStep engine call).2)])
      (engineStep engine call).1 := by
  have told := told_engineStep engine call peerId
  have sent : sentView peerId
      (past ++ [(call, (engineStep engine call).2)]) =
      if call.inbound peerId = some .down then ∅
      else (messagesFor peerId (call, (engineStep engine call).2)).foldl
        replay (sentView peerId past) := by
    simp [sentView]
  by_cases down : call.inbound peerId = some .down
  · rw [if_pos down] at told sent
    refine ⟨?_, by simp [sent]⟩
    rw [told, sent]
    exact FiniteMap.isImage_empty _
  · rw [if_neg down] at told sent
    constructor
    · rw [told, sent]
      exact isImage_foldl_transcribe _ mirrors.image
    · intro id member
      rw [sent] at member
      rw [cfg_engineStep]
      rcases mem_foldl_transcribe member with old | ⟨message, returned, entry,
        carried, rfl⟩
      · exact mirrors.others id old
      · obtain ⟨_, listed⟩ :=
          mem_advertisableFor_of_messagesFor returned carried
        have advertisable := (mem_advertisableFor_iff current).mp listed
        exact ⟨advertisable.notLocal, advertisable.notPartner⟩

theorem toldMirrors_final (cfg : PexConfig) (calls : List Call)
    (peerId : String)
    (few : knownChanges cfg.localPeerId calls < 2 ^ 64) :
    ToldMirrors peerId (engineStep.trace (PexEngine.new cfg) calls)
      (engineStep.final (PexEngine.new cfg) calls) := by
  induction calls using List.reverseRecOn with
  | nil =>
      refine ⟨?_, by simp [sentView]⟩
      rw [Machine.final_nil, PexEngine.link_new]
      exact FiniteMap.isImage_empty _
  | append_singleton calls call induction =>
      have earlier : knownChanges cfg.localPeerId calls < 2 ^ 64 := by
        simp only [knownChanges, List.countP_append] at few ⊢
        omega
      rw [Machine.trace_concat, Machine.final_concat]
      exact (induction earlier).step (cacheCurrent_final cfg calls earlier)
        call

/-- The told state is exactly what the partner was sent.  In every state
reached with fewer than `2 ^ 64` changes of the first-hand set, a link's told
map is the image of its view under the fingerprint; every snapshot opened next
carries only advertisable entries; and every delta sent next is non-empty,
capped, without repetition or overlap, drops only what was sent, and adds only
advertisable entries that the view does not hold with that fingerprint. -/
theorem told_mirrors_sent (cfg : PexConfig) (calls : List Call)
    (peerId : String)
    (few : knownChanges cfg.localPeerId calls < 2 ^ 64) :
    let engine := engineStep.final (PexEngine.new cfg) calls
    let sent := sentView peerId (engineStep.trace (PexEngine.new cfg) calls)
    FiniteMap.IsImage PeerEntry.fingerprintHash (engine.link peerId).told
        sent ∧
      (∀ (nowMs : Nat) (order : IterationOrder String) (jitter : Jitter)
        (peers : List PeerEntry),
        .pexSnapshot peers ∈ (engine.linkUp peerId nowMs order jitter).2 →
          ∀ entry ∈ peers,
            Advertisable engine peerId (nowMs / 1000) entry) ∧
      ∀ (nowMs : Nat) (orders : TickOrders) (jitter : String → Jitter)
        (message : PexMessage),
        (peerId, message) ∈ (engine.tick nowMs orders jitter).2 →
          ∃ added dropped, message = .pexDelta added dropped ∧
            DeltaConforms engine sent peerId (nowMs / 1000) added
              dropped := by
  intro engine sent
  have mirrors := toldMirrors_final cfg calls peerId few
  have current := cacheCurrent_final cfg calls few
  refine ⟨mirrors.image, ?_, ?_⟩
  · intro nowMs order jitter peers opened entry member
    rw [PexEngine.linkUp_eq] at opened
    simp only [PexEngine.handshake, List.mem_cons, List.not_mem_nil,
      reduceCtorEq, PexMessage.pexSnapshot.injEq, or_false, false_or]
      at opened
    subst opened
    exact (mem_advertisableFor_iff current).mp (mem_openingPeers member)
  · intro nowMs orders jitter message member
    obtain ⟨_, delta, due, rfl⟩ := (PexEngine.mem_tick _ _ _).mp member
    exact ⟨delta.1, delta.2, rfl, mirrors.delta current due⟩

omit [DefaultHasher] in
/-- An entry told in the snapshot and again, changed, in a delta. -/
theorem told_mirrors_sent_changed :
    let told := exampleEntry 'c' 1000 9444
    let changed := exampleEntry 'c' 1000 9445
    let calls : List Call := [.upsertKnown told,
      .linkUp (exampleId 'b') 1000000 .ascending .zero,
      .upsertKnown changed,
      .tick 1060000 exampleOrders fun _ => .zero]
    let start := PexEngine.new (exampleConfig (exampleId 'a'))
    let engine := (@engineStep sipHasher).final start calls
    let sent := sentView (exampleId 'b')
      ((@engineStep sipHasher).trace start calls)
    sent.toList = [(exampleId 'c', changed)] ∧
      FiniteMap.IsImage (@PeerEntry.fingerprintHash sipHasher)
        (engine.link (exampleId 'b')).told sent := by
  intro told changed calls start engine sent
  refine ⟨by decide +kernel, ?_⟩
  exact (@told_mirrors_sent sipHasher (exampleConfig (exampleId 'a')) calls
    (exampleId 'b') (by decide +kernel)).1

end DigPex
