import DigPex.FrameBudget

/-!
# The snapshot is the longest prefix that fits

Trimming charges every entry its encoding and a comma, and starts from an
encoding of the empty snapshot that counts the length prefix.  For a snapshot
with entries this running sum is the length of the body plus five: four bytes
of prefix and the comma of the first entry.  So trimming stops at most five
bytes early, and what it keeps of the list is its freshest part.
-/

namespace DigPex

theorem trimFrom_stops {used : Nat} {peers left : List PeerEntry}
    {entry : PeerEntry} (split : peers = trimFrom used peers ++ entry :: left) :
    pexMaxFrame < used + ((trimFrom used peers).map fun entry =>
      entry.jsonLength + 1).sum + (entry.jsonLength + 1) := by
  induction peers generalizing used with
  | nil => simp [trimFrom] at split
  | cons first peers induction =>
      by_cases fits : frameWithinBound (used + (first.jsonLength + 1)) = true
      · have kept : trimFrom used (first :: peers) =
            first :: trimFrom (used + (first.jsonLength + 1)) peers := by
          simp only [trimFrom, fits, if_true]
        rw [kept, List.cons_append, List.cons.injEq] at split
        have later := induction split.2
        rw [kept, List.map_cons, List.sum_cons]
        omega
      · have kept : trimFrom used (first :: peers) = [] := by
          simp only [trimFrom, fits, Bool.false_eq_true, if_false]
        rw [kept, List.nil_append, List.cons.injEq] at split
        obtain ⟨rfl, -⟩ := split
        rw [kept, List.map_nil, List.sum_nil]
        simpa [frameWithinBound] using fits

/-- For a snapshot with entries the running sum of trimming is the length of
the body plus five. -/
theorem length_toJsonBytes_concat (peers : List PeerEntry)
    (entry : PeerEntry) :
    (PexMessage.pexSnapshot (peers ++ [entry])).toJsonBytes.length + 5 =
      (PexMessage.pexSnapshot []).encode.length +
        (peers.map fun entry => entry.jsonLength + 1).sum +
          (entry.jsonLength + 1) := by
  have charged : (peers.map fun entry => entry.jsonLength + 1).sum =
      (peers.map PeerEntry.jsonLength).sum + peers.length := by
    rw [List.sum_map_add]
    simp
  rw [PexMessage.length_encode, PexMessage.length_toJsonBytes_snapshot,
    PexMessage.length_toJsonBytes_snapshot, charged]
  simp only [Json.bracketedLength, List.map_append, List.map_cons,
    List.map_nil, List.sum_append, List.sum_cons, List.sum_nil,
    List.length_append, List.length_map, List.length_cons, List.length_nil]
  omega

/-- One more entry would come within five bytes of the frame, or exceed it. -/
theorem snapshot_stops {peers left : List PeerEntry} {entry : PeerEntry}
    (split : peers = trimToFrameBudget peers ++ entry :: left) :
    pexMaxFrame - 5 < (PexMessage.pexSnapshot
      (trimToFrameBudget peers ++ [entry])).toJsonBytes.length := by
  have stops := trimFrom_stops split
  have total := length_toJsonBytes_concat (trimToFrameBudget peers) entry
  have room : 5 ≤ pexMaxFrame := by decide
  rw [trimToFrameBudget] at total ⊢
  omega

variable [DefaultHasher]

theorem told_openedLink (engine : PexEngine) (peerId : String) (nowMs : Nat)
    (order : IterationOrder String) (jitter : Jitter) :
    ((engine.linkUp peerId nowMs order jitter).1.link peerId).told =
      FiniteMap.insertAll PeerEntry.peerId PeerEntry.fingerprintHash
        (engine.link peerId).told
        (engine.openingPeers peerId nowMs order) := by
  rw [PexEngine.link_linkUp, if_pos rfl]
  rfl

/-- The snapshot is the longest freshest prefix that fits.  In a state reached
with fewer than `2 ^ 64` changes of the first-hand set, what `link_up` reads is
the advertisable list of the first-hand set.  It sends a prefix of its first
two hundred entries; the body fits a frame, and with the next entry it would
exceed the frame less five bytes; no advertisable entry it leaves out is
fresher than one it sends; and the told map changes at the ids sent and
nowhere else. -/
theorem snapshot_longest_that_fits (cfg : PexConfig) (calls : List Call)
    (peerId : String) (nowMs : Nat) (order : IterationOrder String)
    (jitter : Jitter) (few : knownChanges cfg.localPeerId calls < 2 ^ 64) :
    let engine := engineStep.final (.new cfg) calls
    let list := (engine.advertisableFor order peerId (nowMs / 1000)).1
    let opened := engineStep engine (.linkUp peerId nowMs order jitter)
    ((∀ entry, entry ∈ list ↔
        Advertisable engine peerId (nowMs / 1000) entry) ∧
      list.Pairwise AdvertisedBefore ∧
      (list.map PeerEntry.peerId).Nodup) ∧
    ∃ peers,
      messagesFor peerId (.linkUp peerId nowMs order jitter, opened.2) =
          [engine.handshake, .pexSnapshot peers] ∧
        peers <+: list.take 200 ∧
        (PexMessage.pexSnapshot peers).toJsonBytes.length ≤ pexMaxFrame ∧
        (∀ entry left, list.take 200 = peers ++ entry :: left →
          pexMaxFrame - 5 <
            (PexMessage.pexSnapshot (peers ++ [entry])).toJsonBytes.length) ∧
        (∀ entry, Advertisable engine peerId (nowMs / 1000) entry →
          entry ∉ peers → ∀ sent ∈ peers, entry.lastSeen ≤ sent.lastSeen) ∧
        (∀ sent ∈ peers, (opened.1.link peerId).told[sent.peerId]? =
          some sent.fingerprintHash) ∧
        ∀ id, id ∉ peers.map PeerEntry.peerId →
          (opened.1.link peerId).told[id]? =
            (engine.link peerId).told[id]? := by
  intro engine list opened
  have current : engine.CacheCurrent := cacheCurrent_final cfg calls few
  have members : ∀ entry, entry ∈ list ↔
      Advertisable engine peerId (nowMs / 1000) entry :=
    fun _ => mem_advertisableFor_iff current
  have sorted : list.Pairwise AdvertisedBefore :=
    pairwise_advertisableFor current order peerId _
  have distinct : (list.map PeerEntry.peerId).Nodup :=
    nodup_advertisableFor current order peerId _
  have front : engine.openingPeers peerId nowMs order <+: list.take 200 :=
    trimFrom_isPrefix _ _
  have told := told_openedLink engine peerId nowMs order jitter
  refine ⟨⟨members, sorted, distinct⟩,
    engine.openingPeers peerId nowMs order, ?_, front, snapshot_fits _, ?_,
    ?_, ?_, ?_⟩
  · rw [messagesFor_engineStep]
    exact if_pos rfl
  · intro entry left split
    exact snapshot_stops split
  · intro entry advertisable omitted sent member
    obtain ⟨rest, whole⟩ := front.trans (List.take_prefix 200 list)
    have listed := (members entry).mpr advertisable
    rw [← whole, List.mem_append] at listed
    have behind := listed.resolve_left omitted
    rw [← whole] at sorted
    rcases (List.pairwise_append.mp sorted).2.2 sent member entry behind with
      fresher | ⟨same, -⟩
    · exact fresher.le
    · exact same.ge
  · intro sent member
    have once : ((engine.openingPeers peerId nowMs order).map
        PeerEntry.peerId).Nodup :=
      distinct.sublist
        ((front.sublist.trans (List.take_sublist 200 list)).map _)
    exact told ▸ FiniteMap.getElem?_insertAll_of_mem _ _ once member
  · intro id absent
    exact told ▸ FiniteMap.getElem?_insertAll_of_notMem _ _ absent

omit [DefaultHasher] in
/-- Of two peers whose entries fit a snapshot alone but not together, it
carries the one that comes first on the list, and only this one is told. -/
theorem snapshot_longest_of_two :
    let calls : List Call := [.upsertKnown (longEntry 'd' 140000),
      .upsertKnown (longEntry 'c' 140000)]
    let engine := (@engineStep sipHasher).final
      (.new (exampleConfig (exampleId 'a'))) calls
    let call : Call := .linkUp (exampleId 'b') 1000000 .ascending .zero
    ∃ entry : PeerEntry, entry.peerId = exampleId 'c' ∧
      messagesFor (exampleId 'b')
          (call, (@engineStep sipHasher engine call).2) =
          [engine.handshake, .pexSnapshot [entry]] ∧
        (((@engineStep sipHasher engine call).1.link
          (exampleId 'b')).told[exampleId 'd']?) = none := by
  intro calls engine call
  let _ := sipHasher
  have ids : (engine.advertisableFor .ascending (exampleId 'b')
      (1000000 / 1000)).1.map PeerEntry.peerId =
        [exampleId 'c', exampleId 'd'] := by
    decide +kernel
  have digits : isHex64 (exampleId 'c') = true ∧
      isHex64 (exampleId 'd') = true := by
    decide +kernel
  have stocked : Stocked (fun entry => entry.jsonLength = 140198) engine := by
    refine stocked_final _ calls fun entry member => ?_
    simp only [calls, List.mem_cons, Call.upsertKnown.injEq,
      List.not_mem_nil, or_false] at member
    rcases member with rfl | rfl
    · exact jsonLength_longEntry digits.2 140000
    · exact jsonLength_longEntry digits.1 140000
  obtain ⟨-, peers, sent, front, fits, stops, -, -, others⟩ :=
    snapshot_longest_that_fits (exampleConfig (exampleId 'a')) calls
      (exampleId 'b') 1000000 .ascending .zero (by decide +kernel)
  obtain ⟨first, second, list⟩ := List.length_eq_two.mp
    ((List.length_map PeerEntry.peerId).symm.trans (congrArg List.length ids))
  have long (entry : PeerEntry) (listed : entry ∈ [first, second]) :
      entry.jsonLength = 140198 := by
    rw [← list] at listed
    exact stocked.advertisableFor listed
  have firstLong := long first (by simp)
  have secondLong := long second (by simp)
  have whole : (engine.advertisableFor .ascending (exampleId 'b')
      (1000000 / 1000)).1.take 200 = [first, second] := by
    rw [list]
    rfl
  have lengths (peers : List PeerEntry) :
      (PexMessage.pexSnapshot peers).toJsonBytes.length =
        32 + Json.bracketedLength (peers.map PeerEntry.jsonLength) :=
    PexMessage.length_toJsonBytes_snapshot peers
  rw [whole] at front
  have one : peers = [first] := by
    rcases List.prefix_cons_iff.mp front with rfl | ⟨rest, rfl, second⟩
    · have stopped := stops first [second] whole
      rw [lengths] at stopped
      simp [Json.bracketedLength, firstLong, pexMaxFrame] at stopped
    · rcases List.prefix_cons_iff.mp second with rfl | ⟨rest, rfl, -⟩
      · rfl
      · rw [lengths] at fits
        simp only [Json.bracketedLength, firstLong, secondLong,
          List.map_cons, List.sum_cons, pexMaxFrame] at fits
        omega
  rw [list] at ids
  obtain ⟨here, -⟩ := List.cons.inj ids
  subst one
  refine ⟨first, here, sent, (others _ ?_).trans (by decide +kernel)⟩
  rw [List.map_singleton, here, List.mem_singleton]
  decide +kernel

omit [DefaultHasher] in
/-- With `2 ^ 64` changes of the first-hand set in one second, a link is opened
with the list cached before the first of them: an empty snapshot, though there
is an advertisable peer and plenty of room for it. -/
theorem wrapped_epoch_shortens_snapshot :
    let entry := exampleEntry 'c' 1000 9444
    let engine := (@engineStep sipHasher).final
      (.new (exampleConfig (exampleId 'a')))
      ([.linkUp (exampleId 'e') 1000000 .ascending .zero,
          .upsertKnown entry] ++
        List.replicate (2 ^ 64 - 1) (.removeKnown ""))
    let call : Call := .linkUp (exampleId 'b') 1000000 .ascending .zero
    Advertisable engine (exampleId 'b') 1000 entry ∧
      messagesFor (exampleId 'b')
          (call, (@engineStep sipHasher engine call).2) =
        [engine.handshake, .pexSnapshot []] ∧
      (PexMessage.pexSnapshot [entry]).toJsonBytes.length ≤
        pexMaxFrame - 5 := by
  intro entry engine call
  have wrapped := @final_wrapped sipHasher
    (.new (exampleConfig (exampleId 'a')))
    [.linkUp (exampleId 'e') 1000000 .ascending .zero, .upsertKnown entry]
    _ rfl (by decide +kernel) (by decide +kernel)
  have empty : engine.openingPeers (exampleId 'b') 1000000 .ascending = [] := by
    simp only [engine]
    rw [wrapped]
    decide +kernel
  refine ⟨?_, ?_, by decide +kernel⟩
  · simp only [engine]
    rw [wrapped]
    exact ⟨by decide +kernel, by decide +kernel, by decide +kernel,
      by decide +kernel⟩
  · rw [@messagesFor_engineStep sipHasher]
    simp only [call, if_true, empty]

end DigPex
