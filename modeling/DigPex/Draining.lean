import DigPex.Isolation
import DigPex.Library.CatchUp
import DigPex.Opening
import DigPex.Stock

/-!
# How the delta queue drains

A delta is one round of catching up with the advertisable list.  So while the
list stands still, every eligible tick sends the next fifty pending entries
and drops fifty stale ids, and after as many ticks as the longer queue needs
the told map is the list.
-/

namespace DigPex

variable [DefaultHasher]

namespace PexEngine

variable (engine : PexEngine)

/-- The advertisable entries a link was not told as they are now. -/
def pendingEntries (order : IterationOrder String) (peerId : String)
    (nowSecs : Nat) : List PeerEntry :=
  (engine.advertisableFor order peerId nowSecs).1.filter
    (engine.link peerId).isPending

omit [DefaultHasher] in
/-- The ids a link was told that are no longer advertisable. -/
def staleIds (order : IterationOrder String) (peerId : String)
    (nowSecs : Nat) : List String :=
  (engine.link peerId).told.keys.filter fun id =>
    !((engine.advertisableFor order peerId nowSecs).1.map
      PeerEntry.peerId).contains id

end PexEngine

/-- A delta is a round of catching up with what is advertisable. -/
theorem LinkState.deltaAgainst_round (link : LinkState)
    (toldOrder : IterationOrder String) (advertisable : List PeerEntry) :
    CatchUp.Round PeerEntry.peerId PeerEntry.fingerprintHash advertisable 50
      link.told (link.deltaAgainst toldOrder advertisable).1
      (link.deltaAgainst toldOrder advertisable).2 := by
  have arranged : ((toldOrder.arrange link.told.keys).filter fun id =>
      !(advertisable.map PeerEntry.peerId).contains id).Perm
        (CatchUp.stale PeerEntry.peerId advertisable link.told) :=
    (toldOrder.perm _).filter _
  constructor
  · rfl
  · rw [deltaAgainst, (List.perm_insertionSort _ _).nodup_iff]
    exact (arranged.nodup_iff.mpr CatchUp.nodup_stale).sublist
      (List.take_sublist _ _)
  · intro id dropped
    exact CatchUp.mem_stale.mpr (mem_deltaAgainst_dropped dropped)
  · rw [deltaAgainst, List.length_insertionSort, List.length_take,
      arranged.length_eq]
    rfl

/-- The messages that carry a delta: none when it is empty. -/
def deltaMessages (added : List PeerEntry) (dropped : List String) :
    List PexMessage :=
  if added = [] ∧ dropped = [] then [] else [.pexDelta added dropped]

/-- Whether a link is open and its send interval has elapsed. -/
def LinkState.isDue (link : LinkState) (nowMs : Nat) : Bool :=
  link.snapshotSent && link.sendDue nowMs

/-- Whether a call is a tick at which a link is due. -/
def PexEngine.eligible (engine : PexEngine) (peerId : String) : Call → Bool
  | .tick nowMs _ _ => (engine.link peerId).isDue nowMs
  | _ => false

/-- The number of ticks of a run that are eligible for a link. -/
def eligibleTicks (peerId : String) (engine : PexEngine)
    (calls : List Call) : Nat :=
  ((engineStep.observed fun state call =>
    state.eligible peerId call).outputs engine calls).count true

theorem messagesFor_of_eligible {engine : PexEngine} {peerId : String}
    {nowMs : Nat} {orders : TickOrders} {jitter : String → Jitter}
    (eligible : engine.eligible peerId (.tick nowMs orders jitter) = true) :
    messagesFor peerId (.tick nowMs orders jitter,
        (engineStep engine (.tick nowMs orders jitter)).2) =
      let delta := (engine.link peerId).deltaAgainst (orders.told peerId)
        (engine.advertisableFor orders.known peerId (nowMs / 1000)).1
      deltaMessages delta.1 delta.2 := by
  rw [messagesFor_engineStep]
  simp only [PexEngine.eligible, LinkState.isDue] at eligible
  simp only [PexEngine.dueDelta, LinkState.dueDelta, eligible, if_true,
    deltaMessages, List.isEmpty_iff, Bool.and_eq_true]
  split
  · rfl
  · rfl

theorem messagesFor_of_not_eligible {engine : PexEngine} {peerId : String}
    {call : Call} (opens : call.opens peerId = false)
    (eligible : engine.eligible peerId call = false) :
    messagesFor peerId (call, (engineStep engine call).2) = [] := by
  rw [messagesFor_engineStep]
  cases call with
  | linkUp opened nowMs order jitter =>
      have other : opened ≠ peerId := by simpa [Call.opens] using opens
      exact if_neg other
  | tick nowMs orders jitter =>
      simp only [PexEngine.eligible, LinkState.isDue] at eligible
      simp [PexEngine.dueDelta, LinkState.dueDelta, eligible]
  | _ => rfl

omit [DefaultHasher] in
theorem pairwise_advertisableFor {engine : PexEngine}
    (current : engine.CacheCurrent) (order : IterationOrder String)
    (partner : String) (nowSecs : Nat) :
    (engine.advertisableFor order partner nowSecs).1.Pairwise
      AdvertisedBefore := by
  rw [PexEngine.advertisableFor, current.advertisableCached_fst]
  exact (List.pairwise_insertionSort _ _).sublist List.filter_sublist

omit [DefaultHasher] in
theorem advertisableFor_eq_of_iff {left right : PexEngine}
    (leftCurrent : left.CacheCurrent) (rightCurrent : right.CacheCurrent)
    {partner : String} {leftSecs rightSecs : Nat}
    (same : ∀ entry, Advertisable left partner leftSecs entry ↔
      Advertisable right partner rightSecs entry)
    (leftOrder rightOrder : IterationOrder String) :
    (left.advertisableFor leftOrder partner leftSecs).1 =
      (right.advertisableFor rightOrder partner rightSecs).1 := by
  have members : ∀ entry,
      entry ∈ (left.advertisableFor leftOrder partner leftSecs).1 ↔
        entry ∈ (right.advertisableFor rightOrder partner rightSecs).1 := by
    intro entry
    rw [mem_advertisableFor_iff leftCurrent,
      mem_advertisableFor_iff rightCurrent, same]
  apply @List.Perm.eq_of_pairwise _ AdvertisedBefore
  · intro first second firstMember secondMember forward backward
    have ids := forward.peerId_eq backward
    have firstKnown :=
      ((mem_advertisableFor_iff leftCurrent).mp firstMember).current
    have secondKnown := ((mem_advertisableFor_iff leftCurrent).mp
      ((members second).mpr secondMember)).current
    rw [ids, secondKnown] at firstKnown
    exact (Option.some.inj firstKnown).symm
  · exact pairwise_advertisableFor leftCurrent _ _ _
  · exact pairwise_advertisableFor rightCurrent _ _ _
  · exact (List.perm_ext_iff_of_nodup
      (nodup_advertisableFor leftCurrent _ _ _).of_map
      (nodup_advertisableFor rightCurrent _ _ _).of_map).mpr members

/-! ## While the advertisable list stands still -/

/-- A call during which the queue of a link only drains: the link is neither
opened nor taken down, and at an eligible tick the same entries are
advertisable to it as at a reference second of the state `start`. -/
structure Steady (start : PexEngine) (peerId : String) (nowSecs : Nat)
    (engine : PexEngine) (call : Call) : Prop where
  opens : call.opens peerId = false
  up : call.inbound peerId ≠ some .down
  advertisable : ∀ nowMs orders jitter, call = .tick nowMs orders jitter →
    engine.eligible peerId call = true → ∀ entry,
      Advertisable engine peerId (nowMs / 1000) entry ↔
        Advertisable start peerId nowSecs entry

/-- What is left of both queues after a number of rounds. -/
structure Drained (start : PexEngine) (peerId : String) (nowSecs : Nat)
    (order : IterationOrder String) (rounds : Nat) (engine : PexEngine) :
    Prop where
  pending : CatchUp.pending PeerEntry.peerId PeerEntry.fingerprintHash
    (start.advertisableFor order peerId nowSecs).1
    (engine.link peerId).told =
      (start.pendingEntries order peerId nowSecs).drop (50 * rounds)
  stale : (CatchUp.stale PeerEntry.peerId
    (start.advertisableFor order peerId nowSecs).1
    (engine.link peerId).told).length =
      (start.staleIds order peerId nowSecs).length - 50 * rounds

section Step

variable {start engine : PexEngine} {peerId : String} {nowSecs rounds : Nat}
  {order : IterationOrder String}

theorem Steady.delta (startCurrent : start.CacheCurrent)
    (current : engine.CacheCurrent) {nowMs : Nat} {orders : TickOrders}
    {jitter : String → Jitter}
    (steady : Steady start peerId nowSecs engine (.tick nowMs orders jitter))
    (eligible : engine.eligible peerId (.tick nowMs orders jitter) = true)
    (order : IterationOrder String) :
    ∃ added dropped,
      messagesFor peerId (.tick nowMs orders jitter,
        (engineStep engine (.tick nowMs orders jitter)).2) =
          deltaMessages added dropped ∧
      CatchUp.Round PeerEntry.peerId PeerEntry.fingerprintHash
        (start.advertisableFor order peerId nowSecs).1 50
        (engine.link peerId).told added dropped := by
  have list := advertisableFor_eq_of_iff current startCurrent
    (steady.advertisable _ _ _ rfl eligible) orders.known order
  refine ⟨_, _, messagesFor_of_eligible eligible, ?_⟩
  rw [list]
  exact (engine.link peerId).deltaAgainst_round _ _

theorem told_deltaMessages (told : Std.ExtTreeMap String UInt64)
    (added : List PeerEntry) (dropped : List String) :
    (deltaMessages added dropped).foldl tell told =
      CatchUp.advance PeerEntry.peerId PeerEntry.fingerprintHash told added
        dropped := by
  unfold deltaMessages
  split
  · rename_i empty
    rw [empty.1, empty.2]
    rfl
  · rfl

theorem Drained.step (startCurrent : start.CacheCurrent)
    (current : engine.CacheCurrent) {call : Call}
    (steady : Steady start peerId nowSecs engine call)
    (drained : Drained start peerId nowSecs order rounds engine) :
    Drained start peerId nowSecs order
      (rounds + if engine.eligible peerId call then 1 else 0)
      (engineStep engine call).1 := by
  have told := told_engineStep engine call peerId
  rw [if_neg steady.up] at told
  cases eligible : engine.eligible peerId call with
  | false =>
      rw [messagesFor_of_not_eligible steady.opens eligible,
        List.foldl_nil] at told
      rw [if_neg Bool.false_ne_true, Nat.add_zero]
      exact ⟨told ▸ drained.pending, told ▸ drained.stale⟩
  | true =>
      cases call with
      | tick nowMs orders jitter =>
          obtain ⟨added, dropped, messages, round⟩ :=
            steady.delta startCurrent current eligible order
          rw [messages, told_deltaMessages] at told
          have distinct := nodup_advertisableFor startCurrent order peerId
            nowSecs
          rw [if_pos rfl]
          constructor
          · rw [told, round.pending_advance distinct, drained.pending,
              List.drop_drop]
            rfl
          · rw [told, round.length_stale_advance, drained.stale]
            omega
      | _ => cases eligible

theorem Drained.delta (startCurrent : start.CacheCurrent)
    (current : engine.CacheCurrent) {nowMs : Nat} {orders : TickOrders}
    {jitter : String → Jitter}
    (steady : Steady start peerId nowSecs engine (.tick nowMs orders jitter))
    (drained : Drained start peerId nowSecs order rounds engine)
    (eligible : engine.eligible peerId (.tick nowMs orders jitter) = true) :
    ∃ added dropped,
      messagesFor peerId (.tick nowMs orders jitter,
        (engineStep engine (.tick nowMs orders jitter)).2) =
          deltaMessages added dropped ∧
      added = ((start.pendingEntries order peerId nowSecs).drop
        (50 * rounds)).take 50 ∧
      added.length = min 50
        ((start.pendingEntries order peerId nowSecs).length - 50 * rounds) ∧
      dropped.length = min 50
        ((start.staleIds order peerId nowSecs).length - 50 * rounds) := by
  obtain ⟨added, dropped, messages, round⟩ :=
    steady.delta startCurrent current eligible order
  have front := round.front
  rw [drained.pending] at front
  refine ⟨added, dropped, messages, front, ?_, ?_⟩
  · rw [front, List.length_take, List.length_drop]
  · rw [round.count, drained.stale]

theorem Drained.caught_up (startCurrent : start.CacheCurrent)
    (drained : Drained start peerId nowSecs order rounds engine)
    (pendingGone : (start.pendingEntries order peerId nowSecs).length ≤
      50 * rounds)
    (staleGone : (start.staleIds order peerId nowSecs).length ≤ 50 * rounds)
    (id : String) (hash : UInt64) :
    (engine.link peerId).told[id]? = some hash ↔
      ∃ entry, Advertisable start peerId nowSecs entry ∧
        entry.peerId = id ∧ entry.fingerprintHash = hash := by
  have nonePending : CatchUp.pending PeerEntry.peerId
      PeerEntry.fingerprintHash
      (start.advertisableFor order peerId nowSecs).1
      (engine.link peerId).told = [] := by
    rw [drained.pending]
    exact List.drop_eq_nil_of_le pendingGone
  have noneStale : CatchUp.stale PeerEntry.peerId
      (start.advertisableFor order peerId nowSecs).1
      (engine.link peerId).told = [] := by
    apply List.length_eq_zero_iff.mp
    rw [drained.stale]
    exact Nat.sub_eq_zero_of_le staleGone
  rw [CatchUp.caught_up nonePending noneStale]
  simp only [mem_advertisableFor_iff startCurrent]

end Step

omit [DefaultHasher] in
theorem knownChanges_le_append (localPeerId : String)
    (earlier later : List Call) :
    knownChanges localPeerId earlier ≤
      knownChanges localPeerId (earlier ++ later) := by
  simp [knownChanges, List.countP_append]

theorem eligibleTicks_concat (peerId : String) (engine : PexEngine)
    (calls : List Call) (call : Call) :
    eligibleTicks peerId engine (calls ++ [call]) =
      eligibleTicks peerId engine calls +
        if (engineStep.final engine calls).eligible peerId call then 1
        else 0 := by
  rw [eligibleTicks, Machine.outputs_observed_concat, List.count_append,
    List.count_singleton]
  simp only [beq_true]
  rfl

/-- After a run of calls that only drain, both queues are shorter by fifty for
each eligible tick. -/
theorem drained_final (cfg : PexConfig) (calls later : List Call)
    (peerId : String) (nowSecs : Nat) (order : IterationOrder String)
    (few : knownChanges cfg.localPeerId (calls ++ later) < 2 ^ 64)
    (steady : engineStep.Along
      (Steady (engineStep.final (.new cfg) calls) peerId nowSecs)
      (engineStep.final (.new cfg) calls) later) :
    Drained (engineStep.final (.new cfg) calls) peerId nowSecs order
      (eligibleTicks peerId (engineStep.final (.new cfg) calls) later)
      (engineStep.final (.new cfg) (calls ++ later)) := by
  induction later using List.reverseRecOn with
  | nil =>
      rw [List.append_nil]
      exact ⟨rfl, rfl⟩
  | append_singleton later call induction =>
      obtain ⟨before, here⟩ := (Machine.along_append _ _ _ _).mp steady
      rw [← List.append_assoc] at few ⊢
      have earlier := (knownChanges_le_append cfg.localPeerId (calls ++ later)
        [call]).trans_lt few
      have start := (knownChanges_le_append cfg.localPeerId calls
        later).trans_lt earlier
      have last := here.1
      rw [← Machine.final_append] at last
      rw [Machine.final_concat, eligibleTicks_concat, ← Machine.final_append]
      exact (induction earlier before).step
        (cacheCurrent_final cfg calls start)
        (cacheCurrent_final cfg (calls ++ later) earlier) last

/-- The delta queue drains completely and exactly.  Take a state reached with
fewer than `2 ^ 64` changes of the first-hand set, and a run from it that
neither opens nor closes a link and finds the same entries advertisable to it
at every eligible tick.  After `k` eligible ticks the next one sends exactly
the following fifty pending entries, freshest first, and drops exactly fifty
of the remaining stale ids, or what is left, and sends nothing when both are
used up; and once there were enough ticks for both, the told map holds exactly
what is advertisable, for every order of the maps. -/
theorem delta_queue_drains (cfg : PexConfig) (calls later : List Call)
    (peerId : String) (nowSecs : Nat) (order : IterationOrder String)
    (few : knownChanges cfg.localPeerId (calls ++ later) < 2 ^ 64)
    (steady : engineStep.Along
      (Steady (engineStep.final (.new cfg) calls) peerId nowSecs)
      (engineStep.final (.new cfg) calls) later) :
    let start := engineStep.final (.new cfg) calls
    let pending := start.pendingEntries order peerId nowSecs
    let stale := (start.staleIds order peerId nowSecs).length
    pending.Pairwise AdvertisedBefore ∧
      (∀ earlier nowMs orders jitter rest,
        later = earlier ++ .tick nowMs orders jitter :: rest →
        let engine := engineStep.final start earlier
        let k := eligibleTicks peerId start earlier
        engine.eligible peerId (.tick nowMs orders jitter) = true →
          ∃ added dropped,
            messagesFor peerId (.tick nowMs orders jitter,
              (engineStep engine (.tick nowMs orders jitter)).2) =
                (if added = [] ∧ dropped = [] then []
                else [.pexDelta added dropped]) ∧
            added = (pending.drop (50 * k)).take 50 ∧
            added.length = min 50 (pending.length - 50 * k) ∧
            dropped.length = min 50 (stale - 50 * k)) ∧
      (max ((pending.length + 49) / 50) ((stale + 49) / 50) ≤
          eligibleTicks peerId start later →
        ∀ (id : String) (hash : UInt64),
          ((engineStep.final start later).link peerId).told[id]? =
              some hash ↔
            ∃ entry, Advertisable start peerId nowSecs entry ∧
              entry.peerId = id ∧ entry.fingerprintHash = hash) := by
  intro start pending stale
  have counts : ∀ earlier rest, later = earlier ++ rest →
      knownChanges cfg.localPeerId (calls ++ earlier) < 2 ^ 64 := by
    rintro earlier rest rfl
    rw [← List.append_assoc] at few
    exact (knownChanges_le_append _ _ _).trans_lt few
  have current : ∀ earlier rest, later = earlier ++ rest →
      (engineStep.final start earlier).CacheCurrent := by
    intro earlier rest split
    rw [← Machine.final_append]
    exact cacheCurrent_final cfg _ (counts earlier rest split)
  have drained : ∀ earlier rest, later = earlier ++ rest →
      Drained start peerId nowSecs order (eligibleTicks peerId start earlier)
        (engineStep.final start earlier) := by
    intro earlier rest split
    have before := steady
    rw [split] at before
    rw [← Machine.final_append]
    exact drained_final cfg calls earlier peerId nowSecs order
      (counts earlier rest split) ((Machine.along_append _ _ _ _).mp before).1
  have startCurrent := current [] later rfl
  refine ⟨?_, ?_, ?_⟩
  · exact (pairwise_advertisableFor startCurrent order peerId
      nowSecs).sublist List.filter_sublist
  · intro earlier nowMs orders jitter rest split engine k eligible
    have here := (Machine.along_iff _ _ _).mp steady earlier _ rest split
    exact (drained earlier _ split).delta startCurrent
      (current earlier _ split) here eligible
  · intro enough id hash
    have rounds := max_le_iff.mp enough
    have pendingGone : pending.length ≤
        50 * eligibleTicks peerId start later := by
      omega
    have staleGone : stale ≤ 50 * eligibleTicks peerId start later := by
      omega
    exact (drained later [] (List.append_nil _).symm).caught_up startCurrent
      pendingGone staleGone id hash

theorem advertisable_engineStep_tick {start : PexEngine} {partner : String}
    {earlier later : Nat} (elapsed : earlier ≤ later)
    (fresh : ∀ (id : String) (entry : PeerEntry),
      start.known.entries[id]? = some entry →
        later ≤ entry.lastSeen + pexMaxEntryAge)
    (nowMs : Nat) (orders : TickOrders) (jitter : String → Jitter)
    (entry : PeerEntry) :
    Advertisable (engineStep start (.tick nowMs orders jitter)).1 partner later
        entry ↔ Advertisable start partner earlier entry := by
  have known : (engineStep start (.tick nowMs orders jitter)).1.known =
      start.known := known_engineStep start _
  have cfg := cfg_engineStep start (.tick nowMs orders jitter)
  constructor
  · intro listed
    exact ⟨known ▸ listed.current, cfg ▸ listed.notLocal, listed.notPartner,
      elapsed.trans listed.fresh⟩
  · intro listed
    exact ⟨known ▸ listed.current, cfg ▸ listed.notLocal, listed.notPartner,
      fresh _ _ listed.current⟩

omit [DefaultHasher] in
/-- A link that was told one peer, which then left, while fifty-two others
came: two eligible ticks bring its told map up to date, and the second one
sends what the first had no room for. -/
theorem delta_queue_drains_two_rounds :
    let calls : List Call := [.upsertKnown (exampleEntry 'c' 1000 9444),
      .linkUp (exampleId 'b') 1000000 .ascending .zero,
      .removeKnown (exampleId 'c')] ++
        (List.range 52).map fun index => .upsertKnown (numberedEntry index)
    let first : Call := .tick 1060000 exampleOrders fun _ => .zero
    let second : Call := .tick 1120000 exampleOrders fun _ => .zero
    let start := (@engineStep sipHasher).final
      (.new (exampleConfig (exampleId 'a'))) calls
    let engine := (@engineStep sipHasher start first).1
    (@PexEngine.pendingEntries sipHasher start .ascending (exampleId 'b')
        1060).length = 52 ∧
      start.staleIds .ascending (exampleId 'b') 1060 = [exampleId 'c'] ∧
      (∃ added, messagesFor (exampleId 'b')
          (second, (@engineStep sipHasher engine second).2) =
            [.pexDelta added []] ∧ added.length = 2) ∧
      ∀ (id : String) (hash : UInt64),
        (((@engineStep sipHasher).final start [first, second]).link
          (exampleId 'b')).told[id]? = some hash ↔
            ∃ entry, Advertisable start (exampleId 'b') 1060 entry ∧
              entry.peerId = id ∧
              @PeerEntry.fingerprintHash sipHasher entry = hash := by
  intro calls first second start engine
  let _ := sipHasher
  obtain ⟨many, one, due⟩ :
      (start.pendingEntries .ascending (exampleId 'b') 1060).length = 52 ∧
        start.staleIds .ascending (exampleId 'b') 1060 = [exampleId 'c'] ∧
        eligibleTicks (exampleId 'b') start [first, second] = 2 := by
    decide +kernel
  have fresh : Stocked (fun entry => entry.lastSeen = 1000) start := by
    refine stocked_final _ calls fun entry member => ?_
    simp only [calls, List.mem_append, List.mem_cons, List.mem_map,
      List.not_mem_nil, or_false, reduceCtorEq, Call.upsertKnown.injEq]
      at member
    rcases member with rfl | ⟨index, -, rfl⟩
    · rfl
    · rfl
  have steady : engineStep.Along (Steady start (exampleId 'b') 1060) start
      [first, second] := by
    refine ⟨⟨rfl, by decide, ?_⟩, ⟨rfl, by decide, ?_⟩, trivial⟩
    · intro nowMs orders jitter call _ entry
      obtain ⟨rfl, -, -⟩ := Call.tick.inj call
      exact Iff.rfl
    · intro nowMs orders jitter call _ entry
      obtain ⟨rfl, -, -⟩ := Call.tick.inj call
      refine advertisable_engineStep_tick (by decide) (fun id entry lookup =>
        ?_) _ _ _ entry
      rw [fresh.known id entry lookup]
      decide
  obtain ⟨-, rounds, caughtUp⟩ := delta_queue_drains
    (exampleConfig (exampleId 'a')) calls [first, second] (exampleId 'b') 1060
    .ascending (by decide +kernel) steady
  refine ⟨many, one, ?_, caughtUp ?_⟩
  · obtain ⟨added, dropped, sent, -, rest, none⟩ := rounds [first] 1120000
      exampleOrders (fun _ => .zero) [] rfl (by decide +kernel)
    have once : eligibleTicks (exampleId 'b') start [first] = 1 := by
      decide +kernel
    rw [once] at rest none
    rw [many] at rest
    rw [one] at none
    have empty : dropped = [] := List.length_eq_zero_iff.mp none
    have some : added ≠ [] := by
      rintro rfl
      cases rest
    rw [if_neg fun nothing => some nothing.1, empty] at sent
    exact ⟨added, sent, rest⟩
  · rw [due]
    simp only [start] at many one
    rw [many, one]
    decide

/-- Removals of an absent peer take the epoch back to zero. -/
theorem final_wrapped (start : PexEngine) (calls : List Call)
    {before : PexEngine} (after : engineStep.final start calls = before)
    (absent : "" ∉ before.known.entries) (epoch : before.knownEpoch = 1) :
    engineStep.final start
        (calls ++ List.replicate (2 ^ 64 - 1) (.removeKnown "")) =
      { before with knownEpoch := 0 } := by
  rw [Machine.final_append, after,
    final_replicate_removeKnown before absent (by omega), epoch]
  norm_num

omit [DefaultHasher] in
/-- With `2 ^ 64` changes of the first-hand set in one second, an eligible
tick reads the list cached before the first of them and sends nothing, though
an advertisable peer was never told. -/
theorem wrapped_epoch_stalls :
    let entry := exampleEntry 'c' 1000 9444
    let tick : Call := .tick 1060000 exampleOrders fun _ => .zero
    let engine := (@engineStep sipHasher).final
      (.new (exampleConfig (exampleId 'a')))
      ([.linkUp (exampleId 'b') 1000000 .ascending .zero,
          .linkUp (exampleId 'e') 1060000 .ascending .zero,
          .upsertKnown entry] ++
        List.replicate (2 ^ 64 - 1) (.removeKnown ""))
    engine.eligible (exampleId 'b') tick = true ∧
      Advertisable engine (exampleId 'b') 1060 entry ∧
      (engine.link (exampleId 'b')).told[entry.peerId]? = none ∧
      messagesFor (exampleId 'b')
        (tick, (@engineStep sipHasher engine tick).2) = [] := by
  intro entry tick engine
  have wrapped := @final_wrapped sipHasher
    (.new (exampleConfig (exampleId 'a')))
    [.linkUp (exampleId 'b') 1000000 .ascending .zero,
      .linkUp (exampleId 'e') 1060000 .ascending .zero, .upsertKnown entry]
    _ rfl (by decide +kernel) (by decide +kernel)
  simp only [engine]
  rw [wrapped]
  exact ⟨by decide +kernel, ⟨by decide +kernel, by decide +kernel,
    by decide +kernel, by decide +kernel⟩, by decide +kernel,
    by decide +kernel⟩

end DigPex
