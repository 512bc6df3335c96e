import DigPex.Draining

/-!
# Where iteration order shows in a delta

The base list is sorted before it is read, so the order of the first-hand set
never shows.  The told map is scanned up to the cap first and sorted
afterwards, so its order shows exactly when more than fifty told ids are no
longer advertisable.  Two engines with the same history therefore send the
same deltas as long as that does not happen.
-/

namespace DigPex

namespace PexEngine

theorem advertisableCached_eq (engine : PexEngine)
    (left right : IterationOrder String) (nowSecs : Nat) :
    engine.advertisableCached left nowSecs =
      engine.advertisableCached right nowSecs := by
  simp only [advertisableCached, rebuildAdvertisable,
    advertisableBase_eq engine.known engine.cfg.localPeerId left right]

theorem advertisableFor_eq (engine : PexEngine)
    (left right : IterationOrder String) (partner : String) (nowSecs : Nat) :
    engine.advertisableFor left partner nowSecs =
      engine.advertisableFor right partner nowSecs := by
  simp only [advertisableFor, engine.advertisableCached_eq left right]

end PexEngine

variable [DefaultHasher]

namespace PexEngine

variable (engine : PexEngine) {peerId : String} {nowSecs nowMs : Nat}

/-- A delta is the same for all iteration orders exactly when at most fifty
told ids are no longer advertisable. -/
theorem buildDelta_fst_eq_iff :
    (∀ leftKnown leftTold rightKnown rightTold,
      (engine.buildDelta leftKnown leftTold peerId nowSecs).1 =
        (engine.buildDelta rightKnown rightTold peerId nowSecs).1) ↔
      (engine.staleIds .ascending peerId nowSecs).length ≤ 50 := by
  have scans := @IterationOrder.cappedScan_eq_iff String _
    (fun id => !((engine.advertisableFor .ascending peerId
      nowSecs).1.map PeerEntry.peerId).contains id)
    50 (engine.link peerId).told.keys Std.ExtTreeMap.nodup_keys (by decide)
  rw [staleIds, ← scans]
  constructor
  · intro same left right
    exact congrArg Prod.snd (same .ascending left .ascending right)
  · intro same leftKnown leftTold rightKnown rightTold
    simp only [buildDelta, engine.advertisableFor_eq _ .ascending]
    exact Prod.ext rfl (same leftTold rightTold)

/-- At a tick, no link that is due was told more than fifty ids that are no
longer advertisable to it. -/
def DropsFit (engine : PexEngine) : Call → Prop
  | .tick nowMs _ _ => ∀ peerId, (engine.link peerId).isDue nowMs = true →
      (engine.staleIds .ascending peerId (nowMs / 1000)).length ≤ 50
  | _ => True

variable {engine}

theorem dueDelta_eq
    (fits : (engine.link peerId).isDue nowMs = true →
      (engine.staleIds .ascending peerId (nowMs / 1000)).length ≤ 50)
    (left right : TickOrders) :
    engine.dueDelta nowMs left peerId = engine.dueDelta nowMs right peerId := by
  unfold dueDelta LinkState.dueDelta
  split
  · rename_i due
    have same := engine.buildDelta_fst_eq_iff.mpr (fits due)
      left.known (left.told peerId) right.known (right.told peerId)
    simp only [buildDelta] at same
    rw [same]
  · rfl

theorem cache_tickLink (orders : TickOrders) (jitter : String → Jitter) :
    (tickLink nowMs orders jitter engine peerId).1.advertisableCache =
      if (engine.link peerId).isDue nowMs = true then
        some (engine.knownEpoch, nowMs / 1000,
          (engine.advertisableCached .ascending (nowMs / 1000)).1)
      else engine.advertisableCache := by
  have read : (engine.advertisableCached orders.known
      (nowMs / 1000)).2.advertisableCache =
        some (engine.knownEpoch, nowMs / 1000,
          (engine.advertisableCached .ascending (nowMs / 1000)).1) := by
    rw [engine.advertisableCached_eq orders.known .ascending,
      advertisableCached_snd]
  unfold tickLink LinkState.isDue
  cases sent : (engine.link peerId).snapshotSent
  · simp [sent]
  · cases due : (engine.link peerId).sendDue nowMs
    · simp [sent, due]
    · simp only [sent, due, Bool.and_self, if_true, Bool.not_true,
        Bool.or_self, Bool.false_eq_true, if_false]
      split
      · exact read
      · exact read

theorem cache_tickLoop (orders : TickOrders) (jitter : String → Jitter)
    (peerIds : List String) (distinct : peerIds.Nodup)
    (present : ∀ id ∈ peerIds, id ∈ engine.links) :
    ((tickLink nowMs orders jitter).final engine peerIds).advertisableCache =
      if ∃ id ∈ peerIds, (engine.link id).isDue nowMs = true then
        some (engine.knownEpoch, nowMs / 1000,
          (engine.advertisableCached .ascending (nowMs / 1000)).1)
      else engine.advertisableCache := by
  induction peerIds generalizing engine with
  | nil => simp
  | cons peerId peerIds induction =>
      obtain ⟨fresh, distinct⟩ := List.nodup_cons.mp distinct
      have here := present peerId List.mem_cons_self
      have frame := (tickLink_spec nowMs orders jitter engine peerId here).1
      have apart : ∀ id ∈ peerIds, peerId ≠ id := by
        rintro id member rfl
        exact fresh member
      have list := frame.advertisableCached_fst
      rw [advertisableCached_eq _ orders.known .ascending,
        advertisableCached_eq _ orders.known .ascending] at list
      have due : ∀ id ∈ peerIds,
          (tickLink nowMs orders jitter engine peerId).1.link id =
            engine.link id :=
        fun id member => link_congr
          (getElem?_tickLink_of_ne nowMs orders jitter here (apart id member))
          frame.cfg
      have remain : ∀ id ∈ peerIds,
          id ∈ (tickLink nowMs orders jitter engine peerId).1.links :=
        fun id member =>
          (mem_tickLink_of_ne nowMs orders jitter here (apart id member)).mpr
            (present id (List.mem_cons_of_mem _ member))
      have later := induction distinct remain
      rw [Machine.final_cons, later, list, frame.knownEpoch, cache_tickLink]
      have same : (∃ id ∈ peerIds, ((tickLink nowMs orders jitter engine
          peerId).1.link id).isDue nowMs = true) ↔
            ∃ id ∈ peerIds, (engine.link id).isDue nowMs = true := by
        refine exists_congr fun id => and_congr_right fun member => ?_
        rw [due id member]
      simp only [same, List.exists_mem_cons_iff]
      by_cases first : (engine.link peerId).isDue nowMs = true
      · simp only [first, if_true, true_or, ite_self]
      · simp only [first, Bool.false_eq_true, if_false, false_or]

theorem cache_tick (orders : TickOrders) (jitter : String → Jitter) :
    (engine.tick nowMs orders jitter).1.advertisableCache =
      if ∃ id ∈ engine.links.keys, (engine.link id).isDue nowMs = true then
        some (engine.knownEpoch, nowMs / 1000,
          (engine.advertisableCached .ascending (nowMs / 1000)).1)
      else engine.advertisableCache := by
  rw [tick, cache_tickLoop orders jitter _
    ((orders.links.perm _).nodup_iff.mpr Std.ExtTreeMap.nodup_keys)
    fun _ member => (mem_arrange_links engine _).mp member]
  simp only [IterationOrder.mem_arrange]

omit [DefaultHasher] in
theorem SendFrame.eq {leftOrder rightOrder : IterationOrder String}
    {before left right : PexEngine}
    (leftFrame : SendFrame leftOrder nowSecs before left)
    (rightFrame : SendFrame rightOrder nowSecs before right)
    (links : left.links = right.links)
    (cache : left.advertisableCache = right.advertisableCache) :
    left = right := by
  have cfg := leftFrame.cfg.trans rightFrame.cfg.symm
  have known := leftFrame.known.trans rightFrame.known.symm
  have hints := leftFrame.hints.trans rightFrame.hints.symm
  have epoch := leftFrame.knownEpoch.trans rightFrame.knownEpoch.symm
  cases left
  cases right
  simp only [mk.injEq]
  exact ⟨cfg, known, links, hints, epoch, cache⟩

theorem tick_fst_eq (jitter : String → Jitter)
    (fits : ∀ peerId, (engine.link peerId).isDue nowMs = true →
      (engine.staleIds .ascending peerId (nowMs / 1000)).length ≤ 50)
    (left right : TickOrders) :
    (engine.tick nowMs left jitter).1 = (engine.tick nowMs right jitter).1 := by
  obtain ⟨leftFrame, leftLinks, -⟩ := tick_spec nowMs left jitter engine
  obtain ⟨rightFrame, rightLinks, -⟩ := tick_spec nowMs right jitter engine
  apply leftFrame.eq rightFrame
  · apply Std.ExtTreeMap.ext_getElem?
    intro peerId
    rw [leftLinks, rightLinks]
    simp only [tickedLink, dueDelta_eq (fits peerId) left right]
  · rw [cache_tick, cache_tick]

end PexEngine

/-- A call with every map iterated in key order. -/
def Call.inKeyOrder : Call → Call
  | .linkUp peerId nowMs _ jitter => .linkUp peerId nowMs .ascending jitter
  | .tick nowMs _ jitter =>
      .tick nowMs
        { known := .ascending
          links := .ascending
          told := fun _ => .ascending } jitter
  | call => call

omit [DefaultHasher] in
theorem PexEngine.dropsFit_inKeyOrder {engine : PexEngine} {call : Call} :
    engine.DropsFit call.inKeyOrder ↔ engine.DropsFit call := by
  cases call <;> exact Iff.rfl

/-- A call whose drops fit does as the same call in key order. -/
theorem engineStep_inKeyOrder {engine : PexEngine} {call : Call}
    (fits : engine.DropsFit call) :
    (engineStep engine call.inKeyOrder).1 = (engineStep engine call).1 ∧
      ∀ peerId, messagesFor peerId
          (call.inKeyOrder, (engineStep engine call.inKeyOrder).2) =
        messagesFor peerId (call, (engineStep engine call).2) := by
  cases call with
  | linkUp opened nowMs order jitter =>
      have opening : engine.linkUp opened nowMs .ascending jitter =
          engine.linkUp opened nowMs order jitter := by
        simp only [PexEngine.linkUp, engine.advertisableFor_eq .ascending order]
      constructor
      · simp only [Call.inKeyOrder, engineStep, opening]
      · intro peerId
        simp only [Call.inKeyOrder, engineStep, opening, messagesFor, emitted]
  | tick nowMs orders jitter =>
      constructor
      · exact PexEngine.tick_fst_eq jitter fits _ _
      · intro peerId
        simp only [messagesFor_engineStep, Call.inKeyOrder,
          PexEngine.dueDelta_eq (fits peerId) _ orders]
  | _ => exact ⟨rfl, fun _ => rfl⟩

/-- Two runs that differ in iteration orders only, and whose drops fit, pass
through the same states and send the same messages. -/
theorem runs_eq {left right : List Call}
    (same : left.map Call.inKeyOrder = right.map Call.inKeyOrder)
    {engine : PexEngine}
    (fits : engineStep.Along PexEngine.DropsFit engine left) :
    engineStep.final engine left = engineStep.final engine right ∧
      ∀ peerId, (engineStep.trace engine left).map (messagesFor peerId) =
        (engineStep.trace engine right).map (messagesFor peerId) := by
  induction left generalizing engine right with
  | nil =>
      obtain rfl := List.map_eq_nil_iff.mp same.symm
      exact ⟨rfl, fun _ => rfl⟩
  | cons call left induction =>
      obtain ⟨other, right, rfl, first, rest⟩ :=
        List.map_eq_cons_iff.mp same.symm
      have otherFits : engine.DropsFit other := by
        rw [← PexEngine.dropsFit_inKeyOrder, first]
        exact PexEngine.dropsFit_inKeyOrder.mpr fits.1
      obtain ⟨leftState, leftMessages⟩ := engineStep_inKeyOrder fits.1
      obtain ⟨rightState, rightMessages⟩ := engineStep_inKeyOrder otherFits
      have state :
          (engineStep engine call).1 = (engineStep engine other).1 := by
        rw [← leftState, ← rightState, first]
      obtain ⟨finals, traces⟩ := induction rest.symm fits.2
      constructor
      · rw [Machine.final_cons, Machine.final_cons, finals, state]
      · intro peerId
        rw [Machine.trace_cons, Machine.trace_cons, List.map_cons,
          List.map_cons, traces, state, ← leftMessages, ← rightMessages,
          first]

/-- Deltas are deterministic exactly as long as the drops fit.  In any state a
delta is the same for all iteration orders of the first-hand set and the told
map exactly when at most fifty told ids are no longer advertisable to the
partner.  Two runs from one state that differ in iteration orders only, in
which this holds of every due link at every tick, send every link the same
messages. -/
theorem deltas_deterministic_iff (engine : PexEngine) :
    (∀ (peerId : String) (nowSecs : Nat),
      (∀ leftKnown leftTold rightKnown rightTold,
        (engine.buildDelta leftKnown leftTold peerId nowSecs).1 =
          (engine.buildDelta rightKnown rightTold peerId nowSecs).1) ↔
        (engine.staleIds .ascending peerId nowSecs).length ≤ 50) ∧
      ∀ left right : List Call,
        left.map Call.inKeyOrder = right.map Call.inKeyOrder →
        engineStep.Along PexEngine.DropsFit engine left →
          ∀ peerId, (engineStep.trace engine left).map (messagesFor peerId) =
            (engineStep.trace engine right).map (messagesFor peerId) :=
  ⟨fun _ _ => engine.buildDelta_fst_eq_iff,
    fun _ _ same fits => (runs_eq same fits).2⟩

omit [DefaultHasher] in
/-- A run with a tick that adds two of four known peers and drops two of three
told ids, in two orders. -/
theorem deltas_deterministic_several :
    let changes : List Call := [.upsertKnown (exampleEntry 'c' 1000 9444),
      .upsertKnown (exampleEntry 'd' 1001 9444),
      .upsertKnown (exampleEntry 'e' 1002 9444)]
    let later : List Call := [.removeKnown (exampleId 'c'),
      .removeKnown (exampleId 'e'),
      .upsertKnown (exampleEntry 'f' 1000 9444),
      .upsertKnown (exampleEntry '1' 1000 9444)]
    let calls (order : IterationOrder String) : List Call :=
      changes ++ .linkUp (exampleId 'b') 1000000 order .zero :: later ++
        [.tick 1060000
          { known := order, links := order, told := fun _ => order }
          fun _ => .zero]
    let start := PexEngine.new (exampleConfig (exampleId 'a'))
    ∀ peerId,
      ((@engineStep sipHasher).trace start (calls .ascending)).map
          (messagesFor peerId) =
        ((@engineStep sipHasher).trace start (calls .descending)).map
          (messagesFor peerId) := by
  intro changes later calls start
  let _ := sipHasher
  let reached := engineStep.final start (changes ++
    .linkUp (exampleId 'b') 1000000 .ascending .zero :: later)
  have fits : reached.DropsFit
      (.tick 1060000 exampleOrders fun _ => .zero) := by
    intro peerId due
    have only : reached.links.keys = [exampleId 'b'] := by
      decide +kernel
    have listed := Std.ExtTreeMap.mem_keys.mpr
      (PexEngine.mem_links_of_snapshotSent
        ((Bool.and_eq_true _ _).mp due).1)
    rw [only, List.mem_singleton] at listed
    subst listed
    decide +kernel
  exact (deltas_deterministic_iff start).2 (calls .ascending)
    (calls .descending) rfl ⟨trivial, trivial, trivial, trivial, trivial,
      trivial, trivial, trivial, fits, trivial⟩

omit [DefaultHasher] in
theorem deltaMessages_inj {left right : List PeerEntry × List String}
    (same : deltaMessages left.1 left.2 = deltaMessages right.1 right.2) :
    left = right := by
  obtain ⟨added, dropped⟩ := left
  obtain ⟨otherAdded, otherDropped⟩ := right
  unfold deltaMessages at same
  split at same
  · rename_i leftEmpty
    split at same
    · rename_i rightEmpty
      exact Prod.ext (leftEmpty.1.trans rightEmpty.1.symm)
        (leftEmpty.2.trans rightEmpty.2.symm)
    · cases same
  · split at same
    · cases same
    · simpa using same

omit [DefaultHasher] in
/-- Fifty-one peers, told by two deltas, that then age out together: which
fifty of them the next delta drops depends on the order of the told map. -/
theorem order_shows_in_drops :
    let calls : List Call :=
      .linkUp (exampleId 'b') 1000000 .ascending .zero ::
        (((List.range 51).map fun index =>
            .upsertKnown (numberedEntry index)) ++
          [.tick 1060000 exampleOrders fun _ => .zero,
            .tick 1120000 exampleOrders fun _ => .zero])
    let engine := (@engineStep sipHasher).final
      (.new (exampleConfig (exampleId 'a'))) calls
    let tick (told : IterationOrder String) : Call :=
      .tick 2861000 { exampleOrders with told := fun _ => told } fun _ => .zero
    (@PexEngine.buildDelta sipHasher engine .ascending .ascending
        (exampleId 'b') 2861).1 ≠
      (@PexEngine.buildDelta sipHasher engine .ascending .descending
        (exampleId 'b') 2861).1 ∧
    messagesFor (exampleId 'b')
        (tick .ascending, (@engineStep sipHasher engine (tick .ascending)).2) ≠
      messagesFor (exampleId 'b')
        (tick .descending,
          (@engineStep sipHasher engine (tick .descending)).2) := by
  intro calls engine tick
  let _ := sipHasher
  obtain ⟨many, eligible⟩ :
      (engine.staleIds .ascending (exampleId 'b') 2861).length = 51 ∧
        (engine.link (exampleId 'b')).isDue 2861000 = true := by
    decide +kernel
  clear_value engine
  have more : 50 < (engine.staleIds .ascending (exampleId 'b') 2861).length :=
    many ▸ Nat.lt_succ_self 50
  have drops : (engine.buildDelta .ascending .ascending (exampleId 'b')
      2861).1 ≠ (engine.buildDelta .ascending .descending (exampleId 'b')
        2861).1 := by
    intro same
    exact IterationOrder.cappedScan_ne Std.ExtTreeMap.nodup_keys (by decide)
      more (congrArg Prod.snd same)
  have sent : ∀ told : IterationOrder String,
      messagesFor (exampleId 'b')
          (tick told, (engineStep engine (tick told)).2) =
        deltaMessages
          (engine.buildDelta .ascending told (exampleId 'b') 2861).1.1
          (engine.buildDelta .ascending told (exampleId 'b') 2861).1.2 :=
    fun _ => messagesFor_of_eligible eligible
  refine ⟨drops, fun same => drops (deltaMessages_inj ?_)⟩
  rw [← sent, ← sent]
  exact same

end DigPex
