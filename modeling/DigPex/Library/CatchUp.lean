import DigPex.Library.FiniteMap

/-!
# Catching up with a target by capped rounds

A map is to hold the image of every item of a target list and nothing else.
Two queues tell how far it is behind: the items of the target it does not hold
as they are, in the order of the target, and its keys that the target lacks.
A round takes at most a cap from the front of the first queue and at most a
cap, chosen in any way, from the second.  So each round shortens each queue by
the cap, and the map has caught up when both are empty.

A round that scans the second queue in iteration order and sorts what it took
shows that order exactly when the queue is longer than the cap.
-/

namespace FiniteMap

variable {Key Item Value : Type} [LinearOrder Key] (key : Item → Key)
  (value : Item → Value)

theorem getElem?_insertAll_of_notMem {map : Std.ExtTreeMap Key Value}
    {items : List Item} {wanted : Key} (absent : wanted ∉ items.map key) :
    (insertAll key value map items)[wanted]? = map[wanted]? := by
  induction items generalizing map with
  | nil => rfl
  | cons item items induction =>
      simp only [List.map_cons, List.mem_cons, not_or] at absent
      have later : (insertAll key value (map.insert (key item) (value item))
          items)[wanted]? = _ := induction absent.2
      rw [insertAll, List.foldl_cons]
      refine later.trans ?_
      rw [Std.ExtTreeMap.getElem?_insert, if_neg]
      simpa using Ne.symm absent.1

theorem getElem?_insertAll_of_mem {map : Std.ExtTreeMap Key Value}
    {items : List Item} (distinct : (items.map key).Nodup) {item : Item}
    (member : item ∈ items) :
    (insertAll key value map items)[key item]? = some (value item) := by
  induction items generalizing map with
  | nil => cases member
  | cons first items induction =>
      obtain ⟨fresh, distinct⟩ := List.nodup_cons.mp distinct
      rcases List.mem_cons.mp member with rfl | later
      · refine (getElem?_insertAll_of_notMem key value fresh).trans ?_
        rw [Std.ExtTreeMap.getElem?_insert_self]
      · exact induction distinct later

theorem getElem?_eraseAll_of_notMem {map : Std.ExtTreeMap Key Value}
    {keys : List Key} {wanted : Key} (kept : wanted ∉ keys) :
    (eraseAll map keys)[wanted]? = map[wanted]? := by
  induction keys generalizing map with
  | nil => rfl
  | cons first keys induction =>
      simp only [List.mem_cons, not_or] at kept
      have later : (eraseAll (map.erase first) keys)[wanted]? = _ :=
        induction kept.2
      rw [eraseAll, List.foldl_cons]
      refine later.trans ?_
      rw [Std.ExtTreeMap.getElem?_erase, if_neg]
      simpa using Ne.symm kept.1

end FiniteMap

theorem List.filter_notMem_take {Item : Type} [DecidableEq Item]
    {items : List Item} (distinct : items.Nodup) (count : Nat) :
    (items.filter fun item => item ∉ items.take count) = items.drop count := by
  induction items generalizing count with
  | nil => simp
  | cons first items induction =>
      obtain ⟨fresh, distinct⟩ := List.nodup_cons.mp distinct
      cases count with
      | zero => simp
      | succ count =>
          rw [List.take_succ_cons, List.drop_succ_cons,
            ← induction distinct count, List.filter_cons_of_neg (by simp)]
          apply List.filter_congr
          intro item member
          have other : item ≠ first := by
            rintro rfl
            exact fresh member
          simp [other]

namespace CatchUp

variable {Key Item Value : Type} [LinearOrder Key] [Std.TransOrd Key]
  [DecidableEq Value] (key : Item → Key) (value : Item → Value)
  (target : List Item)

/-- The items of the target that a map does not hold as they are. -/
def pending (map : Std.ExtTreeMap Key Value) : List Item :=
  target.filter fun item => map[key item]? ≠ some (value item)

/-- The keys of a map that the target lacks. -/
def stale (map : Std.ExtTreeMap Key Value) : List Key :=
  map.keys.filter fun held => !(target.map key).contains held

/-- One round: the first pending items and some stale keys, as many of each as
the cap allows. -/
structure Round (cap : Nat) (map : Std.ExtTreeMap Key Value)
    (added : List Item) (erased : List Key) : Prop where
  front : added = (pending key value target map).take cap
  distinct : erased.Nodup
  chosen : ∀ gone ∈ erased, gone ∈ stale key target map
  count : erased.length = min cap (stale key target map).length

/-- The map after a round. -/
def advance (map : Std.ExtTreeMap Key Value) (added : List Item)
    (erased : List Key) : Std.ExtTreeMap Key Value :=
  FiniteMap.eraseAll (FiniteMap.insertAll key value map added) erased

variable {key value target} {cap : Nat} {map : Std.ExtTreeMap Key Value}
  {added : List Item} {erased : List Key}

omit [DecidableEq Value] in
theorem mem_stale {held : Key} :
    held ∈ stale key target map ↔ held ∈ map ∧ held ∉ target.map key := by
  simp [stale, Std.ExtTreeMap.mem_keys]

omit [DecidableEq Value] in
theorem nodup_stale : (stale key target map).Nodup :=
  Std.ExtTreeMap.nodup_keys.filter _

theorem Round.mem_added (round : Round key value target cap map added erased)
    {item : Item} (member : item ∈ added) :
    item ∈ target ∧ map[key item]? ≠ some (value item) := by
  rw [round.front] at member
  simpa [pending] using List.mem_of_mem_take member

theorem Round.pending_advance [DecidableEq Item]
    (round : Round key value target cap map added erased)
    (distinct : (target.map key).Nodup) :
    pending key value target (advance key value map added erased) =
      (pending key value target map).drop cap := by
  have once : (pending key value target map).Nodup :=
    (distinct.of_map key).filter _
  have addedDistinct : (added.map key).Nodup := by
    rw [round.front]
    exact distinct.sublist
      (((List.take_sublist _ _).trans List.filter_sublist).map _)
  rw [← List.filter_notMem_take once, ← round.front, pending, pending,
    List.filter_filter]
  apply List.filter_congr
  intro item member
  have kept : key item ∉ erased := fun gone =>
    (mem_stale.mp (round.chosen _ gone)).2 (List.mem_map_of_mem member)
  rw [advance, FiniteMap.getElem?_eraseAll_of_notMem kept]
  by_cases taken : item ∈ added
  · rw [FiniteMap.getElem?_insertAll_of_mem key value addedDistinct taken]
    simp [taken]
  · have untouched : key item ∉ added.map key := by
      intro clash
      obtain ⟨other, listed, same⟩ := List.mem_map.mp clash
      have equal := List.inj_on_of_nodup_map distinct
        (round.mem_added listed).1 member same
      exact taken (equal ▸ listed)
    rw [FiniteMap.getElem?_insertAll_of_notMem key value untouched]
    simp [taken]

theorem Round.length_stale_advance
    (round : Round key value target cap map added erased) :
    (stale key target (advance key value map added erased)).length =
      (stale key target map).length - cap := by
  have left : (stale key target
      (advance key value map added erased)).toFinset =
      (stale key target map).toFinset \ erased.toFinset := by
    ext held
    simp only [List.mem_toFinset, Finset.mem_sdiff, mem_stale, advance,
      FiniteMap.mem_eraseAll, FiniteMap.mem_insertAll]
    constructor
    · rintro ⟨⟨old | new, kept⟩, lacked⟩
      · exact ⟨⟨old, lacked⟩, kept⟩
      · obtain ⟨item, member, rfl⟩ := List.mem_map.mp new
        exact absurd (List.mem_map_of_mem (round.mem_added member).1) lacked
    · rintro ⟨⟨old, lacked⟩, kept⟩
      exact ⟨⟨.inl old, kept⟩, lacked⟩
  have within : erased.toFinset ⊆ (stale key target map).toFinset := by
    intro gone member
    exact List.mem_toFinset.mpr
      (round.chosen gone (List.mem_toFinset.mp member))
  have counts := congrArg Finset.card left
  rw [Finset.card_sdiff_of_subset within,
    List.toFinset_card_of_nodup nodup_stale,
    List.toFinset_card_of_nodup nodup_stale,
    List.toFinset_card_of_nodup round.distinct, round.count] at counts
  omega

theorem caught_up
    (nonePending : pending key value target map = [])
    (noneStale : stale key target map = []) (held : Key) (found : Value) :
    map[held]? = some found ↔
      ∃ item ∈ target, key item = held ∧ value item = found := by
  have holds : ∀ item ∈ target, map[key item]? = some (value item) := by
    intro item member
    by_contra behind
    have waits : item ∈ pending key value target map :=
      List.mem_filter.mpr ⟨member, decide_eq_true behind⟩
    rw [nonePending] at waits
    cases waits
  constructor
  · intro lookup
    have member : held ∈ target.map key := by
      by_contra lacked
      have gone : held ∈ stale key target map := by
        refine mem_stale.mpr ⟨?_, lacked⟩
        exact FiniteMap.mem_iff_lookup.mpr ⟨_, lookup⟩
      rw [noneStale] at gone
      cases gone
    obtain ⟨item, listed, rfl⟩ := List.mem_map.mp member
    refine ⟨item, listed, rfl, ?_⟩
    rw [holds item listed] at lookup
    exact Option.some.inj lookup
  · rintro ⟨item, member, rfl, rfl⟩
    exact holds item member

end CatchUp

/-! ## Choosing by a scan in iteration order -/

namespace IterationOrder

variable {Key : Type}

/-- The order opposite to that of the keys. -/
def descending : IterationOrder Key :=
  { arrange := List.reverse
    perm := List.reverse_perm }

variable [LinearOrder Key]

/-- The first keys with a property that a scan finds, sorted. -/
def cappedScan (order : IterationOrder Key) (wanted : Key → Bool) (cap : Nat)
    (keys : List Key) : List Key :=
  (((order.arrange keys).filter wanted).take cap).insertionSort (· ≤ ·)

variable {wanted : Key → Bool} {cap : Nat} {keys : List Key}

theorem cappedScan_eq (few : (keys.filter wanted).length ≤ cap)
    (left right : IterationOrder Key) :
    left.cappedScan wanted cap keys = right.cappedScan wanted cap keys := by
  have whole : ∀ order : IterationOrder Key,
      (order.cappedScan wanted cap keys).Perm (keys.filter wanted) := by
    intro order
    have found := (order.perm keys).filter wanted
    rw [cappedScan, List.take_of_length_le (found.length_eq.le.trans few)]
    exact (List.perm_insertionSort _ _).trans found
  exact ((whole left).trans (whole right).symm).eq_of_pairwise'
    (List.pairwise_insertionSort _ _) (List.pairwise_insertionSort _ _)

theorem cappedScan_ne (distinct : keys.Nodup) (positive : 0 < cap)
    (many : cap < (keys.filter wanted).length) :
    (ascending : IterationOrder Key).cappedScan wanted cap keys ≠
      (descending : IterationOrder Key).cappedScan wanted cap keys := by
  obtain ⟨front, last, found⟩ : ∃ front last,
      keys.filter wanted = front ++ [last] := by
    rcases List.eq_nil_or_concat' (keys.filter wanted) with empty | split
    · rw [empty] at many
      cases many
    · exact split
  have once : (front ++ [last]).Nodup := found ▸ distinct.filter _
  have enough : cap ≤ front.length := by
    rw [found, List.length_append, List.length_singleton] at many
    omega
  have taken : last ∈ descending.cappedScan wanted cap keys := by
    obtain ⟨rest, rfl⟩ := Nat.exists_eq_add_one_of_ne_zero positive.ne'
    simp [cappedScan, descending, List.filter_reverse, found]
  have left : last ∉ ascending.cappedScan wanted cap keys := by
    simp only [cappedScan, ascending, id_eq, found, List.mem_insertionSort,
      List.take_append_of_le_length enough]
    intro member
    exact (List.nodup_append.mp once).2.2 last (List.mem_of_mem_take member)
      last (by simp) rfl
  intro same
  exact left (same ▸ taken)

/-- A capped scan is the same in every order exactly when it finds no more
than it may take. -/
theorem cappedScan_eq_iff (distinct : keys.Nodup) (positive : 0 < cap) :
    (∀ left right : IterationOrder Key,
      left.cappedScan wanted cap keys = right.cappedScan wanted cap keys) ↔
        (keys.filter wanted).length ≤ cap := by
  constructor
  · intro same
    by_contra many
    exact cappedScan_ne distinct positive (not_le.mp many) (same _ _)
  · exact cappedScan_eq

end IterationOrder
