import Mathlib

/-!
# Finite maps, iteration orders and capped insertion

Hash maps are represented by extensional finite maps: two maps are equal when
their lookups are.  What a hash map adds, the unspecified order in which it
hands out its keys, is a separate value, an `IterationOrder`, so that a
statement can quantify over it.

The second half is the capped insertion of bounded accumulators: an insertion
of a new key into a full map first evicts the entry of least rank.
-/

/-- An order in which a map may hand out its keys: any rearrangement. -/
structure IterationOrder (Key : Type) where
  arrange : List Key → List Key
  perm : ∀ keys, (arrange keys).Perm keys

namespace IterationOrder

variable {Key Value : Type}

/-- The order of the keys themselves. -/
def ascending : IterationOrder Key :=
  { arrange := id
    perm := fun _ => .refl _ }

theorem mem_arrange (order : IterationOrder Key) {keys : List Key}
    {key : Key} : key ∈ order.arrange keys ↔ key ∈ keys :=
  (order.perm keys).mem_iff

variable [LinearOrder Key]

/-- The values of a map in iteration order. -/
def values (order : IterationOrder Key)
    (map : Std.ExtTreeMap Key Value) : List Value :=
  (order.arrange map.keys).filterMap fun key => map[key]?

theorem mem_values {order : IterationOrder Key}
    {map : Std.ExtTreeMap Key Value} {value : Value} :
    value ∈ order.values map ↔ ∃ key : Key, map[key]? = some value := by
  simp only [values, List.mem_filterMap, order.mem_arrange]
  constructor
  · rintro ⟨key, _, lookup⟩
    exact ⟨key, lookup⟩
  · rintro ⟨key, lookup⟩
    exact ⟨key, by grind, lookup⟩

theorem values_perm (left right : IterationOrder Key)
    (map : Std.ExtTreeMap Key Value) :
    (left.values map).Perm (right.values map) :=
  ((left.perm _).trans (right.perm _).symm).filterMap _

end IterationOrder

namespace FiniteMap

variable {Key Value Image : Type} [LinearOrder Key]

/-- One map is the image of another under a function on values. -/
def IsImage (image : Value → Image) (left : Std.ExtTreeMap Key Image)
    (right : Std.ExtTreeMap Key Value) : Prop :=
  ∀ key : Key, left[key]? = (right[key]?).map image

theorem isImage_empty (image : Value → Image) :
    IsImage image (∅ : Std.ExtTreeMap Key Image) ∅ := by
  intro key
  simp

theorem IsImage.insert {image : Value → Image}
    {left : Std.ExtTreeMap Key Image} {right : Std.ExtTreeMap Key Value}
    (related : IsImage image left right) (key : Key) (value : Value) :
    IsImage image (left.insert key (image value))
      (right.insert key value) := by
  intro other
  have same := related other
  grind

theorem IsImage.erase {image : Value → Image}
    {left : Std.ExtTreeMap Key Image} {right : Std.ExtTreeMap Key Value}
    (related : IsImage image left right) (key : Key) :
    IsImage image (left.erase key) (right.erase key) := by
  intro other
  have same := related other
  grind

theorem mem_iff_lookup {map : Std.ExtTreeMap Key Value} {key : Key} :
    key ∈ map ↔ ∃ value, map[key]? = some value := by
  rw [Std.ExtTreeMap.mem_iff_isSome_getElem?, Option.isSome_iff_exists]

theorem mem_keys_toFinset {map : Std.ExtTreeMap Key Value} {key : Key} :
    key ∈ map.keys.toFinset ↔ key ∈ map := by
  rw [List.mem_toFinset, Std.ExtTreeMap.mem_keys]

theorem card_keys (map : Std.ExtTreeMap Key Value) :
    map.keys.toFinset.card = map.size := by
  rw [List.toFinset_card_of_nodup Std.ExtTreeMap.nodup_keys,
    Std.ExtTreeMap.length_keys]

theorem size_le_card {map : Std.ExtTreeMap Key Value} {keys : Finset Key}
    (within : ∀ key : Key, key ∈ map → key ∈ keys) :
    map.size ≤ keys.card := by
  have listed : map.keys.toFinset ⊆ keys := by
    intro key member
    exact within key (mem_keys_toFinset.mp member)
  calc
    map.size = map.keys.toFinset.card := (card_keys map).symm
    _ ≤ keys.card := Finset.card_le_card listed

section Folds

variable {Item : Type} (key : Item → Key) (value : Item → Value)

/-- Insert every item of a list, later items over earlier ones. -/
def insertAll (map : Std.ExtTreeMap Key Value) (items : List Item) :
    Std.ExtTreeMap Key Value :=
  items.foldl (fun map item => map.insert (key item) (value item)) map

/-- Erase every key of a list. -/
def eraseAll (map : Std.ExtTreeMap Key Value) (keys : List Key) :
    Std.ExtTreeMap Key Value :=
  keys.foldl (fun map erased => map.erase erased) map

theorem IsImage.insertAll {image : Value → Image}
    {left : Std.ExtTreeMap Key Image} {right : Std.ExtTreeMap Key Value}
    (related : IsImage image left right) (items : List Item) :
    IsImage image
      (insertAll key (fun item => image (value item)) left items)
      (insertAll key value right items) := by
  induction items generalizing left right with
  | nil => exact related
  | cons item items induction => exact induction (related.insert _ _)

theorem IsImage.eraseAll {image : Value → Image}
    {left : Std.ExtTreeMap Key Image} {right : Std.ExtTreeMap Key Value}
    (related : IsImage image left right) (keys : List Key) :
    IsImage image (eraseAll left keys) (eraseAll right keys) := by
  induction keys generalizing left right with
  | nil => exact related
  | cons key keys induction => exact induction (related.erase _)

theorem mem_insertAll {map : Std.ExtTreeMap Key Value} {items : List Item}
    {wanted : Key} :
    wanted ∈ insertAll key value map items ↔
      wanted ∈ map ∨ wanted ∈ items.map key := by
  induction items generalizing map with
  | nil => simp [insertAll]
  | cons item items induction =>
      have step : wanted ∈ insertAll key value
          (map.insert (key item) (value item)) items ↔ _ := induction
      simp only [insertAll, List.foldl_cons] at step ⊢
      rw [step]
      grind

theorem mem_eraseAll {map : Std.ExtTreeMap Key Value} {keys : List Key}
    {wanted : Key} :
    wanted ∈ eraseAll map keys ↔ wanted ∈ map ∧ wanted ∉ keys := by
  induction keys generalizing map with
  | nil => simp [eraseAll]
  | cons first keys induction =>
      have step : wanted ∈ eraseAll (map.erase first) keys ↔ _ := induction
      simp only [eraseAll, List.foldl_cons] at step ⊢
      rw [step]
      grind

end Folds

section Eviction

variable (rank : Value → Nat)

/-- The entry of least rank, ties broken by the key. -/
def leastEntry (map : Std.ExtTreeMap Key Value) : Option (Key × Value) :=
  map.toList.argmin fun entry => toLex (rank entry.2, entry.1)

/-- Remove the entry of least rank, if there is one. -/
def evictLeast (map : Std.ExtTreeMap Key Value) : Std.ExtTreeMap Key Value :=
  match leastEntry rank map with
  | some entry => map.erase entry.1
  | none => map

/-- Insert an entry; when the key is new and the map holds `cap` entries or
more, first evict the entry of least rank. -/
def insertCapped (cap : Nat) (map : Std.ExtTreeMap Key Value) (key : Key)
    (value : Value) : Std.ExtTreeMap Key Value :=
  if !map.contains key && decide (cap ≤ map.size) then
    (evictLeast rank map).insert key value
  else
    map.insert key value

/-- The key that inserting a key evicts, if any. -/
def evicted (cap : Nat) (map : Std.ExtTreeMap Key Value) (key : Key) :
    Option Key :=
  if !map.contains key && decide (cap ≤ map.size) then
    (leastEntry rank map).map Prod.fst
  else
    none

theorem insertCapped_eq (cap : Nat) (map : Std.ExtTreeMap Key Value)
    (key : Key) (value : Value) :
    insertCapped rank cap map key value =
      ((evicted rank cap map key).elim map map.erase).insert key value := by
  unfold insertCapped evicted evictLeast
  split
  · cases leastEntry rank map <;> rfl
  · rfl

/-- A key that gives way to a newcomer: the map is full, the newcomer is no key
of it, and the key is the least of the map by rank and key. -/
structure GivesWay (cap : Nat) (map : Std.ExtTreeMap Key Value)
    (newcomer key : Key) : Prop where
  full : map.size = cap
  new : newcomer ∉ map
  least : ∃ value, map[key]? = some value ∧
    ∀ (other : Key) (otherValue : Value), map[other]? = some otherValue →
      rank value < rank otherValue ∨
        rank value = rank otherValue ∧ key ≤ other

theorem givesWay_of_evicted {cap : Nat} {map : Std.ExtTreeMap Key Value}
    (bounded : map.size ≤ cap) {key victim : Key}
    (found : evicted rank cap map key = some victim) :
    GivesWay rank cap map key victim := by
  unfold evicted at found
  split at found
  · rename_i full
    simp only [Bool.and_eq_true, Bool.not_eq_true', decide_eq_true_eq]
      at full
    obtain ⟨entry, least, rfl⟩ := Option.map_eq_some_iff.mp found
    have member : entry ∈ map.toList := List.argmin_mem least
    refine ⟨le_antisymm bounded full.2, by grind, entry.2, by grind, ?_⟩
    intro other otherValue lookup
    have listed : (other, otherValue) ∈ map.toList := by grind
    have smaller := List.le_of_mem_argmin listed least
    exact Prod.Lex.le_iff.mp smaller
  · cases found

theorem mem_insertCapped_or_evicted {map : Std.ExtTreeMap Key Value}
    {key : Key} (present : key ∈ map) (cap : Nat) (newcomer : Key)
    (value : Value) :
    key ∈ insertCapped rank cap map newcomer value ∨
      evicted rank cap map newcomer = some key := by
  rw [insertCapped_eq]
  cases evicted rank cap map newcomer with
  | none => exact .inl (by simp [present])
  | some victim =>
      by_cases same : victim = key
      · exact .inr (congrArg some same)
      · refine .inl ?_
        simp only [Option.elim_some]
        grind

theorem of_evicted_eq_none {cap : Nat} {map : Std.ExtTreeMap Key Value}
    (positive : 0 < cap) {key : Key}
    (found : evicted rank cap map key = none) :
    key ∈ map ∨ map.size < cap := by
  unfold evicted at found
  split at found
  · rename_i full
    simp only [Bool.and_eq_true, Bool.not_eq_true', decide_eq_true_eq]
      at full
    have empty : map.toList = [] :=
      List.argmin_eq_none.mp (Option.map_eq_none_iff.mp found)
    have length : map.toList.length = map.size := by simp
    simp only [empty, List.length_nil] at length
    omega
  · rename_i room
    simp only [Bool.and_eq_true, Bool.not_eq_true', decide_eq_true_eq]
      at room
    grind

theorem getElem?_of_evictLeast {map : Std.ExtTreeMap Key Value} {key : Key}
    {value : Value} (lookup : (evictLeast rank map)[key]? = some value) :
    map[key]? = some value := by
  unfold evictLeast at lookup
  split at lookup
  · grind
  · exact lookup

theorem size_evictLeast {map : Std.ExtTreeMap Key Value}
    (occupied : 0 < map.size) :
    (evictLeast rank map).size + 1 = map.size := by
  unfold evictLeast
  split
  · rename_i entry least
    have member : entry ∈ map.toList := List.argmin_mem least
    have present : entry.1 ∈ map := by grind
    grind
  · rename_i none
    have empty : map.toList = [] := List.argmin_eq_none.mp none
    have length : map.toList.length = map.size := by simp
    simp [empty] at length
    omega

@[simp] theorem getElem?_insertCapped_self (cap : Nat)
    (map : Std.ExtTreeMap Key Value) (key : Key) (value : Value) :
    (insertCapped rank cap map key value)[key]? = some value := by
  unfold insertCapped
  split <;> simp

theorem getElem?_of_insertCapped {cap : Nat}
    {map : Std.ExtTreeMap Key Value} {key other : Key} {value found : Value}
    (lookup : (insertCapped rank cap map key value)[other]? = some found) :
    other = key ∧ found = value ∨
      other ≠ key ∧ map[other]? = some found := by
  by_cases same : other = key
  · subst other
    simp at lookup
    exact .inl ⟨rfl, lookup.symm⟩
  · refine .inr ⟨same, ?_⟩
    unfold insertCapped at lookup
    split at lookup
    · exact getElem?_of_evictLeast rank (by grind)
    · grind

theorem insertCapped_of_lt {cap : Nat} {map : Std.ExtTreeMap Key Value}
    (room : map.size < cap) (key : Key) (value : Value) :
    insertCapped rank cap map key value = map.insert key value := by
  unfold insertCapped
  rw [if_neg]
  simp [room]

theorem size_insertCapped_le {cap : Nat} {map : Std.ExtTreeMap Key Value}
    (positive : 0 < cap) (bounded : map.size ≤ cap) (key : Key)
    (value : Value) :
    (insertCapped rank cap map key value).size ≤ cap := by
  unfold insertCapped
  split
  · rename_i full
    have occupied : 0 < map.size := by grind
    have evicted := size_evictLeast rank occupied
    have grown := Std.ExtTreeMap.size_insert_le
      (t := evictLeast rank map) (k := key) (v := value)
    omega
  · grind

theorem getElem?_insertCapped_of_ne {cap : Nat}
    {map : Std.ExtTreeMap Key Value} {key newcomer : Key} {value : Value}
    (different : key ≠ newcomer) :
    (insertCapped rank cap map newcomer value)[key]? =
      if evicted rank cap map newcomer = some key then none
      else map[key]? := by
  rw [insertCapped_eq, Std.ExtTreeMap.getElem?_insert, if_neg fun same =>
    different (compare_eq_iff_eq.mp same).symm]
  cases evicted rank cap map newcomer with
  | none => rfl
  | some victim =>
      rw [Option.elim_some, Std.ExtTreeMap.getElem?_erase]
      simp

theorem size_le_insertCapped (cap : Nat) (map : Std.ExtTreeMap Key Value)
    (key : Key) (value : Value) :
    map.size ≤ (insertCapped rank cap map key value).size := by
  unfold insertCapped
  split
  · have evicted := @size_evictLeast _ _ _ rank map
    have new : key ∉ evictLeast rank map := by
      intro present
      obtain ⟨old, lookup⟩ := mem_iff_lookup.mp present
      have before := getElem?_of_evictLeast rank lookup
      grind
    grind
  · exact Std.ExtTreeMap.size_le_size_insert

end Eviction

end FiniteMap
