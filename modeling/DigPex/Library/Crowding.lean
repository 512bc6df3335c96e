import DigPex.Library.FiniteMap

/-!
# What a capped accumulation keeps

A map that replaces an entry only by one of at least its rank, and that makes
room by evicting the entry of least rank, loses a key only to a crowd: as many
others as fit beside it, each seen with at least its rank.
-/

namespace FiniteMap

variable {Key Value : Type}

/-- A key is crowded out at a rank: beside it, as many others as the cap lets
in have been seen with that rank or a higher one. -/
def Crowded (cap : Nat) (seen : Key → Nat → Prop) (key : Key)
    (least : Nat) : Prop :=
  ∃ others : Finset Key, key ∉ others ∧ cap ≤ others.card + 1 ∧
    ∀ other ∈ others, ∃ found, least ≤ found ∧ seen other found

variable [LinearOrder Key]

/-- A key stands at a rank: it has an entry of that rank or a higher one, or it
is crowded out. -/
inductive Stands (rank : Value → Nat) (cap : Nat) (seen : Key → Nat → Prop)
    (key : Key) (least : Nat) (map : Std.ExtTreeMap Key Value) : Prop
  | held (value : Value) (lookup : map[key]? = some value)
      (enough : least ≤ rank value)
  | crowded (beside : Crowded cap seen key least)

variable {rank : Value → Nat} {cap : Nat} {seen : Key → Nat → Prop}
  {key : Key} {least : Nat} {map : Std.ExtTreeMap Key Value}

theorem GivesWay.crowded {newcomer : Key} {value : Value}
    (gives : GivesWay rank cap map newcomer key)
    (known : ∀ (other : Key) (found : Value), map[other]? = some found →
      seen other (rank found))
    (lookup : map[key]? = some value) :
    Crowded cap seen key (rank value) := by
  obtain ⟨own, found, smallest⟩ := gives.least
  obtain rfl : value = own := Option.some.inj (lookup.symm.trans found)
  have present : key ∈ map.keys.toFinset :=
    mem_keys_toFinset.mpr (mem_iff_lookup.mpr ⟨value, lookup⟩)
  refine ⟨map.keys.toFinset.erase key, Finset.notMem_erase _ _, ?_, ?_⟩
  · rw [Finset.card_erase_add_one present, card_keys, gives.full]
  · intro other member
    obtain ⟨_, member⟩ := Finset.mem_erase.mp member
    obtain ⟨beside, lookup⟩ :=
      mem_iff_lookup.mp (mem_keys_toFinset.mp member)
    refine ⟨rank beside, ?_, known other beside lookup⟩
    rcases smallest other beside lookup with below | ⟨same, _⟩
    · exact below.le
    · exact same.le

namespace Stands

theorem of_insertCapped (value : Value) :
    Stands rank cap seen key (rank value)
      (insertCapped rank cap map key value) :=
  .held value (getElem?_insertCapped_self rank cap map key value) le_rfl

/-- A capped insertion that outranks the entry it replaces leaves every key
standing. -/
theorem insertCapped {newcomer : Key} {value : Value}
    (bounded : map.size ≤ cap)
    (known : ∀ (other : Key) (found : Value), map[other]? = some found →
      seen other (rank found))
    (outranks : ∀ old, map[newcomer]? = some old → rank old ≤ rank value)
    (stands : Stands rank cap seen key least map) :
    Stands rank cap seen key least
      (insertCapped rank cap map newcomer value) := by
  cases stands with
  | held own lookup enough =>
    by_cases same : key = newcomer
    · subst same
      exact .held value (getElem?_insertCapped_self rank cap map key value)
        (enough.trans (outranks own lookup))
    · have present : key ∈ map := mem_iff_lookup.mpr ⟨own, lookup⟩
      rcases mem_insertCapped_or_evicted rank present cap newcomer value with
        still | evicted
      · obtain ⟨found, after⟩ := mem_iff_lookup.mp still
        rcases getElem?_of_insertCapped rank after with
          ⟨new, _⟩ | ⟨_, old⟩
        · exact absurd new same
        · obtain rfl : own = found := Option.some.inj (lookup.symm.trans old)
          exact .held own after enough
      · obtain ⟨others, apart, many, ranked⟩ :=
          (givesWay_of_evicted rank bounded evicted).crowded known lookup
        refine .crowded ⟨others, apart, many, fun other member => ?_⟩
        obtain ⟨found, above, sighted⟩ := ranked other member
        exact ⟨found, enough.trans above, sighted⟩
  | crowded beside => exact .crowded beside

theorem erase {erased : Key} (other : erased ≠ key)
    (stands : Stands rank cap seen key least map) :
    Stands rank cap seen key least (map.erase erased) := by
  cases stands with
  | held own lookup enough => exact .held own (by grind) enough
  | crowded beside => exact .crowded beside

end Stands

end FiniteMap
