import DigPex.Library.FiniteMap
import DigPex.Library.Machine

/-!
# What a capped table holds, in closed form

A table takes an offer only when it outranks the entry of its key, and makes
room by evicting the entry of least rank before it inserts.  Whatever is
offered, all places but one belong to the greatest keys seen so far, and the
last place belongs to whichever outdone key came last.  So what stands in the
table can be told from the table at the start and the offers alone.
-/

namespace FiniteMap

/-- Of a finite set, at least `count` elements have fewer than `count` above
them, if it has so many. -/
theorem card_leading {Key Grade : Type} [DecidableEq Key] [LinearOrder Grade]
    (grade : Key → Grade) {count : Nat} {keys : Finset Key}
    (many : count ≤ keys.card) :
    count ≤ (keys.filter fun key =>
      (keys.filter fun other => grade key < grade other).card <
        count).card := by
  induction keys using Finset.induction_on_min_value grade with
  | empty => exact many
  | insert lowest keys new least induction =>
      have above : ∀ key ∈ keys,
          ((insert lowest keys).filter fun other =>
            grade key < grade other) =
              keys.filter fun other => grade key < grade other := by
        intro key member
        rw [Finset.filter_insert, if_neg (not_lt.mpr (least key member))]
      rcases Nat.lt_or_ge keys.card count with few | enough
      · -- Then the whole set has no more than `count` elements.
        refine many.trans (Finset.card_le_card fun key member => ?_)
        refine Finset.mem_filter.mpr ⟨member, ?_⟩
        have apart : ((insert lowest keys).filter fun other =>
            grade key < grade other) ⊂ insert lowest keys :=
          Finset.filter_ssubset.mpr ⟨key, member, lt_irrefl _⟩
        have fewer := Finset.card_lt_card apart
        rw [Finset.card_insert_of_notMem new] at fewer
        omega
      · refine (induction enough).trans (Finset.card_le_card ?_)
        intro key member
        obtain ⟨listed, leading⟩ := Finset.mem_filter.mp member
        refine Finset.mem_filter.mpr ⟨Finset.mem_insert_of_mem listed, ?_⟩
        rw [above key listed]
        exact leading

variable {Key Value : Type} [LinearOrder Key] (rank : Value → Nat) (cap : Nat)

-- A shortcut to the laws of the comparison of keys, which lookups need.
local instance transOrd : Std.TransOrd Key := inferInstance

/-- Take an offer that outranks the entry of its key, and say whether it was
taken. -/
def offer : Machine (Std.ExtTreeMap Key Value) (Key × Value) Bool :=
  fun map offered =>
    if (map[offered.1]?).all fun old => rank old < rank offered.2 then
      (insertCapped rank cap map offered.1 offered.2, true)
    else
      (map, false)

/-- A key has been seen with a rank, in the table at the start or in an
offer. -/
def Seen (map : Std.ExtTreeMap Key Value) (offers : List (Key × Value))
    (key : Key) (found : Nat) : Prop :=
  (∃ value, map[key]? = some value ∧ rank value = found) ∨
    ∃ value, (key, value) ∈ offers ∧ rank value = found

/-- A key is outdone: as many others as fit beside it have been seen with a
higher rank than it ever was, ties broken by the key. -/
def Outdone (map : Std.ExtTreeMap Key Value) (offers : List (Key × Value))
    (key : Key) : Prop :=
  ∃ others : Finset Key, cap ≤ others.card + 1 ∧ ∀ other ∈ others,
    ∃ found, Seen rank map offers other found ∧
      ∀ own, Seen rank map offers key own →
        toLex (own, key) < toLex (found, other)

/-- An offer for another key takes the place of a key: both are outdone. -/
def Displaces (map : Std.ExtTreeMap Key Value) (offers : List (Key × Value))
    (newcomer key : Key) : Prop :=
  newcomer ≠ key ∧ Outdone rank cap map offers newcomer ∧
    Outdone rank cap map offers key

/-- A key keeps an entry of at least some rank over offers: it had one at the
start or was offered one, and no later offer takes its place. -/
inductive Lasts (map : Std.ExtTreeMap Key Value) (key : Key) (least : Nat) :
    List (Key × Value) → Prop
  | held (value : Value) (lookup : map[key]? = some value)
      (enough : least ≤ rank value) : Lasts map key least []
  | offered (offers : List (Key × Value)) (value : Value)
      (enough : least ≤ rank value) :
      Lasts map key least (offers ++ [(key, value)])
  | spared (offers : List (Key × Value)) (other : Key × Value)
      (kept : Lasts map key least offers)
      (spares : ¬Displaces rank cap map offers other.1 key) :
      Lasts map key least (offers ++ [other])

variable {rank cap} {map : Std.ExtTreeMap Key Value}
  {offers : List (Key × Value)} {key : Key} {least : Nat}

theorem seen_concat {offered : Key × Value} {found : Nat} :
    Seen rank map (offers ++ [offered]) key found ↔
      Seen rank map offers key found ∨
        offered.1 = key ∧ rank offered.2 = found := by
  obtain ⟨other, value⟩ := offered
  simp only [Seen, List.mem_append, List.mem_singleton, Prod.mk.injEq]
  grind

theorem seen_nil {found : Nat} :
    Seen rank map [] key found ↔
      ∃ value, map[key]? = some value ∧ rank value = found := by
  simp [Seen]

/-- The keys seen so far. -/
def sighted (map : Std.ExtTreeMap Key Value) (offers : List (Key × Value)) :
    Finset Key :=
  map.keys.toFinset ∪ (offers.map Prod.fst).toFinset

theorem mem_sighted : key ∈ sighted map offers ↔
    ∃ found, Seen rank map offers key found := by
  simp only [sighted, Finset.mem_union, List.mem_toFinset,
    Std.ExtTreeMap.mem_keys, mem_iff_lookup, List.mem_map, Prod.exists, Seen]
  grind

theorem exists_best {found : Nat} (seen : Seen rank map offers key found) :
    ∃ best, Seen rank map offers key best ∧
      ∀ other, Seen rank map offers key other → other ≤ best := by
  have finite : {found | Seen rank map offers key found}.Finite := by
    refine Set.Finite.subset (((map[key]?).map rank).toFinset ∪
      (offers.map fun offered => rank offered.2).toFinset).finite_toSet ?_
    rintro other (⟨value, lookup, rfl⟩ | ⟨value, member, rfl⟩)
    · simp [lookup]
    · simp only [Finset.coe_union, Set.mem_union]
      exact .inr (by simpa using ⟨key, value, member, rfl⟩)
  obtain ⟨best, seenBest, highest⟩ :=
    Set.exists_max_image _ id finite ⟨found, seen⟩
  exact ⟨best, seenBest, highest⟩

theorem Outdone.concat (outdone : Outdone rank cap map offers key)
    {offered : Key × Value}
    (beaten : offered.1 = key →
      ∃ found, Seen rank map offers key found ∧ rank offered.2 ≤ found) :
    Outdone rank cap map (offers ++ [offered]) key := by
  obtain ⟨others, many, above⟩ := outdone
  refine ⟨others, many, fun other member => ?_⟩
  obtain ⟨found, seen, higher⟩ := above other member
  refine ⟨found, seen_concat.mpr (.inl seen), fun own held => ?_⟩
  rcases seen_concat.mp held with old | ⟨same, rfl⟩
  · exact higher own old
  · obtain ⟨best, seenBest, enough⟩ := beaten same
    refine lt_of_le_of_lt ?_ (higher best seenBest)
    exact Prod.Lex.toLex_le_toLex.mpr (enough.lt_or_eq.imp_right
      fun equal => ⟨equal, le_rfl⟩)

/-- The invariant of a table under offers: it holds what has been seen, it is
full once anything was lost, and who is not outdone has its highest rank. -/
structure Placed (rank : Value → Nat) (cap : Nat)
    (map : Std.ExtTreeMap Key Value) (offers : List (Key × Value))
    (table : Std.ExtTreeMap Key Value) : Prop where
  bounded : table.size ≤ cap
  seen : ∀ (key : Key) (value : Value), table[key]? = some value →
    Seen rank map offers key (rank value)
  full : ∀ (key : Key) (found : Nat), Seen rank map offers key found →
    key ∉ table → table.size = cap
  leading : ∀ (key : Key) (found : Nat), Seen rank map offers key found →
    ¬Outdone rank cap map offers key →
      ∃ value, table[key]? = some value ∧
        ∀ other, Seen rank map offers key other → other ≤ rank value

variable (rank) in
theorem card_unbeaten (many : cap ≤ (sighted map offers).card + 1) :
    ∃ leaders : Finset Key, cap ≤ leaders.card + 1 ∧ ∀ leader ∈ leaders,
      (∃ found, Seen rank map offers leader found) ∧
        ¬Outdone rank cap map offers leader := by
  classical
  have best : ∀ key, ∃ best, ∀ found, Seen rank map offers key found →
      Seen rank map offers key best ∧ found ≤ best := by
    intro key
    by_cases seen : ∃ found, Seen rank map offers key found
    · obtain ⟨best, held, highest⟩ := exists_best seen.choose_spec
      exact ⟨best, fun found seen => ⟨held, highest found seen⟩⟩
    · exact ⟨0, fun found held => absurd ⟨found, held⟩ seen⟩
  choose grade graded using best
  have leading := @card_leading Key (Lex (Nat × Key)) _ _
    (fun key => toLex (grade key, key)) (cap - 1) (sighted map offers)
    (by omega)
  refine ⟨_, Nat.sub_le_iff_le_add.mp leading, fun leader member => ?_⟩
  obtain ⟨listed, few⟩ := Finset.mem_filter.mp member
  obtain ⟨found, seen⟩ := mem_sighted.mp listed
  refine ⟨⟨found, seen⟩, fun outdone => ?_⟩
  obtain ⟨others, enough, above⟩ := outdone
  have within : others ⊆ (sighted map offers).filter fun other =>
      toLex (grade leader, leader) < toLex (grade other, other) := by
    intro other among
    obtain ⟨higher, sighted, beats⟩ := above other among
    refine Finset.mem_filter.mpr ⟨mem_sighted.mpr ⟨higher, sighted⟩, ?_⟩
    refine (beats _ (graded leader found seen).1).trans_le ?_
    exact Prod.Lex.toLex_le_toLex.mpr
      ((graded other higher sighted).2.lt_or_eq.imp_right
        fun equal => ⟨equal, le_rfl⟩)
  have counted := Finset.card_le_card within
  omega

namespace Placed

variable {table : Std.ExtTreeMap Key Value} {newcomer victim : Key}

theorem outdone_unique (placed : Placed rank cap map offers table)
    {first second : Key} (firstHeld : first ∈ table)
    (secondHeld : second ∈ table)
    (firstOutdone : Outdone rank cap map offers first)
    (secondOutdone : Outdone rank cap map offers second) :
    first = second := by
  by_contra different
  have many : cap ≤ (sighted map offers).card + 1 := by
    obtain ⟨others, enough, above⟩ := firstOutdone
    have within : others ⊆ sighted map offers := by
      intro other member
      obtain ⟨found, seen, _⟩ := above other member
      exact mem_sighted.mpr ⟨found, seen⟩
    have counted := Finset.card_le_card within
    omega
  obtain ⟨leaders, enough, unbeaten⟩ := card_unbeaten rank many
  have distinct : first ∉ insert second leaders ∧ second ∉ leaders := by
    refine ⟨fun member => ?_, fun member => ?_⟩
    · rcases Finset.mem_insert.mp member with same | leads
      · exact different same
      · exact (unbeaten first leads).2 firstOutdone
    · exact (unbeaten second member).2 secondOutdone
  have within : insert first (insert second leaders) ⊆
      table.keys.toFinset := by
    intro key member
    rw [mem_keys_toFinset]
    rcases Finset.mem_insert.mp member with rfl | member
    · exact firstHeld
    · rcases Finset.mem_insert.mp member with rfl | leads
      · exact secondHeld
      · obtain ⟨⟨found, seen⟩, leading⟩ := unbeaten key leads
        obtain ⟨value, lookup, _⟩ := placed.leading key found seen leading
        exact mem_iff_lookup.mpr ⟨value, lookup⟩
  have counted := Finset.card_le_card within
  rw [Finset.card_insert_of_notMem distinct.1,
    Finset.card_insert_of_notMem distinct.2, card_keys] at counted
  have bounded := placed.bounded
  omega

theorem displaces_of_givesWay (placed : Placed rank cap map offers table)
    (gives : GivesWay rank cap table newcomer victim) :
    Displaces rank cap map offers newcomer victim := by
  obtain ⟨value, lookup, least⟩ := gives.least
  have held : victim ∈ table := mem_iff_lookup.mpr ⟨value, lookup⟩
  -- The other keys of the full table fill all places but one.
  have others : cap ≤ (table.keys.toFinset.erase victim).card + 1 := by
    rw [Finset.card_erase_add_one (mem_keys_toFinset.mpr held), card_keys,
      gives.full]
  have beside : ∀ other ∈ table.keys.toFinset.erase victim,
      other ≠ victim ∧ ∃ own, table[other]? = some own := by
    intro other member
    obtain ⟨apart, member⟩ := Finset.mem_erase.mp member
    exact ⟨apart, mem_iff_lookup.mp (mem_keys_toFinset.mp member)⟩
  have beaten : Outdone rank cap map offers victim := by
    by_contra leads
    obtain ⟨own, present, highest⟩ :=
      placed.leading victim _ (placed.seen victim value lookup) leads
    obtain rfl : value = own := Option.some.inj (lookup.symm.trans present)
    refine leads ⟨_, others, fun other member => ?_⟩
    obtain ⟨apart, above, found⟩ := beside other member
    refine ⟨rank above, placed.seen other above found, fun own seen => ?_⟩
    refine Prod.Lex.toLex_lt_toLex.mpr ?_
    have enough := highest own seen
    rcases least other above found with less | ⟨equal, order⟩
    · exact .inl (by omega)
    · rcases enough.lt_or_eq with less | same
      · exact .inl (by omega)
      · exact .inr ⟨same.trans equal,
          lt_of_le_of_ne order (Ne.symm apart)⟩
  refine ⟨fun same => gives.new (same ▸ held), ?_, beaten⟩
  by_cases seen : ∃ found, Seen rank map offers newcomer found
  · by_contra leads
    obtain ⟨own, present, _⟩ :=
      placed.leading newcomer _ seen.choose_spec leads
    exact gives.new (mem_iff_lookup.mpr ⟨own, present⟩)
  · refine ⟨_, others, fun other member => ?_⟩
    obtain ⟨_, above, found⟩ := beside other member
    exact ⟨rank above, placed.seen other above found,
      fun own held => absurd ⟨own, held⟩ seen⟩

theorem full_of_outdone (placed : Placed rank cap map offers table)
    (held : victim ∈ table) (outdone : Outdone rank cap map offers victim) :
    table.size = cap := by
  by_contra room
  obtain ⟨others, enough, above⟩ := outdone
  have within : insert victim others ⊆ table.keys.toFinset := by
    intro key member
    rw [mem_keys_toFinset]
    rcases Finset.mem_insert.mp member with rfl | member
    · exact held
    · obtain ⟨found, seen, _⟩ := above key member
      by_contra lost
      exact room (placed.full key found seen lost)
  have apart : victim ∉ others := by
    intro member
    obtain ⟨found, seen, higher⟩ := above victim member
    exact lt_irrefl _ (higher found seen)
  have counted := Finset.card_le_card within
  rw [Finset.card_insert_of_notMem apart, card_keys] at counted
  have bounded := placed.bounded
  omega

theorem evicted_of_displaces (placed : Placed rank cap map offers table)
    (held : victim ∈ table)
    (displaces : Displaces rank cap map offers newcomer victim) :
    evicted rank cap table newcomer = some victim := by
  obtain ⟨different, newOutdone, outdone⟩ := displaces
  have new : newcomer ∉ table := fun present =>
    different (placed.outdone_unique present held newOutdone outdone)
  have full := placed.full_of_outdone held outdone
  have positive : 0 < cap := by
    rw [← full, ← Std.ExtTreeMap.length_keys]
    exact List.length_pos_of_mem (Std.ExtTreeMap.mem_keys.mpr held)
  obtain ⟨evictee, evicts⟩ : ∃ evictee,
      evicted rank cap table newcomer = some evictee := by
    refine Option.ne_none_iff_exists'.mp fun none => ?_
    rcases of_evicted_eq_none rank positive none with present | room
    · exact new present
    · exact room.ne full
  have gives := givesWay_of_evicted rank full.le evicts
  obtain ⟨own, present, _⟩ := gives.least
  have same := placed.outdone_unique held
    (mem_iff_lookup.mpr ⟨own, present⟩) outdone
    (placed.displaces_of_givesWay gives).2.2
  rw [evicts, same]

theorem start (bounded : map.size ≤ cap) : Placed rank cap map [] map := by
  refine ⟨bounded, fun key value lookup => ?_, ?_, ?_⟩
  · exact seen_nil.mpr ⟨value, lookup, rfl⟩
  · intro key found seen lost
    obtain ⟨value, lookup, _⟩ := seen_nil.mp seen
    exact absurd (mem_iff_lookup.mpr ⟨value, lookup⟩) lost
  · intro key found seen _
    obtain ⟨value, lookup, rfl⟩ := seen_nil.mp seen
    refine ⟨value, lookup, fun other held => ?_⟩
    obtain ⟨same, again, rfl⟩ := seen_nil.mp held
    rw [Option.some.inj (again.symm.trans lookup)]

theorem refused (placed : Placed rank cap map offers table)
    {offered : Key × Value} {old : Value}
    (lookup : table[offered.1]? = some old)
    (enough : rank offered.2 ≤ rank old) :
    Placed rank cap map (offers ++ [offered]) table := by
  have present : offered.1 ∈ table := mem_iff_lookup.mpr ⟨old, lookup⟩
  refine ⟨placed.bounded, fun key value found =>
    seen_concat.mpr (.inl (placed.seen key value found)), ?_, ?_⟩
  · intro key found seen lost
    rcases seen_concat.mp seen with old | ⟨rfl, _⟩
    · exact placed.full key found old lost
    · exact absurd present lost
  · intro key found seen leads
    have ledBefore : ¬Outdone rank cap map offers key := by
      intro outdone
      refine leads (outdone.concat ?_)
      rintro rfl
      exact ⟨rank old, placed.seen _ _ lookup, enough⟩
    obtain ⟨earlier, seenBefore⟩ :
        ∃ earlier, Seen rank map offers key earlier := by
      rcases seen_concat.mp seen with held | ⟨rfl, _⟩
      · exact ⟨found, held⟩
      · exact ⟨rank old, placed.seen _ _ lookup⟩
    obtain ⟨value, present, highest⟩ :=
      placed.leading key earlier seenBefore ledBefore
    refine ⟨value, present, fun other held => ?_⟩
    rcases seen_concat.mp held with before | ⟨rfl, rfl⟩
    · exact highest other before
    · rw [lookup] at present
      obtain rfl := Option.some.inj present
      exact enough

theorem taken (placed : Placed rank cap map offers table)
    (positive : 0 < cap) {offered : Key × Value}
    (outranks : ∀ old, table[offered.1]? = some old →
      rank old < rank offered.2) :
    Placed rank cap map (offers ++ [offered])
      (insertCapped rank cap table offered.1 offered.2) := by
  have bounded := size_insertCapped_le rank positive placed.bounded
    offered.1 offered.2
  refine ⟨bounded, ?_, ?_, ?_⟩
  · intro key value lookup
    rcases getElem?_of_insertCapped rank lookup with ⟨rfl, rfl⟩ | ⟨_, old⟩
    · exact seen_concat.mpr (.inr ⟨rfl, rfl⟩)
    · exact seen_concat.mpr (.inl (placed.seen key value old))
  · intro key found seen lost
    have before : Seen rank map offers key found := by
      rcases seen_concat.mp seen with old | ⟨rfl, _⟩
      · exact old
      · exact absurd (mem_iff_lookup.mpr
          ⟨_, getElem?_insertCapped_self rank cap _ _ _⟩) lost
    have full : table.size = cap := by
      by_cases present : key ∈ table
      · have evicts := (mem_insertCapped_or_evicted rank present cap
          offered.1 offered.2).resolve_left lost
        exact (givesWay_of_evicted rank placed.bounded evicts).full
      · exact placed.full key found before present
    have grown := size_le_insertCapped rank cap table offered.1 offered.2
    omega
  · intro key found seen leads
    by_cases same : offered.1 = key
    · subst same
      refine ⟨offered.2, getElem?_insertCapped_self rank cap _ _ _, ?_⟩
      intro other held
      rcases seen_concat.mp held with before | ⟨_, rfl⟩
      · -- Had it been seen higher, it would have led and refused the offer.
        by_contra higher
        have ledBefore : ¬Outdone rank cap map offers offered.1 :=
          fun outdone => leads (outdone.concat fun _ =>
            ⟨other, before, (not_le.mp higher).le⟩)
        obtain ⟨value, present, highest⟩ :=
          placed.leading offered.1 other before ledBefore
        have enough := highest other before
        have outranked := outranks value present
        omega
      · exact le_rfl
    · have ledBefore : ¬Outdone rank cap map offers key :=
        fun outdone => leads (outdone.concat fun equal => absurd equal same)
      have seenBefore : ∀ other, Seen rank map (offers ++ [offered]) key
          other → Seen rank map offers key other := fun other held =>
        (seen_concat.mp held).resolve_right fun equal => same equal.1
      obtain ⟨value, present, highest⟩ :=
        placed.leading key found (seenBefore found seen) ledBefore
      refine ⟨value, ?_, fun other held => highest other (seenBefore other
        held)⟩
      rw [getElem?_insertCapped_of_ne rank (Ne.symm same), if_neg, present]
      intro evicts
      exact ledBefore (placed.displaces_of_givesWay
        (givesWay_of_evicted rank placed.bounded evicts)).2.2

end Placed

theorem placed_final (positive : 0 < cap) (bounded : map.size ≤ cap)
    (offers : List (Key × Value)) :
    Placed rank cap map offers ((offer rank cap).final map offers) := by
  induction offers using List.reverseRecOn with
  | nil => exact .start bounded
  | append_singleton offers offered induction =>
      rw [Machine.final_concat, offer]
      split
      · rename_i fresher
        refine induction.taken positive fun old lookup => ?_
        rw [lookup] at fresher
        exact of_decide_eq_true fresher
      · rename_i staler
        obtain ⟨old, lookup, enough⟩ : ∃ old,
            ((offer rank cap).final map offers)[offered.1]? = some old ∧
              rank offered.2 ≤ rank old := by
          cases lookup : ((offer rank cap).final map offers)[offered.1]? with
          | none => simp [lookup] at staler
          | some old => exact ⟨old, rfl, by simpa [lookup] using staler⟩
        exact induction.refused lookup enough

theorem getElem?_offer_of_ne {offered : Key × Value}
    (different : offered.1 ≠ key) :
    (offer rank cap map offered).1[key]? =
      if evicted rank cap map offered.1 = some key then none
      else map[key]? := by
  unfold offer
  split
  · exact getElem?_insertCapped_of_ne rank (Ne.symm different)
  · rename_i staler
    have present : offered.1 ∈ map := by
      by_contra absent
      simp [Std.ExtTreeMap.getElem?_eq_none absent] at staler
    rw [evicted, Std.ExtTreeMap.contains_iff_mem.mpr present]
    rfl

theorem Placed.offer_iff {table : Std.ExtTreeMap Key Value}
    (placed : Placed rank cap map offers table) (offered : Key × Value) :
    (∃ value, (offer rank cap table offered).1[key]? = some value ∧
        least ≤ rank value) ↔
      offered.1 = key ∧ least ≤ rank offered.2 ∨
        (∃ value, table[key]? = some value ∧ least ≤ rank value) ∧
          ¬Displaces rank cap map offers offered.1 key := by
  by_cases same : offered.1 = key
  · subst same
    have spares : ¬Displaces rank cap map offers offered.1 offered.1 :=
      fun displaces => displaces.1 rfl
    unfold offer
    split
    · simp only [getElem?_insertCapped_self]
      grind
    · grind
  · rw [getElem?_offer_of_ne same]
    constructor
    · rintro ⟨value, lookup, enough⟩
      split at lookup
      · cases lookup
      · rename_i spares
        refine .inr ⟨⟨value, lookup, enough⟩, fun displaces => spares ?_⟩
        exact placed.evicted_of_displaces
          (mem_iff_lookup.mpr ⟨value, lookup⟩) displaces
    · rintro (⟨equal, _⟩ | ⟨held, spares⟩)
      · exact absurd equal same
      · rw [if_neg fun evicts => spares (placed.displaces_of_givesWay
          (givesWay_of_evicted rank placed.bounded evicts))]
        exact held

theorem lasts_nil : Lasts rank cap map key least [] ↔
    ∃ value, map[key]? = some value ∧ least ≤ rank value := by
  constructor
  · generalize empty : ([] : List (Key × Value)) = offers
    rintro (⟨value, lookup, enough⟩ | _ | _)
    · exact ⟨value, lookup, enough⟩
    · simp at empty
    · simp at empty
  · rintro ⟨value, lookup, enough⟩
    exact .held value lookup enough

theorem lasts_concat {offered : Key × Value} :
    Lasts rank cap map key least (offers ++ [offered]) ↔
      offered.1 = key ∧ least ≤ rank offered.2 ∨
        Lasts rank cap map key least offers ∧
          ¬Displaces rank cap map offers offered.1 key := by
  constructor
  · generalize joined : offers ++ [offered] = all
    rintro (_ | ⟨earlier, value, enough⟩ | ⟨earlier, other, lasted, spares⟩)
    · simp at joined
    · obtain ⟨rfl, rfl⟩ := List.append_singleton_inj.mp joined
      exact .inl ⟨rfl, enough⟩
    · obtain ⟨rfl, rfl⟩ := List.append_singleton_inj.mp joined
      exact .inr ⟨lasted, spares⟩
  · rintro (⟨rfl, enough⟩ | ⟨lasted, spares⟩)
    · exact .offered offers offered.2 enough
    · exact .spared offers offered lasted spares

/-- What stands in a table that offers made, in closed form. -/
theorem lasts_iff (positive : 0 < cap) (bounded : map.size ≤ cap) :
    Lasts rank cap map key least offers ↔
      ∃ value, ((offer rank cap).final map offers)[key]? = some value ∧
        least ≤ rank value := by
  induction offers using List.reverseRecOn with
  | nil => exact lasts_nil
  | append_singleton offers offered induction =>
      rw [lasts_concat, induction, Machine.final_concat,
        (placed_final positive bounded offers).offer_iff]

/-! ## Offers without the key, with room, and without another key -/

/-- A key that no offer is for lasts from the start, unless some offer takes
its place. -/
theorem lasts_iff_of_unmentioned (unmentioned : key ∉ offers.map Prod.fst) :
    Lasts rank cap map key least offers ↔
      (∃ value, map[key]? = some value ∧ least ≤ rank value) ∧
        ∀ before newcomer after, offers = before ++ newcomer :: after →
          ¬Displaces rank cap map before newcomer.1 key := by
  induction offers using List.reverseRecOn with
  | nil => simp [lasts_nil]
  | append_singleton offers offered induction =>
      simp only [List.map_append, List.map_cons, List.map_nil,
        List.mem_append, List.mem_singleton, not_or] at unmentioned
      have apart : ¬(offered.1 = key ∧ least ≤ rank offered.2) :=
        fun same => unmentioned.2 same.1.symm
      rw [lasts_concat, or_iff_right apart, induction unmentioned.1,
        and_assoc]
      refine and_congr_right fun _ => ⟨fun spares => ?_, fun spares => ?_⟩
      · intro before newcomer after split
        rcases List.eq_nil_or_concat after with rfl | ⟨front, last, rfl⟩
        · obtain ⟨rfl, rfl⟩ := List.append_singleton_inj.mp split
          exact spares.2
        · rw [List.concat_eq_append, ← List.cons_append,
            ← List.append_assoc] at split
          exact spares.1 _ _ _ (List.append_singleton_inj.mp split).1
      · refine ⟨fun before newcomer after split => ?_,
          spares offers offered [] rfl⟩
        exact spares before newcomer (after ++ [offered]) (by simp [split])

theorem seen_filter {other : Key} (different : key ≠ other) {found : Nat} :
    Seen rank map (offers.filter fun offered => offered.1 ≠ other) key
        found ↔
      Seen rank map offers key found := by
  simp only [Seen, List.mem_filter, decide_eq_true_eq]
  grind

theorem Lasts.filter {other : Key} (different : key ≠ other)
    (lasted : Lasts rank cap map key least offers) :
    Lasts rank cap map key least
      (offers.filter fun offered => offered.1 ≠ other) := by
  have outdone : ∀ {offers : List (Key × Value)} {other key : Key},
      key ≠ other → Outdone rank cap map
        (offers.filter fun offered => offered.1 ≠ other) key →
      Outdone rank cap map offers key := by
    rintro offers other key apart ⟨others, many, above⟩
    refine ⟨others, many, fun rival member => ?_⟩
    obtain ⟨found, seen, beats⟩ := above rival member
    refine ⟨found, ?_, fun own held => beats own ((seen_filter apart).mpr held)⟩
    rcases seen with start | ⟨value, listed, equal⟩
    · exact .inl start
    · exact .inr ⟨value, List.mem_of_mem_filter listed, equal⟩
  induction lasted with
  | held value lookup enough => exact .held value lookup enough
  | offered offers value enough =>
      rw [List.filter_append, List.filter_cons_of_pos (by simpa using different)]
      exact .offered _ value enough
  | spared offers newcomer _ spares induction =>
      rw [List.filter_append]
      by_cases same : newcomer.1 = other
      · rw [List.filter_cons_of_neg (by simpa using same), List.filter_nil,
          List.append_nil]
        exact induction
      · rw [List.filter_cons_of_pos (by simpa using same), List.filter_nil]
        refine .spared _ newcomer induction fun displaces => spares ?_
        exact ⟨displaces.1, outdone same displaces.2.1,
          outdone different displaces.2.2⟩

end FiniteMap
