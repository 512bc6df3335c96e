import Mathlib

/-!
# Concatenations that are read back in one way

A prefix code writes items so that each can be told from whatever follows it.
Words of one length, words before a terminator, pairs of codes and counted
lists are prefix codes, and a stream made of them is read back in one way.

Where the parts of a text are joined by a separator instead, it is read back
in one way as long as no part contains it.
-/

theorem List.append_cons_inj_of_notMem_left {Symbol : Type}
    {stop : Symbol} {left right leftRest rightRest : List Symbol}
    (leftFree : stop ∉ left) (rightFree : stop ∉ right)
    (same : left ++ stop :: leftRest = right ++ stop :: rightRest) :
    left = right ∧ leftRest = rightRest := by
  rcases List.append_eq_append_iff.mp same with
    ⟨gap, rfl, rest⟩ | ⟨gap, rfl, rest⟩
  · cases gap with
    | nil => simpa using rest
    | cons symbol gap =>
        obtain ⟨rfl, -⟩ := List.cons.inj rest
        simp at rightFree
  · cases gap with
    | nil => simpa using rest.symm
    | cons symbol gap =>
        obtain ⟨rfl, -⟩ := List.cons.inj rest
        simp at leftFree

/-- The word of a valid item can be told from whatever follows it. -/
def PrefixCode {Item Symbol : Type} (valid : Item → Prop)
    (code : Item → List Symbol) : Prop :=
  ∀ ⦃left right leftRest rightRest⦄, valid left → valid right →
    code left ++ leftRest = code right ++ rightRest →
      left = right ∧ leftRest = rightRest

namespace PrefixCode

variable {Item Other Symbol : Type} {valid : Item → Prop}
  {validOther : Other → Prop} {code : Item → List Symbol}
  {codeOther : Other → List Symbol}

theorem of_length {width : Nat} (length : ∀ item, (code item).length = width)
    (injective : ∀ left right, valid left → valid right →
      code left = code right → left = right) :
    PrefixCode valid code := by
  intro left right leftRest rightRest leftValid rightValid same
  obtain ⟨words, rest⟩ := List.append_inj same
    ((length left).trans (length right).symm)
  exact ⟨injective left right leftValid rightValid words, rest⟩

theorem of_terminator {stop : Symbol} (free : ∀ item, stop ∉ code item)
    (injective : Function.Injective code) :
    PrefixCode (fun _ => True) fun item => code item ++ [stop] := by
  intro left right leftRest rightRest _ _ same
  simp only [List.append_assoc, List.singleton_append] at same
  obtain ⟨words, rest⟩ := List.append_cons_inj_of_notMem_left (free left)
    (free right) same
  exact ⟨injective words, rest⟩

theorem comap (reads : PrefixCode valid code) {image : Other → Item}
    (injective : Function.Injective image) :
    PrefixCode (fun other => valid (image other))
      fun other => code (image other) := by
  intro left right leftRest rightRest leftValid rightValid same
  obtain ⟨images, rest⟩ := reads leftValid rightValid same
  exact ⟨injective images, rest⟩

theorem append (reads : PrefixCode valid code)
    (readsOther : PrefixCode validOther codeOther) :
    PrefixCode (fun pair : Item × Other => valid pair.1 ∧ validOther pair.2)
      fun pair => code pair.1 ++ codeOther pair.2 := by
  rintro ⟨left, leftOther⟩ ⟨right, rightOther⟩ leftRest rightRest leftValid
    rightValid same
  simp only [List.append_assoc] at same
  obtain ⟨rfl, later⟩ := reads leftValid.1 rightValid.1 same
  obtain ⟨rfl, rest⟩ := readsOther leftValid.2 rightValid.2 later
  exact ⟨rfl, rest⟩

theorem flatMap_inj (reads : PrefixCode valid code) {left right : List Item}
    {leftRest rightRest : List Symbol} (leftValid : ∀ item ∈ left, valid item)
    (rightValid : ∀ item ∈ right, valid item)
    (count : left.length = right.length)
    (same : left.flatMap code ++ leftRest =
      right.flatMap code ++ rightRest) :
    left = right ∧ leftRest = rightRest := by
  induction left generalizing right with
  | nil =>
      obtain rfl := List.length_eq_zero_iff.mp count.symm
      exact ⟨rfl, same⟩
  | cons first left induction =>
      cases right with
      | nil => cases count
      | cons other right =>
          simp only [List.flatMap_cons, List.append_assoc] at same
          obtain ⟨rfl, later⟩ := reads (leftValid first List.mem_cons_self)
            (rightValid other List.mem_cons_self) same
          obtain ⟨rfl, rest⟩ := induction
            (fun item member => leftValid item (List.mem_cons_of_mem _ member))
            (fun item member => rightValid item (List.mem_cons_of_mem _ member))
            (Nat.succ.inj count) later
          exact ⟨rfl, rest⟩

theorem counted {validCount : Nat → Prop} {count : Nat → List Symbol}
    (readsCount : PrefixCode validCount count)
    (reads : PrefixCode valid code) :
    PrefixCode (fun items : List Item =>
        validCount items.length ∧ ∀ item ∈ items, valid item)
      fun items => count items.length ++ items.flatMap code := by
  intro left right leftRest rightRest leftValid rightValid same
  simp only [List.append_assoc] at same
  obtain ⟨lengths, later⟩ := readsCount leftValid.1 rightValid.1 same
  exact reads.flatMap_inj leftValid.2 rightValid.2 lengths later

end PrefixCode

namespace List

variable {Symbol : Type} {stop : Symbol}

theorem append_cons_inj_of_notMem_right {left right leftRest rightRest :
      List Symbol} (leftFree : stop ∉ leftRest) (rightFree : stop ∉ rightRest)
    (same : left ++ stop :: leftRest = right ++ stop :: rightRest) :
    left = right ∧ leftRest = rightRest := by
  have mirrored := congrArg List.reverse same
  simp only [List.reverse_append, List.reverse_cons, List.append_assoc,
    List.singleton_append] at mirrored
  obtain ⟨rests, fronts⟩ := List.append_cons_inj_of_notMem_left
    (by simpa using leftFree) (by simpa using rightFree) mirrored
  exact ⟨List.reverse_injective fronts, List.reverse_injective rests⟩

/-- A text joined of parts contains what the parts contain, and the
separator. -/
theorem notMem_intercalate_singleton {symbol : Symbol}
    (other : symbol ≠ stop) {parts : List (List Symbol)}
    (free : ∀ part ∈ parts, symbol ∉ part) :
    symbol ∉ [stop].intercalate parts := by
  induction parts with
  | nil => simp
  | cons part parts induction =>
      have here := free part List.mem_cons_self
      have later := induction fun part member =>
        free part (List.mem_cons_of_mem _ member)
      cases parts with
      | nil => simpa using here
      | cons next parts =>
          rw [List.intercalate_cons_cons]
          simp [here, other, later]

/-- Parts without the separator are read back from the text they are joined
to, but for no part and one blank part. -/
theorem intercalate_singleton_inj {left right : List (List Symbol)}
    (leftFree : ∀ part ∈ left, stop ∉ part)
    (rightFree : ∀ part ∈ right, stop ∉ part) (leftBlank : left ≠ [[]])
    (rightBlank : right ≠ [[]])
    (same : [stop].intercalate left = [stop].intercalate right) :
    left = right := by
  classical
  by_cases leftEmpty : left = []
  · by_cases rightEmpty : right = []
    · rw [leftEmpty, rightEmpty]
    · have reread := List.splitOn_intercalate stop rightFree rightEmpty
      rw [← same, leftEmpty] at reread
      exact absurd reread.symm (by simpa using rightBlank)
  · have reread := List.splitOn_intercalate stop leftFree leftEmpty
    by_cases rightEmpty : right = []
    · rw [same, rightEmpty] at reread
      exact absurd reread.symm (by simpa using leftBlank)
    · rw [← reread, same, List.splitOn_intercalate stop rightFree rightEmpty]

end List

/-- Sorted by an injective key, lists are equal exactly when they are equal up
to order. -/
theorem List.insertionSort_eq_iff_perm {Item Key : Type} [LinearOrder Key]
    {key : Item → Key} (injective : Function.Injective key)
    {left right : List Item} :
    left.insertionSort (fun first second => key first ≤ key second) =
        right.insertionSort (fun first second => key first ≤ key second) ↔
      left.Perm right := by
  have total : Std.Total fun first second : Item => key first ≤ key second :=
    ⟨fun _ _ => le_total _ _⟩
  have transitive : IsTrans Item fun first second => key first ≤ key second :=
    ⟨fun _ _ _ => le_trans⟩
  constructor
  · intro same
    have sorted := List.perm_insertionSort
      (fun first second => key first ≤ key second)
    exact (sorted left).symm.trans (same ▸ sorted right)
  · intro permuted
    refine List.Perm.eq_of_pairwise ?_ (List.pairwise_insertionSort _ left)
      (List.pairwise_insertionSort _ right) ?_
    · intro first second _ _ forward backward
      exact injective (le_antisymm forward backward)
    · exact ((List.perm_insertionSort _ _).trans permuted).trans
        (List.perm_insertionSort _ _).symm
