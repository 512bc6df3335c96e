import DigPex.Library.Machine

/-!
# Computations with run-time checks

A checked computation ends in a value or in the failure of one of its checks.
A guarded machine is a machine whose steps are checked.  Where every check of
every step of a run succeeds, the guarded run is the run of the plain machine.
-/

namespace Except

variable {Failure Value Result : Type}

theorem ok_bind (value : Value) (next : Value → Except Failure Result) :
    ((ok value : Except Failure Value) >>= next) = next value :=
  rfl

/-- The items a checked test keeps. -/
def filterList (test : Value → Except Failure Bool) :
    List Value → Except Failure (List Value)
  | [] => ok []
  | item :: items => do
      let keeps ← test item
      let kept ← filterList test items
      return if keeps then item :: kept else kept

theorem filterList_eq_ok {test : Value → Except Failure Bool}
    {keeps : Value → Bool} (agrees : ∀ item, test item = ok (keeps item))
    (items : List Value) :
    filterList test items = ok (items.filter keeps) := by
  induction items with
  | nil => rfl
  | cons item items induction =>
      rw [filterList, agrees, ok_bind, induction, ok_bind, List.filter_cons]
      rfl

end Except

/-! ## Arithmetic of fixed width -/

namespace Nat

/-- A sum, if it fits a number of bits. -/
def addFits (bits left right : Nat) : Option Nat :=
  if left + right < 2 ^ bits then some (left + right) else none

/-- A product, if it fits a number of bits. -/
def mulFits (bits left right : Nat) : Option Nat :=
  if left * right < 2 ^ bits then some (left * right) else none

/-- A difference, if it is not negative. -/
def subFits (left right : Nat) : Option Nat :=
  if right ≤ left then some (left - right) else none

variable {bits left right : Nat}

theorem addFits_of_lt (fits : left + right < 2 ^ bits) :
    addFits bits left right = some (left + right) :=
  if_pos fits

theorem mulFits_of_lt (fits : left * right < 2 ^ bits) :
    mulFits bits left right = some (left * right) :=
  if_pos fits

theorem subFits_of_le (ordered : right ≤ left) :
    subFits left right = some (left - right) :=
  if_pos ordered

end Nat

/-! ## Guarded machines -/

/-- One checked step of a machine. -/
abbrev GuardedMachine (State Input Output Failure : Type) :=
  State → Input → Except Failure (State × Output)

namespace GuardedMachine

variable {State Input Output Failure : Type}
  (guarded : GuardedMachine State Input Output Failure)

/-- The state and the outputs of a run, or the first failure in it. -/
def run (start : State) :
    List Input → Except Failure (State × List Output)
  | [] => .ok (start, [])
  | input :: inputs => do
      let stepped ← guarded start input
      let ended ← run stepped.1 inputs
      return (ended.1, stepped.2 :: ended.2)

variable {guarded} {plain : Machine State Input Output}

/-- Agreement rule: where every step of a plain run passes its checks with the
plain result, so does the run. -/
theorem run_eq_ok {start : State} {inputs : List Input}
    (agrees : plain.Along
      (fun state input => guarded state input = .ok (plain state input))
      start inputs) :
    guarded.run start inputs =
      .ok (plain.final start inputs, plain.outputs start inputs) := by
  induction inputs generalizing start with
  | nil => rfl
  | cons input inputs induction =>
      rw [run, agrees.1, Except.ok_bind, induction agrees.2, Except.ok_bind]
      rfl

/-- Agreement rule with an invariant: the plain steps keep it, and under it
the checks of a step succeed. -/
theorem run_eq_ok_of_invariant (Invariant : State → Prop) {start : State}
    (initial : Invariant start)
    (preserved : ∀ state input, Invariant state →
      Invariant (plain state input).1)
    (agrees : ∀ state input, Invariant state →
      guarded state input = .ok (plain state input)) (inputs : List Input) :
    guarded.run start inputs =
      .ok (plain.final start inputs, plain.outputs start inputs) := by
  apply run_eq_ok
  apply (plain.along_iff start inputs).mpr
  intro earlier input later _
  exact agrees _ input
    (plain.final_invariant Invariant initial preserved earlier)

end GuardedMachine
