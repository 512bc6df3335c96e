import Mathlib

/-!
# Deterministic machines with outputs

A machine reads one input at a time, changes its state and returns an output.
The public calls of a component form one machine, and so does each loop of the
component that mutates state and may push a result per element.

This module supplies runs, traces and the induction rules used for them: an
invariant that may mention the past, under a condition on every step, a
function that commutes with every step, a relation between two runs in
lockstep, and a machine that reads a stream piece by piece.
-/

/-- One step of a deterministic machine: the next state and the output. -/
abbrev Machine (State Input Output : Type) :=
  State → Input → State × Output

namespace Machine

variable {State Input Output : Type} (machine : Machine State Input Output)

/-- The state reached after reading a list of inputs. -/
def final (start : State) : List Input → State
  | [] => start
  | input :: inputs => final (machine start input).1 inputs

/-- The inputs of a run, each with the output it was answered by. -/
def trace (start : State) : List Input → List (Input × Output)
  | [] => []
  | input :: inputs =>
      (input, (machine start input).2) :: trace (machine start input).1 inputs

/-- The outputs of a run in order. -/
def outputs (start : State) (inputs : List Input) : List Output :=
  (machine.trace start inputs).map Prod.snd

/-- Every step of a run satisfies a condition on the state before it and its
input. -/
def Along (allowed : State → Input → Prop) (start : State) :
    List Input → Prop
  | [] => True
  | input :: inputs =>
      allowed start input ∧ Along allowed (machine start input).1 inputs

instance (allowed : State → Input → Prop)
    [∀ state input, Decidable (allowed state input)] :
    ∀ start inputs, Decidable (machine.Along allowed start inputs)
  | _, [] => isTrue trivial
  | start, input :: inputs =>
      have := instDecidableAlong allowed (machine start input).1 inputs
      inferInstanceAs (Decidable
        (allowed start input ∧
          machine.Along allowed (machine start input).1 inputs))

@[simp] theorem final_nil (start : State) : machine.final start [] = start :=
  rfl

@[simp] theorem final_cons (start : State) (input : Input)
    (inputs : List Input) :
    machine.final start (input :: inputs) =
      machine.final (machine start input).1 inputs :=
  rfl

@[simp] theorem trace_nil (start : State) : machine.trace start [] = [] :=
  rfl

@[simp] theorem trace_cons (start : State) (input : Input)
    (inputs : List Input) :
    machine.trace start (input :: inputs) =
      (input, (machine start input).2) ::
        machine.trace (machine start input).1 inputs :=
  rfl

@[simp] theorem outputs_nil (start : State) :
    machine.outputs start [] = [] :=
  rfl

@[simp] theorem outputs_cons (start : State) (input : Input)
    (inputs : List Input) :
    machine.outputs start (input :: inputs) =
      (machine start input).2 ::
        machine.outputs (machine start input).1 inputs :=
  rfl

@[simp] theorem length_trace (start : State) (inputs : List Input) :
    (machine.trace start inputs).length = inputs.length := by
  induction inputs generalizing start with
  | nil => rfl
  | cons input inputs induction => simp [induction]

@[simp] theorem length_outputs (start : State) (inputs : List Input) :
    (machine.outputs start inputs).length = inputs.length := by
  simp [outputs]

theorem final_append (start : State) (earlier later : List Input) :
    machine.final start (earlier ++ later) =
      machine.final (machine.final start earlier) later := by
  induction earlier generalizing start with
  | nil => rfl
  | cons input earlier induction => exact induction _

theorem trace_append (start : State) (earlier later : List Input) :
    machine.trace start (earlier ++ later) =
      machine.trace start earlier ++
        machine.trace (machine.final start earlier) later := by
  induction earlier generalizing start with
  | nil => rfl
  | cons input earlier induction =>
      simp [induction]

theorem outputs_append (start : State) (earlier later : List Input) :
    machine.outputs start (earlier ++ later) =
      machine.outputs start earlier ++
        machine.outputs (machine.final start earlier) later := by
  simp [outputs, trace_append]

theorem final_concat (start : State) (inputs : List Input) (input : Input) :
    machine.final start (inputs ++ [input]) =
      (machine (machine.final start inputs) input).1 := by
  simp [final_append]

theorem trace_concat (start : State) (inputs : List Input) (input : Input) :
    machine.trace start (inputs ++ [input]) =
      machine.trace start inputs ++
        [(input, (machine (machine.final start inputs) input).2)] := by
  simp [trace_append]

theorem mem_outputs {start : State} {inputs : List Input} {output : Output} :
    output ∈ machine.outputs start inputs ↔
      ∃ earlier input later, inputs = earlier ++ input :: later ∧
        (machine (machine.final start earlier) input).2 = output := by
  constructor
  · intro member
    induction inputs generalizing start with
    | nil => cases member
    | cons input inputs induction =>
        rcases List.mem_cons.mp member with rfl | later
        · exact ⟨[], input, inputs, rfl, rfl⟩
        · obtain ⟨earlier, next, rest, rfl, shown⟩ := induction later
          exact ⟨input :: earlier, next, rest, rfl, shown⟩
  · rintro ⟨earlier, input, later, rfl, rfl⟩
    rw [outputs_append, outputs_cons]
    exact List.mem_append_right _ (List.mem_cons_self ..)

theorem of_flatten_outputs {Item : Type}
    {machine : Machine State Input (List Item)} {start : State}
    {inputs : List Input} {earlier later : List Item} {item : Item}
    (joined : (machine.outputs start inputs).flatten =
      earlier ++ item :: later) :
    ∃ before input after front back,
      inputs = before ++ input :: after ∧
        (machine (machine.final start before) input).2 =
          front ++ item :: back ∧
        earlier = (machine.outputs start before).flatten ++ front := by
  induction inputs generalizing start earlier with
  | nil => simp at joined
  | cons input inputs induction =>
      rw [outputs_cons, List.flatten_cons, List.append_eq_append_iff]
        at joined
      rcases joined with ⟨rest, rfl, split⟩ | ⟨rest, here, split⟩
      · obtain ⟨before, next, after, front, back, rfl, output, rfl⟩ :=
          induction split
        exact ⟨input :: before, next, after, front, back, rfl, output,
          by simp⟩
      · cases rest with
        | nil =>
            obtain ⟨before, next, after, front, back, rfl, output, empty⟩ :=
              @induction (machine start input).1 [] (by simpa using split.symm)
            refine ⟨input :: before, next, after, front, back, rfl, output, ?_⟩
            rw [outputs_cons, List.flatten_cons, List.append_assoc, ← empty,
              here, List.append_nil, List.append_nil]
        | cons first rest =>
            obtain ⟨rfl, _⟩ := List.cons.inj split
            exact ⟨[], input, inputs, earlier, rest, rfl, here, by simp⟩

theorem along_append {allowed : State → Input → Prop} (start : State)
    (earlier later : List Input) :
    machine.Along allowed start (earlier ++ later) ↔
      machine.Along allowed start earlier ∧
        machine.Along allowed (machine.final start earlier) later := by
  induction earlier generalizing start with
  | nil => simp [Along]
  | cons input earlier induction => simp [Along, induction, and_assoc]

theorem along_iff {allowed : State → Input → Prop} (start : State)
    (inputs : List Input) :
    machine.Along allowed start inputs ↔
      ∀ earlier input later, inputs = earlier ++ input :: later →
        allowed (machine.final start earlier) input := by
  constructor
  · rintro along earlier input later rfl
    exact ((machine.along_append start earlier _).mp along).2.1
  · intro everywhere
    induction inputs generalizing start with
    | nil => trivial
    | cons input inputs induction =>
        refine ⟨everywhere [] input inputs rfl, induction _ ?_⟩
        rintro earlier next later rfl
        exact everywhere (input :: earlier) next later rfl

/-- Invariant rule with history: what holds of the empty past and is kept by
every allowed step holds of the trace and the state of every allowed run. -/
theorem trace_invariant_along {allowed : State → Input → Prop}
    {Invariant : List (Input × Output) → State → Prop} {start : State}
    (initial : Invariant [] start)
    (preserved : ∀ past state input, allowed state input →
      Invariant past state →
        Invariant (past ++ [(input, (machine state input).2)])
          (machine state input).1)
    {inputs : List Input} (along : machine.Along allowed start inputs) :
    Invariant (machine.trace start inputs) (machine.final start inputs) := by
  induction inputs using List.reverseRecOn with
  | nil => exact initial
  | append_singleton inputs input induction =>
      obtain ⟨earlier, last⟩ := (machine.along_append start inputs _).mp along
      rw [trace_concat, final_concat]
      exact preserved _ _ _ last.1 (induction earlier)

/-- Following rule: a view that every step changes as its input and output say
can be followed from the trace alone. -/
theorem view_final {View : Type} (view : State → View)
    (follow : View → Input × Output → View)
    (follows : ∀ state input, view (machine state input).1 =
      follow (view state) (input, (machine state input).2))
    (start : State) (inputs : List Input) :
    view (machine.final start inputs) =
      (machine.trace start inputs).foldl follow (view start) := by
  induction inputs generalizing start with
  | nil => rfl
  | cons input inputs induction =>
      rw [final_cons, induction, follows, trace_cons, List.foldl_cons]

/-- Following rule for a loop that may yield nothing: a view that only the
yielded items change is followed from them. -/
theorem view_final_of_yields {View Item : Type}
    (machine : Machine State Input (Option Item)) (view : State → View)
    (follow : View → Item → View)
    (follows : ∀ state input, view (machine state input).1 =
      (machine state input).2.elim (view state) (follow (view state)))
    (start : State) (inputs : List Input) :
    view (machine.final start inputs) =
      (machine.outputs start inputs).reduceOption.foldl follow
        (view start) := by
  induction inputs generalizing start with
  | nil => rfl
  | cons input inputs induction =>
      rw [final_cons, induction, follows, outputs_cons]
      cases (machine start input).2 <;> rfl

theorem along_true (start : State) (inputs : List Input) :
    machine.Along (fun _ _ => True) start inputs :=
  (machine.along_iff start inputs).mpr fun _ _ _ _ => trivial

theorem final_invariant_along {allowed : State → Input → Prop}
    (Invariant : State → Prop) {start : State} (initial : Invariant start)
    (preserved : ∀ state input, allowed state input → Invariant state →
      Invariant (machine state input).1)
    {inputs : List Input} (along : machine.Along allowed start inputs) :
    Invariant (machine.final start inputs) :=
  @trace_invariant_along _ _ _ machine allowed (fun _ => Invariant) start
    initial (fun _ state input => preserved state input) inputs along

theorem final_invariant (Invariant : State → Prop) {start : State}
    (initial : Invariant start)
    (preserved : ∀ state input, Invariant state →
      Invariant (machine state input).1)
    (inputs : List Input) : Invariant (machine.final start inputs) :=
  machine.final_invariant_along Invariant initial
    (fun state input _ => preserved state input)
    (machine.along_true start inputs)

/-- Simulation rule: where an abstraction of states takes every step to a step
of another machine with the same output, it takes runs to runs. -/
theorem simulated {Abstract : Type} {spec : Machine Abstract Input Output}
    {abstraction : State → Abstract} {allowed : State → Input → Prop}
    (commutes : ∀ state input, allowed state input →
      spec (abstraction state) input =
        (abstraction (machine state input).1, (machine state input).2))
    {start : State} {inputs : List Input}
    (along : machine.Along allowed start inputs) :
    spec.final (abstraction start) inputs =
        abstraction (machine.final start inputs) ∧
      spec.trace (abstraction start) inputs = machine.trace start inputs := by
  induction inputs generalizing start with
  | nil => exact ⟨rfl, rfl⟩
  | cons input inputs induction =>
      obtain ⟨here, later⟩ := along
      obtain ⟨final, trace⟩ := induction later
      simp only [final_cons, trace_cons, commutes start input here]
      exact ⟨final, by rw [trace]⟩

/-- Erasure rule: a function on states that commutes with every step, leaving
the output, commutes with runs. -/
theorem final_erased {erase : State → State}
    (commutes : ∀ state input, machine (erase state) input =
      (erase (machine state input).1, (machine state input).2))
    (start : State) (inputs : List Input) :
    machine.final (erase start) inputs = erase (machine.final start inputs) ∧
      machine.outputs (erase start) inputs =
        machine.outputs start inputs := by
  obtain ⟨final, trace⟩ := machine.simulated
    (fun state input _ => commutes state input)
    (machine.along_true start inputs)
  exact ⟨final, by rw [outputs, trace, outputs]⟩

/-- The machine that shows what a look at the state and the input shows, in
the place of the outputs. -/
def observed {Seen : Type} (look : State → Input → Seen) :
    Machine State Input Seen :=
  fun state input => ((machine state input).1, look state input)

@[simp] theorem final_observed {Seen : Type} (look : State → Input → Seen)
    (start : State) (inputs : List Input) :
    (machine.observed look).final start inputs =
      machine.final start inputs := by
  induction inputs generalizing start with
  | nil => rfl
  | cons input inputs induction => exact induction _

theorem outputs_observed_concat {Seen : Type} (look : State → Input → Seen)
    (start : State) (inputs : List Input) (input : Input) :
    (machine.observed look).outputs start (inputs ++ [input]) =
      (machine.observed look).outputs start inputs ++
        [look (machine.final start inputs) input] := by
  rw [outputs_append, final_observed]
  rfl

/-- Lockstep rule: a relation between two states that every matching pair of
steps keeps, and under which matching steps give good pairs of events, relates
the ends of two matching runs and makes all their events good pairs. -/
theorem lockstep (Related : State → State → Prop)
    (Matches Good : Input × Output → Input × Output → Prop)
    (preserved : ∀ left right leftInput rightInput, Related left right →
      Matches (leftInput, (machine left leftInput).2)
        (rightInput, (machine right rightInput).2) →
      Related (machine left leftInput).1 (machine right rightInput).1 ∧
        Good (leftInput, (machine left leftInput).2)
          (rightInput, (machine right rightInput).2))
    {left right : State} (related : Related left right)
    {leftInputs rightInputs : List Input}
    (matching : List.Forall₂ Matches (machine.trace left leftInputs)
      (machine.trace right rightInputs)) :
    Related (machine.final left leftInputs)
        (machine.final right rightInputs) ∧
      List.Forall₂ Good (machine.trace left leftInputs)
        (machine.trace right rightInputs) := by
  induction leftInputs generalizing left right rightInputs with
  | nil =>
      cases rightInputs with
      | nil => exact ⟨related, .nil⟩
      | cons _ _ => cases matching
  | cons leftInput leftInputs induction =>
      cases rightInputs with
      | nil => cases matching
      | cons rightInput rightInputs =>
          cases matching with
          | cons first rest =>
              obtain ⟨next, good⟩ := preserved _ _ _ _ related first
              obtain ⟨last, others⟩ := induction next rest
              exact ⟨last, .cons good others⟩

section Observers

variable {View Seen : Type} {view : State → View} {sees : Input → Bool}
  {seen : Input × Output → Seen}

/-- Unwinding rule.  An observer has a view of the state and sees something of
the events of some inputs.  When the other inputs leave its view, and the view
decides what an input it sees does to the view and shows, a run and the same
run without the inputs it does not see are alike to it. -/
theorem unwound
    (hidden : ∀ state input, sees input = false →
      view (machine state input).1 = view state)
    (determined : ∀ left right input, sees input = true →
      view left = view right →
        view (machine left input).1 = view (machine right input).1 ∧
          seen (input, (machine left input).2) =
            seen (input, (machine right input).2))
    {left right : State} (same : view left = view right)
    (inputs : List Input) :
    view (machine.final left inputs) =
        view (machine.final right (inputs.filter sees)) ∧
      ((machine.trace left inputs).filter fun event => sees event.1).map
          seen =
        (machine.trace right (inputs.filter sees)).map seen := by
  induction inputs generalizing left right with
  | nil => exact ⟨same, rfl⟩
  | cons input inputs induction =>
      cases visible : sees input with
      | false =>
          have unmoved := (hidden left input visible).trans same
          simpa [visible] using induction unmoved
      | true =>
          obtain ⟨next, shown⟩ := determined left right input visible same
          obtain ⟨final, trace⟩ := induction next
          simp only [trace_cons, final_cons, List.filter_cons, visible,
            if_true, List.map_cons]
          exact ⟨final, by rw [shown, trace]⟩

/-- The unwinding rule for an observer of every input: equal views stay equal
and show the same. -/
theorem determined_run
    (determined : ∀ left right input, view left = view right →
      view (machine left input).1 = view (machine right input).1 ∧
        seen (input, (machine left input).2) =
          seen (input, (machine right input).2))
    {left right : State} (same : view left = view right)
    (inputs : List Input) :
    view (machine.final left inputs) = view (machine.final right inputs) ∧
      (machine.trace left inputs).map seen =
        (machine.trace right inputs).map seen := by
  have alike := @unwound _ _ _ machine _ _ view (fun _ => true) seen
    (fun _ _ hidden => by cases hidden)
    (fun left right input _ same => determined left right input same)
    _ _ same inputs
  simpa using alike

end Observers

/-- Consumption rule.  The state is what is left to read and a step reads one
piece of it.  Where every piece, in front of any rest, is what one step takes
and answers, a run over pieces in a row answers each of them and leaves the
rest. -/
theorem consumes {Item : Type} {machine : Machine (List Item) Unit Output}
    {Piece : List Item → Output → Prop}
    (takes : ∀ piece output, Piece piece output → ∀ rest,
      machine (piece ++ rest) () = (rest, output))
    {pieces : List (List Item)} {answers : List Output}
    (each : List.Forall₂ Piece pieces answers) (rest : List Item) :
    machine.outputs (pieces.flatten ++ rest)
        (List.replicate pieces.length ()) = answers ∧
      machine.final (pieces.flatten ++ rest)
        (List.replicate pieces.length ()) = rest := by
  induction each with
  | nil => exact ⟨rfl, rfl⟩
  | cons first others induction =>
      simp only [List.flatten_cons, List.append_assoc, List.length_cons,
        List.replicate_succ, outputs_cons, final_cons, takes _ _ first]
      exact ⟨by rw [induction.1], induction.2⟩

/-- Cutting rule.  Where every list is a tail or begins with a piece, every
list is pieces in a row and a tail. -/
theorem exists_pieces {Item : Type} {Piece : List Item → Output → Prop}
    {Tail : List Item → Prop}
    (cut : ∀ stream, Tail stream ∨ ∃ piece output rest, piece ≠ [] ∧
      stream = piece ++ rest ∧ Piece piece output)
    (stream : List Item) :
    ∃ pieces answers tail, stream = pieces.flatten ++ tail ∧ Tail tail ∧
      List.Forall₂ Piece pieces answers := by
  induction length : stream.length using Nat.strong_induction_on
    generalizing stream with
  | h count induction =>
      rcases cut stream with last | ⟨piece, output, rest, some, rfl, first⟩
      · exact ⟨[], [], stream, rfl, last, .nil⟩
      · have shorter : rest.length < count := by
          have positive := List.length_pos_iff.mpr some
          rw [List.length_append] at length
          omega
        obtain ⟨pieces, answers, tail, rfl, last, others⟩ :=
          induction _ shorter rest rfl
        exact ⟨piece :: pieces, output :: answers, tail, by simp, last,
          .cons first others⟩

end Machine
