import DigPex.Library.Machine

/-!
# Stuttering simulation

A machine refines another one when every step of it is matched by the events
it shows: one event of the other machine, several, or none where it only moves
things about.  Then what a whole run shows is a run of the other machine.
-/

namespace Machine

variable {Low LowInput LowOutput High HighInput HighOutput : Type}
  {low : Machine Low LowInput LowOutput}
  {high : Machine High HighInput HighOutput}

/-- Stuttering rule: a relation of states that every allowed step keeps, where
the events the step shows are run on the other side and happen there as
shown. -/
theorem stuttering {Related : Low → High → Prop}
    {allowed : Low → LowInput → Prop}
    {shown : LowInput × LowOutput → List (HighInput × HighOutput)}
    (matched : ∀ state spec input, Related state spec →
      allowed state input →
      let events := shown (input, (low state input).2)
      Related (low state input).1 (high.final spec (events.map Prod.fst)) ∧
        high.trace spec (events.map Prod.fst) = events)
    {state : Low} {spec : High} (related : Related state spec)
    {inputs : List LowInput} (along : low.Along allowed state inputs) :
    let events := (low.trace state inputs).flatMap shown
    Related (low.final state inputs)
        (high.final spec (events.map Prod.fst)) ∧
      high.trace spec (events.map Prod.fst) = events := by
  induction inputs generalizing state spec with
  | nil => exact ⟨related, rfl⟩
  | cons input inputs induction =>
      obtain ⟨here, later⟩ := along
      obtain ⟨next, first⟩ := matched state spec input related here
      obtain ⟨last, others⟩ := induction next later
      simp only [trace_cons, final_cons, List.flatMap_cons, List.map_append,
        final_append, trace_append]
      exact ⟨last, by rw [first, others]⟩

end Machine
