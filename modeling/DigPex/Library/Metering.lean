import Mathlib

/-!
# Spaced events in a span

Events that each come some spacing after the one before fit a span of clock
values only so often.
-/

/-- A number of events whose clock values lie in a span, the last one at
`last`, and each `spacing` after the one before. -/
def Metered (start finish spacing : Nat) (last : Option Nat) (rounds : Nat) :
    Prop :=
  ∀ round, rounds = round + 1 →
    ∃ time, last = some time ∧ start + round * spacing ≤ time ∧
      time ≤ finish

namespace Metered

variable {start finish spacing rounds nowMs : Nat} {last : Option Nat}

theorem none : Metered start finish spacing last 0 :=
  fun round more => absurd more (Nat.succ_ne_zero round).symm

theorem next (metered : Metered start finish spacing last rounds)
    (apart : ∀ time, 0 < rounds → last = some time → time + spacing ≤ nowMs)
    (within : start ≤ nowMs ∧ nowMs ≤ finish) :
    Metered start finish spacing (some nowMs) (rounds + 1) := by
  intro round now
  obtain rfl : round = rounds := by omega
  refine ⟨nowMs, rfl, ?_, within.2⟩
  cases round with
  | zero => simpa using within.1
  | succ round =>
      obtain ⟨time, before, spaced, _⟩ := metered round rfl
      have waited := apart time (Nat.succ_pos round) before
      rw [Nat.succ_mul]
      omega

theorem first (within : start ≤ nowMs ∧ nowMs ≤ finish) :
    Metered start finish spacing (some nowMs) 1 :=
  (none : Metered start finish spacing Option.none 0).next
    (fun _ positive => absurd positive (lt_irrefl 0)) within

theorem le (metered : Metered start finish spacing last rounds)
    (positive : 0 < spacing) : rounds ≤ (finish - start) / spacing + 1 := by
  cases rounds with
  | zero => exact Nat.zero_le _
  | succ round =>
      obtain ⟨time, _, spaced, early⟩ := metered round rfl
      apply Nat.succ_le_succ
      rw [Nat.le_div_iff_mul_le positive]
      omega

end Metered
