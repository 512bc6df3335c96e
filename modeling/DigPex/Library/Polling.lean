import Mathlib

/-!
# A polled timer

A timer becomes ready some time after it was last set and is looked at from
time to time.  Nothing makes it run at the moment it is ready, only the next
look.  When it takes at most `wait` to become ready and two looks are at most
`gap` apart, each round takes at most `wait + gap`.
-/

/-- How late a polled timer can be after a number of rounds from `start`. -/
structure Polled (start wait gap rounds set seen : Nat) : Prop where
  set : set ≤ start + rounds * (wait + gap)
  seen : seen ≤ start + rounds * (wait + gap) + wait

namespace Polled

variable {start wait gap rounds set seen nowMs : Nat}

theorem begin (early : set ≤ start) : Polled start wait gap 0 set start :=
  ⟨by omega, by omega⟩

theorem missed (polled : Polled start wait gap rounds set seen)
    (unready : nowMs < set + wait) :
    Polled start wait gap rounds set nowMs :=
  ⟨polled.set, by
    have := polled.set
    omega⟩

/-- A look that finds the timer ready is the end of a round, whether the timer
is set again or stays ready. -/
theorem served {again : Nat} (polled : Polled start wait gap rounds set seen)
    (soon : nowMs ≤ seen + gap) (reset : again = set ∨ again = nowMs) :
    Polled start wait gap (rounds + 1) again nowMs := by
  have bound := polled.seen
  have before := polled.set
  constructor
  · rw [Nat.add_mul, Nat.one_mul]
    rcases reset with rfl | rfl <;> omega
  · rw [Nat.add_mul, Nat.one_mul]
    omega

theorem le_rounds {wanted : Nat}
    (polled : Polled start wait gap rounds set seen) (positive : 0 < gap)
    (late : start + wanted * (wait + gap) ≤ seen) : wanted ≤ rounds := by
  by_contra fewer
  have more : rounds + 1 ≤ wanted := Nat.lt_of_not_le fewer
  have product := Nat.mul_le_mul_right (wait + gap) more
  rw [Nat.add_mul, Nat.one_mul] at product
  have bound := polled.seen
  omega

end Polled
