import Mathlib

/-!
# Logs of sends and slow-downs

A party sends at some times and slows down at others, changing its interval by
a fixed function.  A log of such events, newest first, is well paced when each
slow-down answers a send made after the previous slow-down and keeps the
distance that the interval in force asks for.  Well paced logs have no more
slow-downs than sends, and any two slow-downs keep every such distance between
them.
-/

/-- An event of a log: a send, or a slow-down to a new interval. -/
inductive Pacing where
  | sent (time : Nat)
  | slowed (time interval : Nat)
  deriving DecidableEq, Repr

namespace Pacing

def time : Pacing → Nat
  | sent time => time
  | slowed time _ => time

def isSent : Pacing → Bool
  | sent _ => true
  | slowed _ _ => false

/-- The time and the new interval of a slow-down. -/
def slowDown? : Pacing → Option (Nat × Nat)
  | sent _ => none
  | slowed time interval => some (time, interval)

/-- The last slow-down of a log. -/
def lastSlowDown (log : List Pacing) : Option (Nat × Nat) :=
  log.findSome? slowDown?

/-- The time of the last send of a log. -/
def lastSend (log : List Pacing) : Option Nat :=
  (log.find? isSent).map time

/-- The interval in force after a log. -/
def inForce (start : Nat) (log : List Pacing) : Nat :=
  ((lastSlowDown log).map Prod.snd).getD start

/-- The number of sends of a log. -/
def sends (log : List Pacing) : Nat :=
  log.countP isSent

/-- The number of slow-downs of a log. -/
def slowDowns (log : List Pacing) : Nat :=
  log.countP fun event => !event.isSent

/-- Logs, newest first, whose slow-downs answer a new send each and keep the
distance `hold` of the interval in force from the previous one. -/
inductive WellPaced (stretch hold : Nat → Nat) (start : Nat) :
    List Pacing → Prop where
  | empty : WellPaced stretch hold start []
  | sent {log : List Pacing} {time : Nat}
      (paced : WellPaced stretch hold start log)
      (later : ∀ event ∈ log, event.time ≤ time) :
      WellPaced stretch hold start (.sent time :: log)
  | slowed {log : List Pacing} {sentTime time : Nat}
      (paced : WellPaced stretch hold start (.sent sentTime :: log))
      (later : sentTime ≤ time)
      (apart : ∀ earlier interval,
        lastSlowDown log = some (earlier, interval) →
          earlier < sentTime ∧ earlier + hold interval ≤ time) :
      WellPaced stretch hold start
        (.slowed time (stretch (inForce start log)) :: .sent sentTime :: log)

section Counting

@[simp] theorem lastSlowDown_sent (time : Nat) (log : List Pacing) :
    lastSlowDown (.sent time :: log) = lastSlowDown log :=
  rfl

@[simp] theorem lastSlowDown_slowed (time interval : Nat)
    (log : List Pacing) :
    lastSlowDown (.slowed time interval :: log) = some (time, interval) :=
  rfl

@[simp] theorem lastSend_sent (time : Nat) (log : List Pacing) :
    lastSend (.sent time :: log) = some time :=
  rfl

@[simp] theorem lastSend_slowed (time interval : Nat) (log : List Pacing) :
    lastSend (.slowed time interval :: log) = lastSend log :=
  rfl

@[simp] theorem sends_sent (time : Nat) (log : List Pacing) :
    sends (.sent time :: log) = sends log + 1 := by
  simp [sends, List.countP_cons, isSent]

@[simp] theorem sends_slowed (time interval : Nat) (log : List Pacing) :
    sends (.slowed time interval :: log) = sends log := by
  simp [sends, isSent]

@[simp] theorem slowDowns_sent (time : Nat) (log : List Pacing) :
    slowDowns (.sent time :: log) = slowDowns log := by
  simp [slowDowns, isSent]

@[simp] theorem slowDowns_slowed (time interval : Nat) (log : List Pacing) :
    slowDowns (.slowed time interval :: log) = slowDowns log + 1 := by
  simp [slowDowns, isSent]

@[simp] theorem inForce_sent (start time : Nat) (log : List Pacing) :
    inForce start (.sent time :: log) = inForce start log :=
  rfl

@[simp] theorem inForce_slowed (start time interval : Nat)
    (log : List Pacing) :
    inForce start (.slowed time interval :: log) = interval :=
  rfl

theorem exists_lastSlowDown_of_mem {log : List Pacing} {time interval : Nat}
    (member : .slowed time interval ∈ log) :
    ∃ last, lastSlowDown log = some last := by
  induction log with
  | nil => cases member
  | cons event log induction =>
      cases event with
      | slowed lastTime lastInterval => exact ⟨_, rfl⟩
      | sent sentTime =>
          simp only [List.mem_cons, reduceCtorEq, false_or] at member
          exact induction member

theorem mem_of_lastSend {log : List Pacing} {time : Nat}
    (found : lastSend log = some time) : .sent time ∈ log := by
  obtain ⟨event, first, rfl⟩ := Option.map_eq_some_iff.mp found
  have kind := List.find?_some first
  cases event with
  | sent sentTime => exact List.mem_of_find?_eq_some first
  | slowed slowTime interval => cases kind

end Counting

namespace WellPaced

variable {stretch hold : Nat → Nat} {start : Nat} {log : List Pacing}

theorem tail {event : Pacing}
    (paced : WellPaced stretch hold start (event :: log)) :
    WellPaced stretch hold start log := by
  cases paced with
  | sent paced later => exact paced
  | slowed paced later apart => exact paced

theorem of_append {later : List Pacing}
    (paced : WellPaced stretch hold start (later ++ log)) :
    WellPaced stretch hold start log := by
  induction later with
  | nil => exact paced
  | cons event later induction => exact induction paced.tail

theorem time_le {event other : Pacing}
    (paced : WellPaced stretch hold start (event :: log))
    (member : other ∈ log) : other.time ≤ event.time := by
  cases paced with
  | sent paced later => exact later other member
  | slowed paced later apart =>
      rcases List.mem_cons.mp member with rfl | older
      · exact later
      · cases paced with
        | sent paced before => exact (before other older).trans later

/-- No more slow-downs than sends, and one less while a send is
unanswered. -/
theorem slowDowns_le (paced : WellPaced stretch hold start log) :
    slowDowns log ≤ sends log ∧
      ∀ time rest, log = .sent time :: rest →
        slowDowns log + 1 ≤ sends log := by
  induction paced with
  | empty => simp [slowDowns]
  | sent paced later induction =>
      have bounded := induction.1
      simp only [slowDowns_sent, sends_sent]
      refine ⟨by omega, ?_⟩
      intro _ _ _
      omega
  | slowed paced later apart induction =>
      have bounded := induction.2 _ _ rfl
      simp only [slowDowns_slowed, slowDowns_sent, sends_slowed, sends_sent]
        at bounded ⊢
      refine ⟨bounded, ?_⟩
      intro _ _ different
      cases different

theorem hold_le_last (paced : WellPaced stretch hold start log)
    {last lastInterval : Nat}
    (found : lastSlowDown log = some (last, lastInterval))
    {time interval : Nat} (member : .slowed time interval ∈ log) :
    time = last ∧ interval = lastInterval ∨ time + hold interval ≤ last := by
  induction paced generalizing last lastInterval with
  | empty => cases member
  | sent paced later induction =>
      simp only [List.mem_cons, reduceCtorEq, false_or] at member
      exact induction found member
  | slowed paced later apart induction =>
      rw [lastSlowDown_slowed, Option.some.injEq, Prod.mk.injEq] at found
      obtain ⟨rfl, rfl⟩ := found
      simp only [List.mem_cons, slowed.injEq, reduceCtorEq, false_or]
        at member
      rcases member with newest | older
      · exact .inl newest
      · obtain ⟨previous, foundPrevious⟩ := exists_lastSlowDown_of_mem older
        obtain ⟨before, distance⟩ := apart _ _ foundPrevious
        right
        rcases induction foundPrevious
          (List.mem_cons_of_mem _ older) with ⟨rfl, rfl⟩ | earlier
        · exact distance
        · omega

/-- Between two slow-downs there is a send, after the first and no later than
the second, and their distance is at least that of every interval in force
between them. -/
theorem between {late middle early : List Pacing}
    {second secondInterval first firstInterval : Nat}
    (paced : WellPaced stretch hold start
      (late ++ .slowed second secondInterval ::
        (middle ++ .slowed first firstInterval :: early))) :
    (∃ time, .sent time ∈ middle ∧ first < time ∧ time ≤ second) ∧
      ∀ time interval,
        .slowed time interval ∈ middle ++ [.slowed first firstInterval] →
          first + hold interval ≤ second := by
  have suffix := paced.of_append
  generalize log : middle ++ .slowed first firstInterval :: early = rest
    at suffix
  cases suffix with
  | slowed older later apart =>
      rename_i log sentTime
      cases middle with
      | nil => cases log
      | cons newest middle =>
          obtain ⟨rfl, rfl⟩ := List.cons.inj log
          have member : .slowed first firstInterval ∈
              middle ++ .slowed first firstInterval :: early := by simp
          obtain ⟨⟨last, lastInterval⟩, found⟩ :=
            exists_lastSlowDown_of_mem member
          obtain ⟨before, distance⟩ := apart _ _ found
          have reached : first ≤ last := by
            rcases older.tail.hold_le_last found member with
              ⟨rfl, _⟩ | earlier
            · exact le_refl _
            · omega
          refine ⟨⟨sentTime, by simp, by omega, later⟩, ?_⟩
          intro time interval member
          have listed : .slowed time interval ∈
              middle ++ [.slowed first firstInterval] := by
            simpa using member
          have since : first ≤ time := by
            rcases List.mem_append.mp listed with inside | edge
            · obtain ⟨newer, rest, rfl⟩ := List.append_of_mem inside
              have suffix := older.tail
              rw [List.append_eq, List.append_assoc] at suffix
              have oldest : .slowed first firstInterval ∈
                  rest ++ .slowed first firstInterval :: early := by simp
              exact suffix.of_append.time_le oldest
            · cases List.mem_singleton.mp edge
              exact le_refl _
          have inLog : .slowed time interval ∈
              middle ++ .slowed first firstInterval :: early := by
            have wider : middle ++ .slowed first firstInterval :: early =
                (middle ++ [.slowed first firstInterval]) ++ early := by simp
            rw [wider]
            exact List.mem_append_left _ listed
          rcases older.tail.hold_le_last found inLog with
            ⟨rfl, rfl⟩ | earlier
          · omega
          · omega

theorem stretched (paced : WellPaced stretch hold start log)
    {time interval : Nat}
    (found : lastSlowDown log = some (time, interval)) :
    ∃ previous, interval = stretch previous := by
  induction paced with
  | empty => cases found
  | sent paced later induction => exact induction found
  | slowed paced later apart induction =>
      rw [lastSlowDown_slowed, Option.some.injEq, Prod.mk.injEq] at found
      exact ⟨_, found.2.symm⟩

/-- The interval in force has been stretched once for every slow-down. -/
theorem inForce_eq (paced : WellPaced stretch hold start log) :
    inForce start log = stretch^[slowDowns log] start := by
  induction paced with
  | empty => rfl
  | sent paced later induction => simpa using induction
  | slowed paced later apart induction =>
      rw [inForce_slowed, slowDowns_slowed, Function.iterate_succ_apply',
        ← induction, inForce_sent]

end WellPaced

end Pacing
