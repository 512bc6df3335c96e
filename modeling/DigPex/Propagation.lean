import DigPex.Draining
import DigPex.Library.Polling

/-!
# How soon a change is told

A link that owes a delta is a polled timer: it is due when eleven tenths of
its effective interval have passed, and looked at by the ticks.  So the number
of eligible ticks grows with the clock, and a change is told within a time
that its queue, the interval and the gap between ticks determine.
-/

namespace DigPex

/-- The clock value of the last tick, over the calls of a run. -/
def tickClock : Machine Nat Call Unit :=
  fun last call =>
    match call with
    | .tick nowMs _ _ => (nowMs, ())
    | _ => (last, ())

/-- A tick comes at most `gap` after the last one. -/
def Ticking (gap last : Nat) : Call → Prop
  | .tick nowMs _ _ => nowMs ≤ last + gap
  | _ => True

instance (gap last : Nat) : ∀ call, Decidable (Ticking gap last call)
  | .tick _ _ _ => inferInstanceAs (Decidable (_ ≤ _))
  | .upsertKnown _ => isTrue trivial
  | .removeKnown _ => isTrue trivial
  | .linkUp _ _ _ _ => isTrue trivial
  | .linkDown _ => isTrue trivial
  | .onMessage _ _ _ => isTrue trivial
  | .recordViolation _ _ _ => isTrue trivial

/-- The longest time, in milliseconds, from a data message until a link is due
again: its interval and a tenth of it for the jitter. -/
def longestWaitMs (secs : Nat) : Nat :=
  1100 * secs

/-- A link that is open, and paced by an interval of at most some seconds. -/
structure PacedWithin (secs : Nat) (peerId : String) (engine : PexEngine) :
    Prop where
  opened : (engine.link peerId).snapshotSent = true
  interval : (engine.link peerId).effectiveSecs ≤ secs

/-- The time of the last data message of a link. -/
def LinkState.setMs (link : LinkState) : Nat :=
  link.lastDataSendMs.getD 0

variable [DefaultHasher]

section Step

variable {engine : PexEngine} {peerId : String} {secs nowMs : Nat}

omit [DefaultHasher] in
theorem PacedWithin.unready (paced : PacedWithin secs peerId engine)
    (measured : Measured (engine.link peerId))
    (unready : (engine.link peerId).isDue nowMs = false) :
    nowMs < (engine.link peerId).setMs + longestWaitMs secs := by
  have jitter := measured.jitter
  have interval := paced.interval
  simp only [LinkState.isDue, paced.opened, Bool.true_and, LinkState.sendDue,
    decide_eq_false_iff_not, not_le] at unready
  simp only [LinkState.setMs, longestWaitMs]
  have effective : effectiveIntervalSecs (engine.link peerId).selfIntervalSecs
      (engine.link peerId).remoteDeclaredSecs =
        (engine.link peerId).effectiveSecs := rfl
  rw [effective] at unready
  omega

theorem setMs_of_not_eligible {call : Call}
    (opens : call.opens peerId = false)
    (up : call.inbound peerId ≠ some .down)
    (eligible : engine.eligible peerId call = false) :
    ((engineStep engine call).1.link peerId).setMs =
      (engine.link peerId).setMs := by
  have open_ : call ≠ .linkDown peerId := by
    rintro rfl
    exact up (if_pos rfl)
  have clock := sendClock_engineStep engine open_
  rw [if_neg (by
    rintro ⟨message, member, -⟩
    rw [messagesFor_of_not_eligible opens eligible] at member
    cases member)] at clock
  have last := congrArg (fun clock => clock.2.1) clock
  simp only [LinkState.sendClock] at last
  simp only [LinkState.setMs, last]

theorem setMs_tick (engine : PexEngine) (peerId : String) (nowMs : Nat)
    (orders : TickOrders) (jitter : String → Jitter) :
    let after := (engineStep engine (.tick nowMs orders jitter)).1
    (after.link peerId).setMs = (engine.link peerId).setMs ∨
      (after.link peerId).setMs = nowMs := by
  have clock := @sendClock_engineStep _ engine (.tick nowMs orders jitter)
    peerId nofun
  have last := congrArg (fun clock => clock.2.1) clock
  simp only [LinkState.sendClock] at last
  simp only [LinkState.setMs, last]
  split
  · exact .inr rfl
  · exact .inl rfl

theorem polled_step {startMs gap rounds seenMs : Nat} {call : Call}
    (opens : call.opens peerId = false)
    (up : call.inbound peerId ≠ some .down)
    (paced : PacedWithin secs peerId engine)
    (measured : Measured (engine.link peerId))
    (ticking : Ticking gap seenMs call)
    (polled : Polled startMs (longestWaitMs secs) gap rounds
      (engine.link peerId).setMs seenMs) :
    Polled startMs (longestWaitMs secs) gap
      (rounds + if engine.eligible peerId call then 1 else 0)
      ((engineStep engine call).1.link peerId).setMs
      (tickClock seenMs call).1 := by
  cases eligible : engine.eligible peerId call with
  | false =>
      rw [setMs_of_not_eligible opens up eligible, if_neg Bool.false_ne_true,
        Nat.add_zero]
      cases call with
      | tick nowMs orders jitter =>
          exact polled.missed (paced.unready measured eligible)
      | _ => exact polled
  | true =>
      rw [if_pos rfl]
      cases call with
      | tick nowMs orders jitter =>
          exact polled.served ticking
            (setMs_tick engine peerId nowMs orders jitter)
      | _ => cases eligible

end Step

theorem snapshotSent_engineStep {engine : PexEngine} {peerId : String}
    {call : Call} (up : call.inbound peerId ≠ some .down)
    (opened : (engine.link peerId).snapshotSent = true) :
    ((engineStep engine call).1.link peerId).snapshotSent = true := by
  have open_ : call ≠ .linkDown peerId := by
    rintro rfl
    exact up (if_pos rfl)
  have sent := congrArg Prod.fst (sendClock_engineStep engine open_)
  refine sent.trans ?_
  split
  · rfl
  · exact opened

section Run

variable {cfg : PexConfig} {calls later : List Call} {peerId : String}
  {nowSecs startMs gap secs : Nat}

/-- Over a run in which a link's queue only drains and the ticks keep coming,
the eligible ticks are the rounds of its timer. -/
theorem polled_final
    (steady : engineStep.Along
      (Steady (engineStep.final (.new cfg) calls) peerId nowSecs)
      (engineStep.final (.new cfg) calls) later)
    (opened : ((engineStep.final (.new cfg) calls).link
      peerId).snapshotSent = true)
    (early : ((engineStep.final (.new cfg) calls).link peerId).setMs ≤
      startMs)
    (interval : engineStep.Along
      (fun engine _ => (engine.link peerId).effectiveSecs ≤ secs)
      (engineStep.final (.new cfg) calls) later)
    (ticking : tickClock.Along (Ticking gap) startMs later) :
    ((engineStep.final (.new cfg) (calls ++ later)).link
        peerId).snapshotSent = true ∧
      Polled startMs (longestWaitMs secs) gap
        (eligibleTicks peerId (engineStep.final (.new cfg) calls) later)
        ((engineStep.final (.new cfg) (calls ++ later)).link peerId).setMs
        (tickClock.final startMs later) := by
  induction later using List.reverseRecOn with
  | nil =>
      rw [List.append_nil]
      exact ⟨opened, .begin early⟩
  | append_singleton later call induction =>
      obtain ⟨steadyBefore, here⟩ := (Machine.along_append _ _ _ _).mp steady
      obtain ⟨pacedBefore, paced⟩ :=
        (Machine.along_append _ _ _ _).mp interval
      obtain ⟨tickedBefore, ticked⟩ :=
        (Machine.along_append _ _ _ _).mp ticking
      obtain ⟨stillOpen, polled⟩ :=
        induction steadyBefore pacedBefore tickedBefore
      have measured := measured_final cfg (calls ++ later) peerId
      rw [Machine.final_append] at stillOpen polled measured
      rw [← List.append_assoc, Machine.final_concat, Machine.final_append,
        Machine.final_concat, eligibleTicks_concat]
      exact ⟨snapshotSent_engineStep here.1.up stillOpen,
        polled_step here.1.opens here.1.up ⟨stillOpen, paced.1⟩ measured
          ticked.1 polled⟩

end Run

/-- Changes are told in time.  Take a state reached with fewer than `2 ^ 64`
changes of the first-hand set, in which a link is open and nothing was sent on
it after `startMs`, and a run from it that neither opens nor closes the link,
finds the same entries advertisable at every eligible tick, is never paced by
more than `secs` seconds and has a tick at least every `gap` milliseconds.
When the clock has reached `startMs + rounds * (1100 * secs + gap)`, as many
rounds of fifty entries and fifty ids have been sent: a queue no longer than
that has been told, and the told map holds exactly what is advertisable. -/
theorem told_in_time (cfg : PexConfig) (calls later : List Call)
    (peerId : String) (nowSecs : Nat) (order : IterationOrder String)
    (few : knownChanges cfg.localPeerId (calls ++ later) < 2 ^ 64)
    (startMs gap secs rounds : Nat) (positive : 0 < gap) :
    let start := engineStep.final (.new cfg) calls
    engineStep.Along (Steady start peerId nowSecs) start later →
    (start.link peerId).snapshotSent = true →
    (start.link peerId).setMs ≤ startMs →
    engineStep.Along
      (fun engine _ => (engine.link peerId).effectiveSecs ≤ secs) start
        later →
    tickClock.Along (Ticking gap) startMs later →
    startMs + rounds * (1100 * secs + gap) ≤
      tickClock.final startMs later →
    max (start.pendingEntries order peerId nowSecs).length
        (start.staleIds order peerId nowSecs).length ≤ 50 * rounds →
      ∀ (id : String) (hash : UInt64),
        ((engineStep.final start later).link peerId).told[id]? = some hash ↔
          ∃ entry, Advertisable start peerId nowSecs entry ∧
            entry.peerId = id ∧ entry.fingerprintHash = hash := by
  intro start steady opened early interval ticking late queues id hash
  have polled := (polled_final steady opened early interval ticking).2
  have enough := polled.le_rounds positive late
  have drained := drained_final cfg calls later peerId nowSecs order few
    steady
  have startCurrent := cacheCurrent_final cfg calls
    ((knownChanges_le_append _ _ _).trans_lt few)
  obtain ⟨pending, stale⟩ := max_le_iff.mp queues
  have length : 50 * rounds ≤ 50 * eligibleTicks peerId start later :=
    Nat.mul_le_mul_left 50 enough
  rw [← Machine.final_append]
  exact drained.caught_up startCurrent (pending.trans length)
    (stale.trans length) id hash

/-! ## Standing still -/

/-- A call that leaves the first-hand set and the life of a link, and is no
tick at which a first-hand entry has grown too old. -/
structure Idle (start : PexEngine) (peerId : String) (call : Call) : Prop where
  unchanged : call.changesKnown start.cfg.localPeerId = false
  opens : call.opens peerId = false
  up : call.inbound peerId ≠ some .down
  fresh : ∀ nowMs orders jitter, call = .tick nowMs orders jitter →
    ∀ entry ∈ IterationOrder.ascending.values start.known.entries,
      nowMs / 1000 ≤ entry.lastSeen + pexMaxEntryAge

theorem known_final_of_idle {start : PexEngine} {peerId : String}
    {calls : List Call} (idle : ∀ call ∈ calls, Idle start peerId call) :
    (engineStep.final start calls).known = start.known := by
  induction calls using List.reverseRecOn with
  | nil => rfl
  | append_singleton calls call induction =>
      rw [Machine.final_concat, known_engineStep, cfg_final,
        induction fun earlier member =>
          idle earlier (List.mem_append_left _ member)]
      exact KnownSet.after_of_not_changes (idle call (by simp)).unchanged _

/-- While the first-hand set stands still and nothing in it grows too old, the
queue of a link only drains. -/
theorem steady_of_idle {start : PexEngine} {peerId : String} {nowSecs : Nat}
    {later : List Call}
    (fresh : ∀ entry ∈ IterationOrder.ascending.values start.known.entries,
      nowSecs ≤ entry.lastSeen + pexMaxEntryAge)
    (idle : ∀ call ∈ later, Idle start peerId call) :
    engineStep.Along (Steady start peerId nowSecs) start later := by
  apply (Machine.along_iff _ _ _).mpr
  rintro earlier call rest rfl
  have here := idle call (by simp)
  have known := known_final_of_idle fun before member =>
    idle before (List.mem_append_left _ member)
  refine ⟨here.opens, here.up, ?_⟩
  rintro nowMs orders jitter rfl _ entry
  have held : start.known.entries[entry.peerId]? = some entry →
      entry ∈ IterationOrder.ascending.values start.known.entries :=
    fun lookup => IterationOrder.mem_values.mpr ⟨_, lookup⟩
  constructor
  · rintro ⟨current, notLocal, notPartner, -⟩
    rw [known] at current
    rw [cfg_final] at notLocal
    exact ⟨current, notLocal, notPartner, fresh entry (held current)⟩
  · rintro ⟨current, notLocal, notPartner, -⟩
    exact ⟨known ▸ current, by rwa [cfg_final], notPartner,
      here.fresh _ _ _ rfl entry (held current)⟩

omit [DefaultHasher] in
/-- A peer learned just after the snapshot: with the default interval and a
tick every two seconds it is told within sixty-eight. -/
theorem told_in_time_default :
    let calls : List Call := [
      .linkUp (exampleId 'b') 1000000 .ascending .zero,
      .upsertKnown (exampleEntry 'd' 1000 9444)]
    let later : List Call := (List.range 34).map fun count =>
      .tick (1002000 + 2000 * count) exampleOrders fun _ => .zero
    let start := (@engineStep sipHasher).final
      (.new (exampleConfig (exampleId 'a'))) calls
    ∀ (id : String) (hash : UInt64),
      (((@engineStep sipHasher).final start later).link
        (exampleId 'b')).told[id]? = some hash ↔
          ∃ entry, Advertisable start (exampleId 'b') 1000 entry ∧
            entry.peerId = id ∧
            @PeerEntry.fingerprintHash sipHasher entry = hash := by
  intro calls later start
  have steady : (@engineStep sipHasher).Along
      (Steady start (exampleId 'b') 1000) start later := by
    refine @steady_of_idle sipHasher _ _ _ _ (by decide +kernel) ?_
    intro call member
    obtain ⟨count, listed, rfl⟩ := List.mem_map.mp member
    refine ⟨rfl, rfl, by simp [Call.inbound], ?_⟩
    rintro nowMs orders jitter same entry held
    obtain ⟨rfl, -, -⟩ := Call.tick.inj same
    have early := List.mem_range.mp listed
    have seen : ∀ entry ∈ IterationOrder.ascending.values
        start.known.entries, entry.lastSeen = 1000 := by
      decide +kernel
    rw [seen entry held]
    simp only [pexMaxEntryAge]
    omega
  exact @told_in_time sipHasher (exampleConfig (exampleId 'a')) calls later
    (exampleId 'b') 1000 .ascending (by decide +kernel) 1000000 2000 60 1
    (by decide) steady (by decide +kernel) (by decide +kernel)
    (by decide +kernel) (by decide +kernel) (by decide +kernel)
    (by decide +kernel)

end DigPex
