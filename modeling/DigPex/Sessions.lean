import DigPex.Cadence
import DigPex.Concrete
import DigPex.Determinism
import DigPex.Isolation

/-!
# What the rest of a run depends on

With the advertise cache out of the way, the rest of a run depends on the
first-hand set, the link records and the hints alone, and on one link only on
its record and the first-hand set.  So the net effect of changes of the
first-hand set is all that counts, a tick that is repeated is silent, and a
link that went down starts as on an engine that never had it.
-/

namespace DigPex

variable [DefaultHasher] {cfg : PexConfig}

omit [DefaultHasher] in
theorem knownChanges_append (localPeerId : String)
    (earlier later : List Call) :
    knownChanges localPeerId (earlier ++ later) =
      knownChanges localPeerId earlier + knownChanges localPeerId later :=
  List.countP_append

theorem plain_rest (earlier later : List Call)
    (few : knownChanges cfg.localPeerId (earlier ++ later) < 2 ^ 64) :
    let reached := engineStep.final (.new cfg) earlier
    PlainEngine.step.final reached.plain later =
        (engineStep.final reached later).plain ∧
      PlainEngine.step.trace reached.plain later =
        engineStep.trace reached later := by
  intro reached
  have fewer : knownChanges cfg.localPeerId earlier < 2 ^ 64 := by
    rw [knownChanges_append] at few
    omega
  obtain ⟨wholeFinal, wholeTrace⟩ := plain_final_trace cfg _ few
  obtain ⟨final, trace⟩ := plain_final_trace cfg earlier fewer
  rw [Machine.final_append, Machine.final_append, final] at wholeFinal
  rw [Machine.trace_append, Machine.trace_append, final, trace]
    at wholeTrace
  exact ⟨wholeFinal, List.append_cancel_left wholeTrace⟩

/-! ## Changes of the first-hand set -/

omit [DefaultHasher] in
theorem KnownSet.eq_of_entries {left right : KnownSet}
    (same : left.entries = right.entries) : left = right := by
  cases left
  cases right
  cases same
  rfl

/-- A change of the first-hand set. -/
def Call.isChange : Call → Bool
  | .upsertKnown _ | .removeKnown _ => true
  | _ => false

theorem plain_step_change (plain : PlainEngine) {call : Call}
    (change : call.isChange = true) :
    (PlainEngine.step plain call).1 =
      { plain with
        known := plain.known.after plain.cfg.localPeerId call } := by
  cases call with
  | upsertKnown entry =>
      simp only [PlainEngine.step, PlainEngine.upsertKnown, KnownSet.after]
      split <;> rfl
  | removeKnown id => rfl
  | _ => cases change

theorem plain_final_changes (plain : PlainEngine) {calls : List Call}
    (changes : ∀ call ∈ calls, call.isChange = true) :
    PlainEngine.step.final plain calls =
      { plain with
        known := (PlainEngine.step.final plain calls).known } := by
  induction calls generalizing plain with
  | nil => rfl
  | cons call calls induction =>
      have change := plain_step_change plain (changes call (by simp))
      rw [Machine.final_cons,
        induction _ fun later member => changes later (by simp [member]),
        change]

/-- Only the net effect of changes counts.  Any two lists of `upsert_known`
and `remove_known` calls that lead to the same first-hand set can stand for
each other in any run: everything the engine returns afterwards is the same,
as are its links and hints. -/
theorem changes_coalesce (cfg : PexConfig)
    (earlier left right later : List Call)
    (changes : ∀ call ∈ left ++ right, call.isChange = true)
    (few : knownChanges cfg.localPeerId
      (earlier ++ left ++ right ++ later) < 2 ^ 64) :
    let leftReached := engineStep.final (.new cfg) (earlier ++ left)
    let rightReached := engineStep.final (.new cfg) (earlier ++ right)
    leftReached.known.entries = rightReached.known.entries →
      engineStep.trace leftReached later =
          engineStep.trace rightReached later ∧
        (engineStep.final leftReached later).plain =
          (engineStep.final rightReached later).plain := by
  intro leftReached rightReached entries
  have known := KnownSet.eq_of_entries entries
  simp only [knownChanges_append] at few
  obtain ⟨leftFinal, leftTrace⟩ := @plain_rest _ cfg (earlier ++ left) later
    (by simp only [knownChanges_append]; omega)
  obtain ⟨rightFinal, rightTrace⟩ := @plain_rest _ cfg (earlier ++ right)
    later (by simp only [knownChanges_append]; omega)
  have leftChanges := (@plain_rest _ cfg earlier left
    (by simp only [knownChanges_append]; omega)).1
  have rightChanges := (@plain_rest _ cfg earlier right
    (by simp only [knownChanges_append]; omega)).1
  have same : leftReached.plain = rightReached.plain := by
    simp only [leftReached, rightReached, Machine.final_append]
    rw [← leftChanges, ← rightChanges,
      plain_final_changes _ fun call member =>
        changes call (List.mem_append_left _ member),
      plain_final_changes _ fun call member =>
        changes call (List.mem_append_right _ member),
      leftChanges, rightChanges]
    simp only [leftReached, rightReached, Machine.final_append] at known
    simp only [PexEngine.plain, known]
  rw [← leftTrace, ← rightTrace, ← leftFinal, ← rightFinal]
  exact ⟨congrArg (PlainEngine.step.trace · later) same,
    congrArg (PlainEngine.step.final · later) same⟩

omit [DefaultHasher] in
/-- A peer that is removed and given again, as it was, before the next tick. -/
theorem changes_coalesce_restored :
    let cfg := exampleConfig (exampleId 'a')
    let peer := exampleEntry 'd' 900 9444
    let earlier : List Call := [.upsertKnown peer,
      .linkUp (exampleId 'b') 1000000 .ascending .zero]
    let restored : List Call := [.removeKnown (exampleId 'd'),
      .upsertKnown peer]
    let later : List Call := [.tick 1060000 exampleOrders fun _ => .zero]
    (@engineStep sipHasher).trace ((@engineStep sipHasher).final (.new cfg)
        (earlier ++ restored)) later =
      (@engineStep sipHasher).trace ((@engineStep sipHasher).final (.new cfg)
        (earlier ++ [])) later := by
  intro cfg peer earlier restored later
  exact (@changes_coalesce sipHasher cfg earlier restored [] later
    (by decide +kernel) (by decide +kernel) (by decide +kernel)).1

/-! ## Ticks -/

namespace LinkState

variable {link : LinkState} {advertisable : List PeerEntry} {nowMs : Nat}

/-- Something to say on a link, whatever the order it would be said in. -/
def Owes (link : LinkState) (advertisable : List PeerEntry) : Prop :=
  (∃ entry ∈ advertisable, link.isPending entry = true) ∨
    ∃ id : String, id ∈ link.told ∧
      ∀ entry ∈ advertisable, entry.peerId ≠ id

theorem dueDelta_eq_none_iff (toldOrder : IterationOrder String) :
    link.dueDelta toldOrder advertisable nowMs = none ↔
      ¬(link.snapshotSent = true ∧ link.sendDue nowMs = true ∧
        link.Owes advertisable) := by
  constructor
  · rintro none ⟨sent, due, owes⟩
    rw [dueDelta_of_due sent due (deltaAgainst_occupied owes)] at none
    cases none
  · intro settled
    by_contra some
    obtain ⟨delta, found⟩ := Option.ne_none_iff_exists'.mp some
    obtain ⟨sent, due, rfl, nonempty⟩ := dueDelta_eq_some found
    refine settled ⟨sent, due, ?_⟩
    rcases nonempty with added | dropped
    · obtain ⟨entry, member⟩ := List.exists_mem_of_ne_nil _ added
      exact .inl ⟨entry, mem_deltaAgainst_added member⟩
    · obtain ⟨id, member⟩ := List.exists_mem_of_ne_nil _ dropped
      obtain ⟨told, gone⟩ := mem_deltaAgainst_dropped member
      refine .inr ⟨id, told, ?_⟩
      rintro entry listed rfl
      exact gone (List.mem_map_of_mem listed)

theorem sendDue_commitDelta (link : LinkState) (added : List PeerEntry)
    (dropped : List String) (nowMs drawn : Nat) :
    (link.commitDelta added dropped nowMs drawn).sendDue nowMs = false := by
  apply decide_eq_false
  simp only [commitDelta, Option.getD_some, effectiveIntervalSecs,
    pexMinInterval]
  omega

end LinkState

namespace PexEngine

variable {engine : PexEngine}

theorem link_of_isDue_tick {nowMs : Nat} {orders : TickOrders}
    {jitter : String → Jitter} {peerId : String}
    (due : ((engine.tick nowMs orders jitter).1.link peerId).isDue nowMs =
      true) :
    engine.dueDelta nowMs orders peerId = none ∧
      (engine.tick nowMs orders jitter).1.link peerId =
        engine.link peerId := by
  rw [link_tick, tickedLink] at due ⊢
  cases owed : engine.dueDelta nowMs orders peerId with
  | none => exact ⟨rfl, rfl⟩
  | some delta =>
      rw [owed, LinkState.isDue, LinkState.sendDue_commitDelta,
        Bool.and_false] at due
      cases due

theorem dueDelta_tick (nowMs : Nat) (orders again : TickOrders)
    (jitter : String → Jitter) (peerId : String) :
    (engine.tick nowMs orders jitter).1.dueDelta nowMs again peerId =
      none := by
  have frame := tick_frame nowMs orders jitter engine
  have listed : ((engine.tick nowMs orders jitter).1.advertisableFor
      again.known peerId (nowMs / 1000)).1 =
        (engine.advertisableFor orders.known peerId (nowMs / 1000)).1 := by
    rw [advertisableFor_eq _ again.known orders.known]
    simp only [advertisableFor, frame.advertisableCached_fst]
  by_contra owed
  obtain ⟨delta, found⟩ := Option.ne_none_iff_exists'.mp owed
  obtain ⟨sent, due, -⟩ := LinkState.dueDelta_eq_some found
  obtain ⟨none, same⟩ := link_of_isDue_tick (by
    rw [LinkState.isDue, sent, due]
    rfl)
  refine owed ?_
  rw [dueDelta, same, listed, LinkState.dueDelta_eq_none_iff]
  exact (LinkState.dueDelta_eq_none_iff _).mp none

/-- A tick again at the same time sends nothing and leaves everything: what
the first one read, it reads from the cache. -/
theorem tick_again (engine : PexEngine) (nowMs : Nat)
    (orders again : TickOrders) (jitter drawn : String → Jitter) :
    let ticked := (engine.tick nowMs orders jitter).1
    ticked.tick nowMs again drawn = (ticked, []) := by
  intro ticked
  have settled (peerId : String) : ticked.dueDelta nowMs again peerId = none :=
    dueDelta_tick nowMs orders again jitter peerId
  obtain ⟨frame, links, messages⟩ := tick_spec nowMs again drawn ticked
  have silent : (ticked.tick nowMs again drawn).2 = [] := by
    rw [messages, List.filterMap_eq_nil_iff]
    intro peerId _
    rw [settled]
    rfl
  have unmoved : SendFrame again.known (nowMs / 1000) ticked ticked :=
    .refl ticked
  refine Prod.ext (frame.eq unmoved ?_ ?_) silent
  · apply Std.ExtTreeMap.ext_getElem?
    intro peerId
    rw [links]
    split
    · rename_i present
      rw [tickedLink, settled, getElem?_eq_some_link present]
    · rfl
  · rw [cache_tick]
    split
    · rename_i someDue
      obtain ⟨peerId, present, due⟩ := someDue
      have before := (link_of_isDue_tick due).2 ▸ due
      have read : ticked.advertisableCache = some (ticked.knownEpoch,
          nowMs / 1000,
          (engine.advertisableCached .ascending (nowMs / 1000)).1) := by
        rw [(tick_frame nowMs orders jitter engine).knownEpoch, cache_tick,
          if_pos]
        rw [Std.ExtTreeMap.mem_keys, mem_links_tick] at present
        exact ⟨peerId, Std.ExtTreeMap.mem_keys.mpr present, before⟩
      rw [advertisableCached_fst_of_cached read, read]
    · rfl

end PexEngine

/-- A tick that is repeated is silent.  In every run, a second tick at the same
time, whatever orders and jitter it draws, returns nothing, and all that the
engine returns afterwards, and the state it ends in, are as without it. -/
theorem repeated_tick_silent (cfg : PexConfig) (earlier later : List Call)
    (nowMs : Nat) (orders again : TickOrders)
    (jitter drawn : String → Jitter) :
    let once := engineStep.final (.new cfg)
      (earlier ++ [.tick nowMs orders jitter])
    let twice := engineStep once (.tick nowMs again drawn)
    twice.2 = .deltas [] ∧
      engineStep.trace twice.1 later = engineStep.trace once later ∧
      engineStep.final twice.1 later = engineStep.final once later := by
  intro once twice
  have ticked : once = ((engineStep.final (.new cfg) earlier).tick nowMs orders
      jitter).1 := Machine.final_concat _ _ _ _
  have same : twice = (once, .deltas []) := by
    simp only [twice, ticked, engineStep, PexEngine.tick_again]
  rw [same]
  exact ⟨rfl, rfl, rfl⟩

omit [DefaultHasher] in
/-- A tick that sends a delta, and again while a third link comes up. -/
theorem repeated_tick_silent_opening :
    let cfg := exampleConfig (exampleId 'a')
    let earlier : List Call :=
      [.linkUp (exampleId 'b') 1000000 .ascending .zero,
        .upsertKnown (exampleEntry 'd' 1000 9444)]
    let later : List Call :=
      [.linkUp (exampleId 'c') 1060500 .ascending .zero]
    let tick := Call.tick 1060000 exampleOrders fun _ => .zero
    let once := (@engineStep sipHasher).final (.new cfg) (earlier ++ [tick])
    let twice := @engineStep sipHasher once tick
    twice.2 = .deltas [] ∧
      (@engineStep sipHasher).trace twice.1 later =
        (@engineStep sipHasher).trace once later := by
  intro cfg earlier later tick once twice
  obtain ⟨silent, same, _⟩ := @repeated_tick_silent sipHasher cfg earlier
    later 1060000 exampleOrders exampleOrders (fun _ => .zero)
    fun _ => .zero
  exact ⟨silent, same⟩

/-! ## Reconnections -/

/-- Runs from states in which a link sees the same are alike on it. -/
theorem PlainEngine.run_alike {peerId : String} {left right : PlainEngine}
    (same : left.engine.linkView peerId = right.engine.linkView peerId)
    (calls : List Call) :
    (step.final left calls).engine.linkView peerId =
        (step.final right calls).engine.linkView peerId ∧
      ((step.trace left calls).filter fun event =>
          event.1.concerns peerId).map (shownOn peerId) =
        ((step.trace right calls).filter fun event =>
          event.1.concerns peerId).map (shownOn peerId) := by
  have hidden : ∀ (state : PlainEngine) (call : Call),
      call.concerns peerId = false →
        (step state call).1.engine.linkView peerId =
          state.engine.linkView peerId := by
    intro state call foreign
    rw [step_eq]
    exact PexEngine.linkView_engineStep_of_foreign foreign state.engine
  have determined : ∀ (left right : PlainEngine) (call : Call),
      call.concerns peerId = true →
        left.engine.linkView peerId = right.engine.linkView peerId →
          (step left call).1.engine.linkView peerId =
              (step right call).1.engine.linkView peerId ∧
            shownOn peerId (call, (step left call).2) =
              shownOn peerId (call, (step right call).2) := by
    intro left right call concerned same
    rw [step_eq, step_eq]
    exact PexEngine.linkView_engineStep left.cacheCurrent_engine
      right.cacheCurrent_engine same concerned
  obtain ⟨leftView, leftShown⟩ := Machine.unwound step hidden determined same
    calls
  obtain ⟨rightView, rightShown⟩ := Machine.unwound step hidden determined
    (rfl : right.engine.linkView peerId = _) calls
  exact ⟨leftView.trans rightView.symm, leftShown.trans rightShown.symm⟩

/-- A link that went down starts afresh.  Whatever two runs did, if they lead
to the same first-hand set and end with a link going down, then the link cannot
tell them apart: from then on the same calls return the same messages for it,
answer what it says alike up to the candidates surfaced, and leave it with the
same record. -/
theorem reconnect_starts_fresh (cfg : PexConfig) (peerId : String)
    (left right later : List Call)
    (few : knownChanges cfg.localPeerId (left ++ right ++ later) < 2 ^ 64) :
    let leftDown := engineStep.final (.new cfg) (left ++ [.linkDown peerId])
    let rightDown := engineStep.final (.new cfg) (right ++ [.linkDown peerId])
    leftDown.known.entries = rightDown.known.entries →
      (engineStep.final leftDown later).links[peerId]? =
          (engineStep.final rightDown later).links[peerId]? ∧
        ((engineStep.trace leftDown later).filter fun event =>
            event.1.concerns peerId).map (shownOn peerId) =
          ((engineStep.trace rightDown later).filter fun event =>
            event.1.concerns peerId).map (shownOn peerId) := by
  intro leftDown rightDown entries
  simp only [knownChanges_append] at few
  have down : knownChanges cfg.localPeerId [.linkDown peerId] = 0 := rfl
  obtain ⟨leftFinal, leftTrace⟩ := @plain_rest _ cfg
    (left ++ [.linkDown peerId]) later
    (by simp only [knownChanges_append, down]; omega)
  obtain ⟨rightFinal, rightTrace⟩ := @plain_rest _ cfg
    (right ++ [.linkDown peerId]) later
    (by simp only [knownChanges_append, down]; omega)
  have gone : ∀ calls : List Call, (engineStep.final (.new cfg)
      (calls ++ [.linkDown peerId])).links[peerId]? = none := by
    intro calls
    rw [Machine.final_concat]
    simp [engineStep, PexEngine.linkDown]
  have same : leftDown.plain.engine.linkView peerId =
      rightDown.plain.engine.linkView peerId := by
    have known := KnownSet.eq_of_entries entries
    simp only [PexEngine.linkView, PlainEngine.engine, PexEngine.plain,
      known, leftDown, rightDown, cfg_final, gone]
  obtain ⟨view, shown⟩ := PlainEngine.run_alike same later
  rw [leftTrace, rightTrace] at shown
  rw [leftFinal, rightFinal] at view
  exact ⟨(PexEngine.linkView_fields view).2.2.1, shown⟩

omit [DefaultHasher] in
/-- A link that was muted, on its next connection. -/
theorem reconnect_starts_fresh_muted :
    let cfg := exampleConfig (exampleId 'a')
    let muted : List Call :=
      [.upsertKnown (exampleEntry 'd' 1000 9444),
        .linkUp (exampleId 'b') 1000000 .ascending .zero,
        .onMessage (exampleId 'b') (.pexHandshake 2 "network" 60 []) 1000500]
    let calm : List Call := [.upsertKnown (exampleEntry 'd' 1000 9444)]
    let later : List Call :=
      [.linkUp (exampleId 'b') 2000000 .ascending .zero,
        .onMessage (exampleId 'b') (.pexHandshake 1 "network" 60 []) 2000500]
    let down := Call.linkDown (exampleId 'b')
    let shown := fun calls =>
      (((@engineStep sipHasher).trace ((@engineStep sipHasher).final
        (.new cfg) (calls ++ [down])) later).filter fun event =>
          event.1.concerns (exampleId 'b')).map (shownOn (exampleId 'b'))
    shown muted = shown calm := by
  intro cfg muted calm later down shown
  exact (@reconnect_starts_fresh sipHasher cfg (exampleId 'b') muted calm
    later (by decide +kernel) (by decide +kernel)).2

end DigPex
