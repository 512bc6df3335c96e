import DigPex.Concrete
import DigPex.HintReasons
import DigPex.Library.Crowding

/-!
# What the hint table keeps

A hint is taken back by its source, replaced by a fresher one, or evicted from
a full table.  The last happens only to the stalest, so a candidate that was
surfaced and not taken back is forgotten only for a table full of others at
least as fresh.
-/

namespace DigPex

open PexEngine

theorem hintLog_append [DefaultHasher] (cfg : PexConfig)
    (earlier later : List Call) :
    hintLog cfg (earlier ++ later) = hintLog cfg earlier ++
      ((engineStep.observed PexEngine.hintChanges).outputs
        (engineStep.final (.new cfg) earlier) later).flatten := by
  rw [hintLog, Machine.outputs_append, Machine.final_observed,
    List.flatten_append]
  rfl

/-- A log surfaces a candidate for a peer, seen then. -/
def Sighted (log : List HintChange) (id : String) (lastSeen : Nat) : Prop :=
  ∃ candidate ∈ log.filterMap HintChange.surfaced,
    candidate.peerId = id ∧ candidate.lastSeen = lastSeen

theorem Sighted.append {earlier : List HintChange} {id : String}
    {lastSeen : Nat} (sighted : Sighted earlier id lastSeen)
    (later : List HintChange) : Sighted (earlier ++ later) id lastSeen := by
  obtain ⟨candidate, surfaced, same⟩ := sighted
  refine ⟨candidate, ?_, same⟩
  rw [List.filterMap_append]
  exact List.mem_append_left _ surfaced

theorem sighted_of_hints {log : List HintChange} {id : String}
    {hint : ReceivedHint}
    (lookup : (log.foldl HintChange.apply ∅)[id]? = some hint) :
    Sighted log id hint.lastSeen := by
  induction log using List.reverseRecOn with
  | nil => simp at lookup
  | append_singleton log change induction =>
      rw [List.foldl_append, List.foldl_cons, List.foldl_nil] at lookup
      cases change with
      | adopted link candidate evicted =>
          by_cases own : candidate.peerId = id
          · obtain rfl : { source := link
                           lastSeen := candidate.lastSeen } = hint := by
              simpa [HintChange.apply, own] using lookup
            exact ⟨candidate, by simp [HintChange.surfaced], own, rfl⟩
          · refine (induction ?_).append _
            cases evicted with
            | none => grind [HintChange.apply]
            | some victim =>
                simp only [HintChange.apply, Option.elim_some] at lookup
                grind
      | removed removed =>
          refine (induction ?_).append _
          simp only [HintChange.apply] at lookup
          grind

variable [DefaultHasher] {cfg : PexConfig} {calls : List Call}

/-- A candidate is adopted into a table that keeps its cap, over a hint that
is staler. -/
theorem adopted_hintLog {earlier later : List HintChange} {link : String}
    {candidate : PeerEntry} {evicted : Option String}
    (joined : hintLog cfg calls =
      earlier ++ .adopted link candidate evicted :: later) :
    let hints := earlier.foldl HintChange.apply ∅
    hints.size ≤ pexMaxHints ∧
      (∀ hint, hints[candidate.peerId]? = some hint →
        hint.lastSeen ≤ candidate.lastSeen) ∧
      (HintChange.adopted link candidate evicted).apply hints =
        FiniteMap.insertCapped ReceivedHint.lastSeen pexMaxHints hints
          candidate.peerId
          { source := link
            lastSeen := candidate.lastSeen } := by
  intro hints
  have fresher := fresher_hintLog joined
  rw [hintLog_eq] at joined
  obtain ⟨before, report, after, front, back, _, output, atTurn⟩ :=
    Hearsay.at_turn joined
  obtain ⟨_, rfl, _, rfl⟩ := Hearsay.of_adopted output
  have same : hints = (Hearsay.hear.final Hearsay.empty before).hints :=
    atTurn
  have bounded := Hearsay.bounded_final .empty before
  refine ⟨?_, ?_, ?_⟩
  · rw [same]
    exact bounded.hints
  · exact fun hint lookup => (fresher candidate hint rfl lookup).le
  · rw [FiniteMap.insertCapped_eq, ← same]
    rfl

/-- While it is not removed, a peer that stands in the hints at a time goes on
to stand at it. -/
theorem stands_hintLog {id : String} {least : Nat}
    {earlier segment later : List HintChange}
    (joined : hintLog cfg calls = earlier ++ segment ++ later)
    (spared : .removed id ∉ segment)
    (stands : FiniteMap.Stands ReceivedHint.lastSeen pexMaxHints
      (Sighted (hintLog cfg calls)) id least
        (earlier.foldl HintChange.apply ∅)) :
    FiniteMap.Stands ReceivedHint.lastSeen pexMaxHints
      (Sighted (hintLog cfg calls)) id least
        ((earlier ++ segment).foldl HintChange.apply ∅) := by
  induction segment using List.reverseRecOn generalizing later with
  | nil => rwa [List.append_nil]
  | append_singleton segment change induction =>
      have split : hintLog cfg calls =
          (earlier ++ segment) ++ change :: later := by
        rw [joined]
        simp
      have before := induction split fun member =>
        spared (List.mem_append_left _ member)
      rw [← List.append_assoc, List.foldl_append, List.foldl_cons,
        List.foldl_nil]
      cases change with
      | adopted link candidate evicted =>
          obtain ⟨bounded, outranks, apply⟩ := adopted_hintLog split
          rw [apply]
          refine before.insertCapped bounded ?_ outranks
          intro other hint lookup
          rw [split]
          exact (sighted_of_hints lookup).append _
      | removed removed =>
          refine before.erase ?_
          rintro rfl
          exact spared (by simp)

/-! ## Taking back -/

omit [DefaultHasher] in
/-- Whether a link goes down or drops a peer. -/
def Call.withdraws (link id : String) : Call → Bool
  | .linkDown closed => closed = link
  | .onMessage source (.pexDelta _ dropped) _ =>
      source = link && dropped.contains id
  | _ => false

/-- Whether the source of a peer's hint takes it back: it goes down, drops the
peer or is muted. -/
def PexEngine.retracts (id : String) (engine : PexEngine) (call : Call) :
    Bool :=
  engine.hints[id]?.any fun hint =>
    call.withdraws hint.source id ||
      ((engineStep engine call).1.link hint.source).muted

omit [DefaultHasher] in
theorem told_ne_withdrawn {engine : PexEngine} {call : Call}
    {link other id : String} {candidate : PeerEntry}
    (tells : .tell link candidate ∈ engine.reportsOf call)
    (withdraws : .withdraw other id ∈ engine.reportsOf call) :
    candidate.peerId ≠ id := by
  obtain ⟨added, dropped, nowMs, rfl, accepted, listed⟩ :=
    of_withdraw_mem_reportsOf withdraws
  obtain ⟨_, _, call, _, entry, carried, _, rfl⟩ :=
    of_tell_mem_reportsOf tells
  obtain ⟨_, rfl, _⟩ := Call.onMessage.inj call
  obtain ⟨_, _, _, _, _, disjoint⟩ :=
    (Direction.judge_eq_accepted_iff _ _ _ _).mp accepted
  rw [PeerEntry.clamped_peerId]
  rintro rfl
  exact disjoint _ listed (List.mem_map_of_mem carried)

/-- A hint is removed only when its source takes it back. -/
theorem retracts_of_removed {engine : PexEngine} {call : Call} {id : String}
    (member : .removed id ∈ engine.hintChanges call) :
    engine.retracts id call = true := by
  unfold retracts
  rw [Option.any_eq_true]
  obtain ⟨earlier, later, joined⟩ := List.append_of_mem member
  obtain ⟨before, report, after, front, back, split, output, _⟩ :=
    Hearsay.at_turn joined
  obtain ⟨link, hint, current, rfl, _, withdrawn | silenced⟩ :=
    Hearsay.of_removed output
  · obtain ⟨rfl, told⟩ := withdrawn
    have reported : .withdraw hint.source id ∈ engine.reportsOf call := by
      rw [split]
      simp
    obtain ⟨added, dropped, nowMs, rfl, accepted, listed⟩ :=
      of_withdraw_mem_reportsOf reported
    refine ⟨hint, ?_, by simp [Call.withdraws, listed]⟩
    rcases Hearsay.hint_of_final current with ⟨candidate, told, same, _⟩ | old
    · have tells : .tell hint.source candidate ∈ engine.reportsOf
          (.onMessage hint.source (.pexDelta added dropped) nowMs) := by
        rw [split]
        exact List.mem_append_left _ told
      exact absurd same (told_ne_withdrawn tells reported)
    · exact old
  · subst silenced
    have reported : .silence hint.source ∈ engine.reportsOf call := by
      rw [split]
      simp
    obtain ⟨alone, reason⟩ := of_silence_mem_reportsOf reported
    have first : before = [] := by
      have length := congrArg List.length (alone.symm.trans split)
      simp only [List.length_cons, List.length_nil, List.length_append]
        at length
      apply List.length_eq_zero_iff.mp
      omega
    subst first
    refine ⟨hint, current, ?_⟩
    rcases reason with rfl | mutes
    · simp [Call.withdraws]
    · simp [mutes]

theorem removed_notMem_of_surfaced {engine : PexEngine} {call : Call}
    {candidate : PeerEntry}
    (surfaced : candidate ∈ (engineStep engine call).2.surfaced) :
    .removed candidate.peerId ∉ engine.hintChanges call := by
  rw [← (hear_engineStep engine call).2] at surfaced
  obtain ⟨report, told, same⟩ := List.mem_filterMap.mp
    ((Hearsay.surfaced_sublist _ _).subset surfaced)
  cases report with
  | tell link candidate =>
      obtain rfl := Option.some.inj same
      intro member
      obtain ⟨earlier, later, joined⟩ := List.append_of_mem member
      obtain ⟨before, report, after, front, back, split, output, _⟩ :=
        Hearsay.at_turn joined
      have reported : report ∈ engine.reportsOf call := by
        rw [split]
        simp
      obtain ⟨source, hint, _, _, _, ⟨rfl, _⟩ | rfl⟩ :=
        Hearsay.of_removed output
      · exact told_ne_withdrawn told reported rfl
      · rw [(of_silence_mem_reportsOf reported).1] at told
        simp at told
  | _ => cases same

/-- A run in which the source of a peer's hint never takes it back removes no
hint of it. -/
theorem removed_notMem_of_along {id : String} {start : PexEngine}
    (along : engineStep.Along
      (fun engine call => engine.retracts id call = false) start calls) :
    .removed id ∉ ((engineStep.observed PexEngine.hintChanges).outputs start
      calls).flatten := by
  induction calls generalizing start with
  | nil => exact List.not_mem_nil
  | cons call calls induction =>
      rw [Machine.outputs_cons, List.flatten_cons]
      intro member
      rcases List.mem_append.mp member with now | later
      · have kept : start.retracts id call = false := along.1
        rw [retracts_of_removed now] at kept
        cases kept
      · exact induction along.2 later

theorem foldl_apply_hintLog (cfg : PexConfig) (calls : List Call) :
    (hintLog cfg calls).foldl HintChange.apply ∅ =
      (engineStep.final (.new cfg) calls).hints := by
  have hints := Hearsay.foldl_apply_outputs .empty (heard cfg calls)
  rw [hear_heard, ← hintLog_eq] at hints
  exact hints

/-- A hint is forgotten only for a table full of fresher ones.  In every run,
when a call surfaced a candidate and from then on the source of the peer's hint
did not take it back, the peer still has a hint that is at least as fresh, or
the run surfaced candidates at least as fresh for so many other peers that they
fill all places of the table but one. -/
theorem forgotten_only_for_fresher (cfg : PexConfig)
    (earlier later : List Call) (call : Call) (candidate : PeerEntry) :
    let engine := engineStep.final (.new cfg) earlier
    let answered := engineStep engine call
    let calls := earlier ++ call :: later
    let reached := engineStep.final (.new cfg) calls
    let surfaced :=
      (engineStep.outputs (.new cfg) calls).flatMap Response.surfaced
    candidate ∈ answered.2.surfaced →
      engineStep.Along
        (fun engine call => engine.retracts candidate.peerId call = false)
        answered.1 later →
      (∃ hint, reached.hints[candidate.peerId]? = some hint ∧
          candidate.lastSeen ≤ hint.lastSeen) ∨
        ∃ others : Finset String, candidate.peerId ∉ others ∧
          pexMaxHints ≤ others.card + 1 ∧ ∀ other ∈ others,
            ∃ fresher ∈ surfaced, fresher.peerId = other ∧
              candidate.lastSeen ≤ fresher.lastSeen := by
  intro engine answered calls reached surfaced found along
  have changes : (engine.hintChanges call).filterMap HintChange.surfaced =
      answered.2.surfaced := (hear_engineStep engine call).2
  have spared := removed_notMem_of_surfaced found
  rw [← changes] at found
  obtain ⟨change, member, same⟩ := List.mem_filterMap.mp found
  cases change with
  | removed id => cases same
  | adopted link adopted evicted =>
      obtain rfl := Option.some.inj same
      obtain ⟨front, back, joined⟩ := List.append_of_mem member
      rw [joined] at spared
      have log : hintLog cfg (earlier ++ call :: later) =
          (hintLog cfg earlier ++ front) ++
            .adopted link adopted evicted :: (back ++
              ((engineStep.observed PexEngine.hintChanges).outputs answered.1
                later).flatten) := by
        rw [hintLog_append, Machine.outputs_cons, List.flatten_cons]
        change hintLog cfg earlier ++ (engine.hintChanges call ++ _) = _
        rw [joined]
        simp
        rfl
      obtain ⟨_, _, inserted⟩ := adopted_hintLog log
      have stands := @stands_hintLog _ cfg (earlier ++ call :: later)
        adopted.peerId adopted.lastSeen
        (hintLog cfg earlier ++ front ++ [.adopted link adopted evicted])
        (back ++ ((engineStep.observed PexEngine.hintChanges).outputs
          answered.1 later).flatten) []
        (by rw [log]; simp) (by
          intro member
          rcases List.mem_append.mp member with now | after
          · exact spared (by simp [now])
          · exact removed_notMem_of_along along after)
        (by
          rw [List.foldl_append, List.foldl_cons, List.foldl_nil, inserted]
          exact FiniteMap.Stands.of_insertCapped
            (ReceivedHint.mk link adopted.lastSeen))
      have whole : (hintLog cfg earlier ++ front ++
            [.adopted link adopted evicted]) ++
              (back ++ ((engineStep.observed PexEngine.hintChanges).outputs
                answered.1 later).flatten) =
          hintLog cfg (earlier ++ call :: later) := by
        rw [log]
        simp
      rw [whole, foldl_apply_hintLog] at stands
      cases stands with
      | held hint lookup enough => exact .inl ⟨hint, lookup, enough⟩
      | crowded beside =>
        obtain ⟨others, apart, many, ranked⟩ := beside
        refine .inr ⟨others, apart, many, fun other member => ?_⟩
        obtain ⟨lastSeen, above, fresher, listed, rfl, rfl⟩ :=
          ranked other member
        rw [surfaced_hintLog] at listed
        exact ⟨fresher, listed, rfl, above⟩

omit [DefaultHasher] in
/-- A hint that was replaced by a fresher one outlives its first source. -/
theorem forgotten_only_for_fresher_replaced :
    let opening := PexMessage.pexHandshake 1 "network" 60 []
    let peer := exampleEntry 'd' 900 9444
    let earlier : List Call :=
      [.onMessage (exampleId 'b') opening 1000000,
        .onMessage (exampleId 'c') opening 1000000]
    let call := Call.onMessage (exampleId 'b') (.pexSnapshot [peer]) 1000000
    let later : List Call :=
      [.onMessage (exampleId 'c')
          (.pexSnapshot [exampleEntry 'd' 950 9444]) 1000500,
        .linkDown (exampleId 'b')]
    let cfg := exampleConfig (exampleId 'a')
    let calls := earlier ++ call :: later
    let reached := (@engineStep sipHasher).final (.new cfg) calls
    let surfaced := ((@engineStep sipHasher).outputs (.new cfg)
      calls).flatMap Response.surfaced
    (∃ hint, reached.hints[peer.peerId]? = some hint ∧
        peer.lastSeen ≤ hint.lastSeen) ∨
      ∃ others : Finset String, peer.peerId ∉ others ∧
        pexMaxHints ≤ others.card + 1 ∧ ∀ other ∈ others,
          ∃ fresher ∈ surfaced, fresher.peerId = other ∧
            peer.lastSeen ≤ fresher.lastSeen := by
  intro opening peer earlier call later cfg calls reached surfaced
  exact @forgotten_only_for_fresher sipHasher cfg earlier later call peer
    (by decide +kernel) (by decide +kernel)

end DigPex
