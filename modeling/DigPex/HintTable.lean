import DigPex.Hearsay

/-!
# Why the hints change

Each change of the hints has one of three reasons: a fresher candidate, the
withdrawal or silencing of the source, or a full table.  The changes of a call
follow its message in order, and those that adopt a candidate are exactly what
the call surfaces.
-/

namespace DigPex

namespace Hearsay

/-- The capacities of the maps are kept. -/
structure Bounded (memory : Hearsay) : Prop where
  received : ∀ link : String,
    (memory.received link).size ≤ pexMaxReceivedPerLink
  hints : memory.hints.size ≤ pexMaxHints

variable {memory : Hearsay}

@[simp] theorem setReceived_hints (link : String)
    (received : Std.ExtTreeMap String Nat) :
    (memory.setReceived link received).hints = memory.hints :=
  rfl

theorem setReceived_received (link other : String)
    (received : Std.ExtTreeMap String Nat) :
    (memory.setReceived link received).received other =
      if other = link then received else memory.received other :=
  Function.update_apply _ _ _ _

theorem Bounded.empty : Hearsay.empty.Bounded := by
  constructor <;> simp [Hearsay.empty]

theorem Bounded.setReceived (bounded : memory.Bounded) (link : String)
    {received : Std.ExtTreeMap String Nat}
    (small : received.size ≤ pexMaxReceivedPerLink) :
    (memory.setReceived link received).Bounded := by
  refine ⟨fun other => ?_, bounded.hints⟩
  rw [setReceived_received]
  split
  · exact small
  · exact bounded.received other

theorem hear_tell (memory : Hearsay) (link : String)
    (candidate : PeerEntry) :
    (hear memory (.tell link candidate)).1 =
      { memory.setReceived link
          (FiniteMap.insertCapped id pexMaxReceivedPerLink
            (memory.received link) candidate.peerId candidate.lastSeen) with
        hints :=
          if memory.isFresher candidate then
            FiniteMap.insertCapped ReceivedHint.lastSeen pexMaxHints
              memory.hints candidate.peerId
              { source := link
                lastSeen := candidate.lastSeen }
          else
            memory.hints } := by
  have adopted := FiniteMap.insertCapped_eq ReceivedHint.lastSeen pexMaxHints
    memory.hints candidate.peerId
    { source := link
      lastSeen := candidate.lastSeen }
  rw [adopted]
  unfold hear
  dsimp only
  split <;> rfl

theorem received_withdraw (memory : Hearsay) (source withdrawn : String)
    (link : String) :
    (hear memory (.withdraw source withdrawn)).1.received link =
      if link = source then (memory.received source).erase withdrawn
      else memory.received link := by
  unfold hear
  dsimp only
  split
  · split <;> exact setReceived_received _ _ _
  · rename_i untold
    have same : (memory.received source).erase withdrawn =
        memory.received source := by
      apply Std.ExtTreeMap.ext_getElem?
      grind
    rw [same]
    split
    · rename_i own
      rw [own]
    · rfl

theorem hints_withdraw (memory : Hearsay) (source withdrawn : String) :
    (hear memory (.withdraw source withdrawn)).1.hints =
      if withdrawn ∈ memory.received source ∧
          ∃ hint, memory.hints[withdrawn]? = some hint ∧
            hint.source = source then
        memory.hints.erase withdrawn
      else
        memory.hints := by
  unfold hear
  simp only [Std.ExtTreeMap.contains_iff_mem, Option.any_eq_true,
    decide_eq_true_eq]
  split
  · split <;> simp_all
  · simp_all

@[simp] theorem received_silence (memory : Hearsay) (source link : String) :
    (hear memory (.silence source)).1.received link =
      if link = source then ∅ else memory.received link :=
  setReceived_received _ _ _

theorem hints_silence (memory : Hearsay) (source id : String) :
    (hear memory (.silence source)).1.hints[id]? =
      memory.hints[id]?.filter fun hint => hint.source ≠ source := by
  simp only [hear, Std.ExtTreeMap.getElem?_filter, Option.pfilter_eq_filter]

theorem Bounded.hear (bounded : memory.Bounded) (report : Report) :
    (Hearsay.hear memory report).1.Bounded := by
  cases report with
  | tell link candidate =>
      rw [hear_tell]
      refine ⟨(bounded.setReceived link ?_).received, ?_⟩
      · exact FiniteMap.size_insertCapped_le _ (by decide)
          (bounded.received link) _ _
      · dsimp only
        split
        · exact FiniteMap.size_insertCapped_le _ (by decide) bounded.hints _ _
        · exact bounded.hints
  | withdraw link id =>
      constructor
      · intro other
        rw [received_withdraw]
        split
        · exact Std.ExtTreeMap.size_erase_le.trans (bounded.received link)
        · exact bounded.received other
      · rw [hints_withdraw]
        split
        · exact Std.ExtTreeMap.size_erase_le.trans bounded.hints
        · exact bounded.hints
  | silence link =>
      refine ⟨(bounded.setReceived link ?_).received, ?_⟩
      · simp
      · exact Std.ExtTreeMap.size_filter_le_size.trans bounded.hints

theorem bounded_final (bounded : memory.Bounded) (reports : List Report) :
    (Hearsay.hear.final memory reports).Bounded :=
  Hearsay.hear.final_invariant Bounded bounded
    (fun _ report bounded => bounded.hear report) reports

/-! ## The changes are the difference -/

theorem getElem?_foldl_removed
    (hints : Std.ExtTreeMap String ReceivedHint) (ids : List String)
    (id : String) :
    ((ids.map HintChange.removed).foldl HintChange.apply hints)[id]? =
      if id ∈ ids then none else hints[id]? := by
  induction ids generalizing hints with
  | nil => rfl
  | cons first ids induction =>
      rw [List.map_cons, List.foldl_cons, induction]
      simp only [HintChange.apply, List.mem_cons]
      grind

theorem mem_sourced {link id : String} :
    id ∈ (memory.hints.filter fun _ hint => hint.source = link).keys ↔
      ∃ hint, memory.hints[id]? = some hint ∧ hint.source = link := by
  rw [Std.ExtTreeMap.mem_keys, Std.ExtTreeMap.mem_iff_isSome_getElem?,
    Std.ExtTreeMap.getElem?_filter]
  cases memory.hints[id]? <;> simp

theorem foldl_apply_hear (memory : Hearsay) (report : Report) :
    (hear memory report).2.foldl HintChange.apply memory.hints =
      (hear memory report).1.hints := by
  cases report with
  | tell link candidate =>
      unfold hear
      dsimp only
      split <;> rfl
  | withdraw link id =>
      unfold hear
      dsimp only
      split
      · split <;> rfl
      · rfl
  | silence link =>
      apply Std.ExtTreeMap.ext_getElem?
      intro id
      rw [hints_silence]
      simp only [hear, getElem?_foldl_removed, mem_sourced]
      cases memory.hints[id]? with
      | none => simp
      | some hint =>
          by_cases sourced : hint.source = link <;>
            simp [Option.filter, sourced]

theorem foldl_apply_outputs (memory : Hearsay) (reports : List Report) :
    (hear.outputs memory reports).flatten.foldl HintChange.apply
        memory.hints =
      (hear.final memory reports).hints := by
  induction reports generalizing memory with
  | nil => rfl
  | cons report reports induction =>
      rw [Machine.outputs_cons, List.flatten_cons, List.foldl_append,
        foldl_apply_hear, induction, Machine.final_cons]

/-- The hints at the turn of a change among the changes of a list of
reports. -/
theorem at_turn {reports : List Report} {earlier later : List HintChange}
    {change : HintChange}
    (joined : (hear.outputs memory reports).flatten =
      earlier ++ change :: later) :
    ∃ before report after front back,
      reports = before ++ report :: after ∧
        (hear (hear.final memory before) report).2 =
          front ++ change :: back ∧
        earlier.foldl HintChange.apply memory.hints =
          front.foldl HintChange.apply (hear.final memory before).hints := by
  obtain ⟨before, report, after, front, back, split, output, rfl⟩ :=
    Machine.of_flatten_outputs joined
  refine ⟨before, report, after, front, back, split, output, ?_⟩
  rw [List.foldl_append, foldl_apply_outputs]

theorem of_adopted {report : Report} {front back : List HintChange}
    {link : String} {candidate : PeerEntry} {evicted : Option String}
    (output : (hear memory report).2 =
      front ++ .adopted link candidate evicted :: back) :
    report = .tell link candidate ∧ front = [] ∧
      memory.isFresher candidate = true ∧
      evicted = FiniteMap.evicted ReceivedHint.lastSeen pexMaxHints
        memory.hints candidate.peerId := by
  have member : HintChange.adopted link candidate evicted ∈
      (hear memory report).2 := by
    rw [output]
    simp
  cases report with
  | tell source told =>
      unfold hear at output
      dsimp only at output
      split at output
      · rename_i fresher
        obtain ⟨rfl, same⟩ | ⟨_, wrong⟩ :=
          List.singleton_eq_append_iff.mp output
        · obtain ⟨first, rfl⟩ := List.cons.inj same.symm
          obtain ⟨rfl, rfl, rfl⟩ := HintChange.adopted.inj first
          exact ⟨rfl, rfl, fresher, rfl⟩
        · simp at wrong
      · simp at output
  | withdraw source id =>
      unfold hear at member
      dsimp only at member
      split at member
      · split at member <;> simp at member
      · simp at member
  | silence source => simp [hear] at member

theorem of_removed {report : Report} {front back : List HintChange}
    {id : String}
    (output : (hear memory report).2 = front ++ .removed id :: back) :
    ∃ link hint, memory.hints[id]? = some hint ∧ hint.source = link ∧
      (front.foldl HintChange.apply memory.hints)[id]? = some hint ∧
      (report = .withdraw link id ∧ id ∈ memory.received link ∨
        report = .silence link) := by
  cases report with
  | tell source told =>
      unfold hear at output
      dsimp only at output
      split at output
      · obtain ⟨_, same⟩ | ⟨_, wrong⟩ :=
          List.singleton_eq_append_iff.mp output
        · simp at same
        · simp at wrong
      · simp at output
  | withdraw source withdrawn =>
      unfold hear at output
      dsimp only at output
      split at output
      · rename_i told
        split at output
        · rename_i owned
          obtain ⟨rfl, same⟩ | ⟨_, wrong⟩ :=
            List.singleton_eq_append_iff.mp output
          · obtain ⟨first, rfl⟩ := List.cons.inj same.symm
            obtain rfl := HintChange.removed.inj first
            obtain ⟨hint, lookup, sourced⟩ :=
              (Option.any_eq_true _ _).mp owned
            exact ⟨source, hint, lookup, of_decide_eq_true sourced, lookup,
              .inl ⟨rfl, Std.ExtTreeMap.contains_iff_mem.mp told⟩⟩
          · simp at wrong
        · simp at output
      · simp at output
  | silence source =>
      obtain ⟨removed, rest, keys, rfl, tail⟩ :=
        List.map_eq_append_iff.mp output
      obtain ⟨first, others, rfl, same, _⟩ := List.map_eq_cons_iff.mp tail
      obtain rfl := HintChange.removed.inj same
      have nodup : (removed ++ first :: others).Nodup :=
        keys ▸ Std.ExtTreeMap.nodup_keys
      have unremoved : first ∉ removed := by
        intro member
        exact (List.nodup_append.mp nodup).2.2 first member first (by simp) rfl
      have sourced : first ∈ (memory.hints.filter fun _ hint =>
          hint.source = source).keys := by
        rw [keys]
        simp
      obtain ⟨hint, lookup, owned⟩ := mem_sourced.mp sourced
      refine ⟨source, hint, lookup, owned, ?_, .inr rfl⟩
      rw [getElem?_foldl_removed, if_neg unremoved]
      exact lookup

theorem received_of_hear {report : Report} {link id : String}
    {lastSeen : Nat}
    (lookup : ((hear memory report).1.received link)[id]? = some lastSeen) :
    (∃ candidate, report = .tell link candidate ∧ candidate.peerId = id ∧
        candidate.lastSeen = lastSeen) ∨
      (memory.received link)[id]? = some lastSeen ∧
        ∀ candidate, report = .tell link candidate →
          candidate.peerId ≠ id := by
  cases report with
  | tell source candidate =>
      rw [hear_tell] at lookup
      dsimp only at lookup
      rw [setReceived_received] at lookup
      by_cases same : link = source
      · subst same
        rw [if_pos rfl] at lookup
        rcases FiniteMap.getElem?_of_insertCapped _ lookup with
          ⟨own, found⟩ | ⟨different, old⟩
        · exact .inl ⟨candidate, rfl, own.symm, found.symm⟩
        · refine .inr ⟨old, ?_⟩
          rintro other ⟨⟩
          exact Ne.symm different
      · rw [if_neg same] at lookup
        refine .inr ⟨lookup, ?_⟩
        rintro other ⟨⟩
        exact absurd rfl same
  | withdraw source withdrawn =>
      refine .inr ⟨?_, nofun⟩
      rw [received_withdraw] at lookup
      split at lookup
      · rename_i own
        subst own
        grind
      · exact lookup
  | silence source =>
      refine .inr ⟨?_, nofun⟩
      rw [received_silence] at lookup
      split at lookup
      · simp at lookup
      · exact lookup

theorem hint_of_hear {report : Report} {id : String} {hint : ReceivedHint}
    (lookup : (hear memory report).1.hints[id]? = some hint) :
    (∃ candidate, report = .tell hint.source candidate ∧
        candidate.peerId = id ∧ candidate.lastSeen = hint.lastSeen) ∨
      memory.hints[id]? = some hint := by
  cases report with
  | tell link candidate =>
      rw [hear_tell] at lookup
      dsimp only at lookup
      split at lookup
      · rcases FiniteMap.getElem?_of_insertCapped _ lookup with
          ⟨rfl, rfl⟩ | ⟨_, old⟩
        · exact .inl ⟨candidate, rfl, rfl, rfl⟩
        · exact .inr old
      · exact .inr lookup
  | withdraw link withdrawn =>
      rw [hints_withdraw] at lookup
      split at lookup
      · exact .inr (by grind)
      · exact .inr lookup
  | silence link =>
      rw [hints_silence] at lookup
      exact .inr (Option.filter_eq_some_iff.mp lookup).1

theorem hint_of_final {reports : List Report} {id : String}
    {hint : ReceivedHint}
    (lookup : (hear.final memory reports).hints[id]? = some hint) :
    (∃ candidate, Report.tell hint.source candidate ∈ reports ∧
        candidate.peerId = id ∧ candidate.lastSeen = hint.lastSeen) ∨
      memory.hints[id]? = some hint := by
  induction reports generalizing memory with
  | nil => exact .inr lookup
  | cons report reports induction =>
      rcases induction lookup with ⟨candidate, told, same⟩ | early
      · exact .inl ⟨candidate, List.mem_cons_of_mem _ told, same⟩
      · rcases hint_of_hear early with ⟨candidate, rfl, same⟩ | old
        · exact .inl ⟨candidate, List.mem_cons_self, same⟩
        · exact .inr old

theorem mem_received_of_final {reports : List Report} {link id : String}
    (present : id ∈ (hear.final memory reports).received link) :
    id ∈ memory.received link ∨
      ∃ candidate, Report.tell link candidate ∈ reports ∧
        candidate.peerId = id := by
  induction reports generalizing memory with
  | nil => exact .inl present
  | cons report reports induction =>
      rcases induction present with early | ⟨candidate, told, same⟩
      · obtain ⟨lastSeen, lookup⟩ := Option.isSome_iff_exists.mp
          (Std.ExtTreeMap.mem_iff_isSome_getElem?.mp early)
        rcases received_of_hear lookup with
          ⟨candidate, rfl, same, _⟩ | ⟨old, _⟩
        · exact .inr ⟨candidate, List.mem_cons_self, same⟩
        · apply Or.inl
          grind
      · exact .inr ⟨candidate, List.mem_cons_of_mem _ told, same⟩

end Hearsay

namespace HintChange

/-- An adopted candidate is fresher than the hint it replaces. -/
def IsFresher (hints : Std.ExtTreeMap String ReceivedHint)
    (change : HintChange) : Prop :=
  ∀ candidate hint, change.surfaced = some candidate →
    hints[candidate.peerId]? = some hint →
      hint.lastSeen < candidate.lastSeen

/-- The candidates for one peer among those that changes surface. -/
def surfacedFor (id : String) (changes : List HintChange) :
    List PeerEntry :=
  (changes.filterMap surfaced).filter fun candidate => candidate.peerId = id

variable {hints : Std.ExtTreeMap String ReceivedHint} {id : String}
  {change : HintChange}

theorem getElem?_apply_of_surfaced {candidate : PeerEntry}
    (surfaced : change.surfaced = some candidate) :
    ∃ source, (change.apply hints)[candidate.peerId]? =
      some { source := source, lastSeen := candidate.lastSeen } := by
  cases change with
  | adopted link adopted evicted =>
      obtain rfl := Option.some.inj surfaced
      exact ⟨link, by simp [apply]⟩
  | removed removed => cases surfaced

theorem getElem?_apply_of_kept (kept : change.clears id = false)
    (other : ∀ candidate, change.surfaced = some candidate →
      candidate.peerId ≠ id) :
    (change.apply hints)[id]? = hints[id]? := by
  cases change with
  | adopted link candidate evicted =>
      have different := other candidate rfl
      cases evicted with
      | none => grind [apply]
      | some victim =>
          have spared : victim ≠ id := by simpa [clears] using kept
          simp only [apply, Option.elim_some]
          grind
  | removed removed =>
      have different : removed ≠ id := by simpa [clears] using kept
      simp only [apply]
      grind

/-- While the hint of a peer is not taken away, the candidates adopted for it
are fresher and fresher. -/
theorem increasing {changes : List HintChange}
    (fresher : ∀ earlier change later,
      changes = earlier ++ change :: later →
        change.IsFresher (earlier.foldl apply hints))
    (kept : ∀ change ∈ changes, change.clears id = false) :
    (∀ hint, hints[id]? = some hint →
        ∀ candidate ∈ surfacedFor id changes,
          hint.lastSeen < candidate.lastSeen) ∧
      (surfacedFor id changes).Pairwise fun earlier later =>
        earlier.lastSeen < later.lastSeen := by
  induction changes generalizing hints with
  | nil => simp [surfacedFor]
  | cons change changes induction =>
      obtain ⟨above, pairwise⟩ := @induction (change.apply hints)
        (fun earlier next later split =>
          fresher (change :: earlier) next later (by rw [split]; rfl))
        (fun next member => kept next (List.mem_cons_of_mem _ member))
      have first := fresher [] change changes rfl
      by_cases own : ∃ candidate, change.surfaced = some candidate ∧
          candidate.peerId = id
      · obtain ⟨candidate, surfaced, rfl⟩ := own
        have split : surfacedFor candidate.peerId (change :: changes) =
            candidate :: surfacedFor candidate.peerId changes := by
          simp [surfacedFor, surfaced]
        obtain ⟨source, adopted⟩ :=
          @getElem?_apply_of_surfaced hints change candidate surfaced
        have rising := above _ adopted
        rw [split]
        refine ⟨?_, .cons rising pairwise⟩
        intro hint lookup later member
        have newer := first candidate hint surfaced lookup
        rcases List.mem_cons.mp member with rfl | member
        · exact newer
        · exact newer.trans (rising later member)
      · have others : ∀ candidate, change.surfaced = some candidate →
            candidate.peerId ≠ id :=
          fun candidate surfaced same => own ⟨candidate, surfaced, same⟩
        have split : surfacedFor id (change :: changes) =
            surfacedFor id changes := by
          cases surfaced : change.surfaced with
          | none => simp [surfacedFor, surfaced]
          | some candidate =>
              simp [surfacedFor, surfaced, others candidate surfaced]
        rw [split]
        rw [getElem?_apply_of_kept (kept change (by simp)) others] at above
        exact ⟨above, pairwise⟩

end HintChange

/-! ## Surfaced candidates follow the reports -/

/-- The candidate a report tells. -/
def Report.candidate : Report → Option PeerEntry
  | tell _ candidate => some candidate
  | _ => none

namespace Hearsay

theorem surfaced_hear (memory : Hearsay) (report : Report) :
    ((hear memory report).2.filterMap HintChange.surfaced).Sublist
      report.candidate.toList := by
  cases report with
  | tell link candidate =>
      unfold hear
      dsimp only
      split
      · exact .refl _
      · exact List.nil_sublist _
  | withdraw link id =>
      have silent := @PexEngine.surfaced_withdrawals link memory [id]
      simp only [List.map_cons, List.map_nil, Machine.outputs_cons,
        Machine.outputs_nil, List.flatten_cons, List.flatten_nil,
        List.append_nil] at silent
      rw [silent]
      exact List.nil_sublist _
  | silence link =>
      rw [PexEngine.surfaced_silence memory]
      exact List.nil_sublist _

theorem surfaced_sublist (memory : Hearsay) (reports : List Report) :
    ((hear.outputs memory reports).flatten.filterMap
        HintChange.surfaced).Sublist (reports.filterMap Report.candidate) := by
  induction reports generalizing memory with
  | nil => exact .refl _
  | cons report reports induction =>
      have first := surfaced_hear memory report
      rw [Machine.outputs_cons, List.flatten_cons, List.filterMap_append]
      cases told : report.candidate with
      | none =>
          rw [told] at first
          rw [List.filterMap_cons_none told, List.eq_nil_of_sublist_nil first]
          exact induction _
      | some candidate =>
          rw [told] at first
          rw [List.filterMap_cons_some told]
          exact first.append (induction _)

end Hearsay

end DigPex
