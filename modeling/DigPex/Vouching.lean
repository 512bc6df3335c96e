import DigPex.Concrete
import DigPex.HintReasons

/-!
# The hint and the links that vouch

A hint only gets fresher until it is taken away, and a told candidate leaves a
hint at least as fresh.  So a link whose record is fresher than the hint told
it before the hint was last taken away, and only then can a staler candidate
be surfaced.
-/

namespace DigPex

namespace Hearsay

variable {memory : Hearsay}

theorem hints_of_hear {id : String} {hint : ReceivedHint}
    (lookup : memory.hints[id]? = some hint) (report : Report) :
    (hear memory report).1.hints[id]? = none ∨
      ∃ later, (hear memory report).1.hints[id]? = some later ∧
        hint.lastSeen ≤ later.lastSeen := by
  cases report with
  | tell link candidate =>
      rw [hear_tell]
      dsimp only
      split
      · rename_i fresher
        cases found : (FiniteMap.insertCapped ReceivedHint.lastSeen
            pexMaxHints memory.hints candidate.peerId
            { source := link
              lastSeen := candidate.lastSeen })[id]? with
        | none => exact .inl rfl
        | some later =>
            refine .inr ⟨later, rfl, ?_⟩
            rcases FiniteMap.getElem?_of_insertCapped _ found with
              ⟨rfl, rfl⟩ | ⟨_, old⟩
            · unfold isFresher at fresher
              rw [lookup] at fresher
              exact le_of_lt (of_decide_eq_true fresher)
            · rw [lookup] at old
              rw [Option.some.inj old]
      · exact .inr ⟨hint, lookup, le_rfl⟩
  | withdraw link withdrawn =>
      rw [hints_withdraw]
      split
      · by_cases same : withdrawn = id
        · subst same
          exact .inl (by simp)
        · exact .inr ⟨hint, by grind, le_rfl⟩
      · exact .inr ⟨hint, lookup, le_rfl⟩
  | silence link =>
      rw [hints_silence, lookup]
      by_cases sourced : hint.source = link
      · exact .inl (by simp [Option.filter, sourced])
      · exact .inr ⟨hint, by simp [Option.filter, sourced], le_rfl⟩

theorem hints_of_tell (memory : Hearsay) (link : String)
    (candidate : PeerEntry) :
    ∃ hint, (hear memory (.tell link candidate)).1.hints[candidate.peerId]? =
        some hint ∧
      candidate.lastSeen ≤ hint.lastSeen := by
  rw [hear_tell]
  dsimp only
  split
  · exact ⟨_, FiniteMap.getElem?_insertCapped_self _ _ _ _ _, le_rfl⟩
  · rename_i staler
    unfold isFresher at staler
    cases lookup : memory.hints[candidate.peerId]? with
    | none => simp [lookup] at staler
    | some hint =>
        refine ⟨hint, rfl, ?_⟩
        simpa [lookup] using staler

/-- A link told a candidate for a peer, told no other for it later, and since
then the peer has had no hint for a moment. -/
def VacatedSinceTold (reports : List Report) (link id : String)
    (lastSeen : Nat) : Prop :=
  ∃ early candidate middle late,
    reports = early ++ .tell link candidate :: middle ++ late ∧
      candidate.peerId = id ∧ candidate.lastSeen = lastSeen ∧
      (∀ other, .tell link other ∈ middle ++ late → other.peerId ≠ id) ∧
      (hear.final empty
        (early ++ .tell link candidate :: middle)).hints[id]? = none

/-- A link told a candidate for a peer, told no other for it later, and the
hint is at least as fresh or has been taken away since. -/
def Vouched (reports : List Report) (link id : String) (lastSeen : Nat) :
    Prop :=
  ∃ early candidate late, reports = early ++ .tell link candidate :: late ∧
    candidate.peerId = id ∧ candidate.lastSeen = lastSeen ∧
    (∀ other, .tell link other ∈ late → other.peerId ≠ id) ∧
    ((∃ hint, (hear.final empty reports).hints[id]? = some hint ∧
        lastSeen ≤ hint.lastSeen) ∨
      ∃ middle rest, late = middle ++ rest ∧
        (hear.final empty
          (early ++ .tell link candidate :: middle)).hints[id]? = none)

/-- The last telling of a link stays the last under a report that is no
telling of the peer, and the hint stays as fresh or is taken away. -/
theorem Vouched.concat {reports : List Report} {link id : String}
    {lastSeen : Nat} (vouched : Vouched reports link id lastSeen)
    {report : Report}
    (silent : ∀ other, report = .tell link other → other.peerId ≠ id) :
    Vouched (reports ++ [report]) link id lastSeen := by
  obtain ⟨early, candidate, late, rfl, same, seen, last, fresh⟩ := vouched
  refine ⟨early, candidate, late ++ [report], by simp, same, seen, ?_, ?_⟩
  · intro other member
    rcases List.mem_append.mp member with member | member
    · exact last other member
    · exact silent other (List.mem_singleton.mp member).symm
  · rcases fresh with ⟨hint, lookup, fresh⟩ | ⟨middle, rest, rfl, vacant⟩
    · rw [Machine.final_concat]
      rcases hints_of_hear lookup report with gone | ⟨later, found, fresher⟩
      · refine .inr ⟨late ++ [report], [], by simp, ?_⟩
        rw [← Machine.final_concat] at gone
        simpa using gone
      · exact .inl ⟨later, found, fresh.trans fresher⟩
    · exact .inr ⟨middle, rest ++ [report], by simp, vacant⟩

theorem vouched (reports : List Report) {link id : String} {lastSeen : Nat}
    (lookup : ((hear.final empty reports).received link)[id]? =
      some lastSeen) :
    Vouched reports link id lastSeen := by
  induction reports using List.reverseRecOn with
  | nil => simp [empty] at lookup
  | append_singleton reports report induction =>
      rw [Machine.final_concat] at lookup
      rcases received_of_hear lookup with
        ⟨candidate, rfl, rfl, rfl⟩ | ⟨old, silent⟩
      · refine ⟨reports, candidate, [], rfl, rfl, rfl, by simp, .inl ?_⟩
        rw [Machine.final_concat]
        exact hints_of_tell _ link candidate
      · exact (induction old).concat silent

/-- The record of a link outdates the hint only once the hint has been taken
away since the link told it. -/
theorem le_or_vacated {reports : List Report} {link id : String}
    {lastSeen : Nat}
    (lookup : ((hear.final empty reports).received link)[id]? =
      some lastSeen) :
    (∃ hint, (hear.final empty reports).hints[id]? = some hint ∧
        lastSeen ≤ hint.lastSeen) ∨
      VacatedSinceTold reports link id lastSeen := by
  obtain ⟨early, candidate, late, split, same, seen, last,
    fresh | ⟨middle, rest, rfl, vacant⟩⟩ := vouched reports lookup
  · exact .inl fresh
  · exact .inr ⟨early, candidate, middle, rest, by simpa using split, same,
      seen, last, vacant⟩

/-- A report that surfaces a candidate makes it the hint, in the place of none
or of a staler one. -/
theorem hint_of_surfaced {report : Report} {candidate : PeerEntry}
    (surfaced : candidate ∈
      (hear memory report).2.filterMap HintChange.surfaced) :
    (∃ source, (hear memory report).1.hints[candidate.peerId]? =
        some { source := source, lastSeen := candidate.lastSeen }) ∧
      ∀ hint, memory.hints[candidate.peerId]? = some hint →
        hint.lastSeen < candidate.lastSeen := by
  obtain ⟨change, member, shown⟩ := List.mem_filterMap.mp surfaced
  cases change with
  | removed id => cases shown
  | adopted link adopted evicted =>
      obtain rfl := Option.some.inj shown
      obtain ⟨front, back, output⟩ := List.append_of_mem member
      obtain ⟨rfl, _, fresher, _⟩ := of_adopted output
      refine ⟨⟨link, ?_⟩, fun hint lookup => ?_⟩
      · rw [hear_tell]
        simp only [fresher, if_true]
        exact FiniteMap.getElem?_insertCapped_self _ _ _ _ _
      · unfold isFresher at fresher
        rw [lookup] at fresher
        exact of_decide_eq_true fresher

end Hearsay

variable [DefaultHasher]

/-- Newest wins while the hint lasts.  The reports of a run lead to the maps
and hints it ends with and surface what it surfaces.  At every moment of it,
between any two entries or dropped ids, whatever the map of a link holds for a
peer, the hint for the peer is at least as fresh, and so is every candidate
that the next report surfaces as the hint, unless since the link last told the
peer it has had no hint for a moment. -/
theorem newest_wins_unless_vacated (cfg : PexConfig) (calls : List Call) :
    Hearsay.hear.final .empty (heard cfg calls) =
        (engineStep.final (PexEngine.new cfg) calls).hearsay ∧
      (Hearsay.hear.outputs .empty (heard cfg calls)).flatten.filterMap
          HintChange.surfaced =
        (engineStep.outputs (PexEngine.new cfg) calls).flatMap
          Response.surfaced ∧
      ∀ (reports : List Report), reports <+: heard cfg calls →
        let memory := Hearsay.hear.final .empty reports
        (∀ (link id : String) (lastSeen : Nat) (hint : ReceivedHint),
          (memory.received link)[id]? = some lastSeen →
            memory.hints[id]? = some hint →
              lastSeen ≤ hint.lastSeen ∨
                Hearsay.VacatedSinceTold reports link id lastSeen) ∧
          ∀ (report : Report) (candidate : PeerEntry),
            reports ++ [report] <+: heard cfg calls →
              candidate ∈ (Hearsay.hear memory report).2.filterMap
                HintChange.surfaced →
                (∃ source, (Hearsay.hear memory
                    report).1.hints[candidate.peerId]? =
                  some { source := source
                         lastSeen := candidate.lastSeen }) ∧
                ∀ (link : String) (lastSeen : Nat),
                  (memory.received link)[candidate.peerId]? =
                      some lastSeen →
                    lastSeen < candidate.lastSeen ∨
                      Hearsay.VacatedSinceTold reports link
                        candidate.peerId lastSeen := by
  refine ⟨hear_heard cfg calls, ?_, ?_⟩
  · rw [← hintLog_eq, surfaced_hintLog]
  intro reports _ memory
  refine ⟨fun link id lastSeen hint lookup current => ?_,
    fun report candidate _ surfaced => ?_⟩
  · rcases Hearsay.le_or_vacated lookup with
      ⟨found, present, fresh⟩ | vacated
    · rw [Option.some.inj (current.symm.trans present)]
      exact .inl fresh
    · exact .inr vacated
  · obtain ⟨becomes, fresher⟩ := Hearsay.hint_of_surfaced surfaced
    refine ⟨becomes, fun link lastSeen lookup => ?_⟩
    rcases Hearsay.le_or_vacated lookup with
      ⟨found, present, fresh⟩ | vacated
    · exact .inl (fresh.trans_lt (fresher found present))
    · exact .inr vacated

omit [DefaultHasher] in
/-- A staler hint under a fresher record.  Two links tell the same peer, the
fresher one drops it, and a third link tells a staler candidate: it becomes
the hint and is surfaced, while the second link still vouches for the peer
with a fresher one. -/
theorem staler_hint_surfaced :
    let handshake := PexMessage.pexHandshake 1 "network" 60 []
    let calls : List Call :=
      [.onMessage (exampleId 'a') handshake 1000000,
        .onMessage (exampleId 'a')
          (.pexSnapshot [exampleEntry 'd' 900 9444]) 1000000,
        .onMessage (exampleId 'b') handshake 1000000,
        .onMessage (exampleId 'b')
          (.pexSnapshot [exampleEntry 'd' 800 9444]) 1000000,
        .onMessage (exampleId 'c') handshake 1000000,
        .onMessage (exampleId 'a') (.pexDelta [] [exampleId 'd']) 1060000]
    let staler := Call.onMessage (exampleId 'c')
      (.pexSnapshot [exampleEntry 'd' 700 9444]) 1060000
    let engine := (@engineStep sipHasher).final
      (PexEngine.new (exampleConfig (exampleId 'e'))) calls
    let answered := @engineStep sipHasher engine staler
    answered.2.surfaced = [exampleEntry 'd' 700 9444] ∧
      answered.1.hints[exampleId 'd']? =
        some { source := exampleId 'c', lastSeen := 700 } ∧
      (answered.1.link (exampleId 'b')).received[exampleId 'd']? =
        some 800 ∧
      exampleId 'b' ∈ answered.1.links ∧
      (answered.1.link (exampleId 'b')).muted = false := by
  decide +kernel

end DigPex
