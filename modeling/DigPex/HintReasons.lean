import DigPex.HintTable
import DigPex.ReceiverMemory

/-!
# Reasons for the changes of the hints

The changes a call makes are those of its reports.  Each report comes from an
entry, a dropped id or a departure of the call, and so each change has the
reason the call gives it.  Over a run, the candidates adopted for a peer get
strictly fresher until its hint is taken away.
-/

namespace DigPex

/-- The entries a call carries, clamped to its clock. -/
def Call.candidates : Call → List PeerEntry
  | .onMessage _ message nowMs =>
      message.entries.map (·.clamped (nowMs / 1000))
  | _ => []

namespace PexEngine

variable {engine : PexEngine} {call : Call}

/-- The changes of the hints a call makes, in order. -/
def hintChanges (engine : PexEngine) (call : Call) : List HintChange :=
  (Hearsay.hear.outputs engine.hearsay (engine.reportsOf call)).flatten

/-! ## Reports come from calls -/

/-- A message is accepted on a link. -/
def Accepts (engine : PexEngine) (source : String) (message : PexMessage)
    (nowMs : Nat) : Prop :=
  (engine.link source).direction.judge engine.cfg.networkId message nowMs =
    .accepted

theorem reportsOf_of_accepts {source : String} {message : PexMessage}
    {nowMs : Nat} (accepted : engine.Accepts source message nowMs) :
    engine.reportsOf (.onMessage source message nowMs) =
      engine.messageReports source (nowMs / 1000) message := by
  unfold Accepts at accepted
  simp only [reportsOf, accepted]

theorem onMessage_of_accepts {source : String} {message : PexMessage}
    {nowMs : Nat} (accepted : engine.Accepts source message nowMs) :
    engine.onMessage source message nowMs =
      engine.accept source message nowMs := by
  unfold Accepts at accepted
  simp only [onMessage_eq, accepted, conclude]

theorem tell_mem_tells {source link : String} {nowSecs : Nat}
    {entries : List PeerEntry} {candidate : PeerEntry} :
    .tell link candidate ∈ engine.tells source nowSecs entries ↔
      link = source ∧ ∃ entry ∈ entries, engine.Keeps source nowSecs entry ∧
        candidate = entry.clamped nowSecs := by
  simp only [tells, List.mem_map, List.mem_filter, decide_eq_true_eq,
    Report.tell.injEq]
  constructor
  · rintro ⟨entry, ⟨member, kept⟩, rfl, rfl⟩
    exact ⟨rfl, entry, member, kept, rfl⟩
  · rintro ⟨rfl, entry, member, kept, rfl⟩
    exact ⟨entry, ⟨member, kept⟩, rfl, rfl⟩

theorem mem_strikeReports {source : String} {report : Report}
    (member : report ∈ engine.strikeReports source) :
    report = .silence source ∧ engine.strikeMutes source = true ∧
      engine.strikeReports source = [.silence source] := by
  unfold strikeReports at member ⊢
  split at member
  · rename_i mutes
    exact ⟨List.mem_singleton.mp member, mutes, if_pos mutes⟩
  · simp at member

theorem tell_mem_messageReports {source link : String} {nowSecs : Nat}
    {message : PexMessage} {candidate : PeerEntry} :
    .tell link candidate ∈ engine.messageReports source nowSecs message ↔
      link = source ∧ ∃ entry ∈ message.entries,
        engine.Keeps source nowSecs entry ∧
          candidate = entry.clamped nowSecs := by
  cases message with
  | pexError code text => simp [messageReports, PexMessage.entries]
  | pexHandshake version networkId declared flags =>
      simp [messageReports, PexMessage.entries]
  | pexSnapshot peers => exact tell_mem_tells
  | pexDelta added dropped =>
      simp only [messageReports, List.mem_append, tell_mem_tells,
        PexMessage.entries]
      simp

theorem withdraw_mem_messageReports {source link id : String} {nowSecs : Nat}
    {message : PexMessage}
    (member : .withdraw link id ∈
      engine.messageReports source nowSecs message) :
    link = source ∧ ∃ added dropped, message = .pexDelta added dropped ∧
      id ∈ dropped := by
  cases message with
  | pexError code text => simp [messageReports] at member
  | pexHandshake version networkId declared flags =>
      simp [messageReports] at member
  | pexSnapshot peers => simp [messageReports, tells] at member
  | pexDelta added dropped =>
      simp only [messageReports, tells, List.mem_append, List.mem_map,
        reduceCtorEq, and_false, exists_false, false_or,
        Report.withdraw.injEq] at member
      obtain ⟨listed, member, rfl, rfl⟩ := member
      exact ⟨rfl, added, dropped, rfl, member⟩

theorem silence_notMem_messageReports {source link : String} {nowSecs : Nat}
    {message : PexMessage} :
    .silence link ∉ engine.messageReports source nowSecs message := by
  cases message <;> simp [messageReports, tells]

theorem of_tell_mem_reportsOf {link : String} {candidate : PeerEntry}
    (member : .tell link candidate ∈ engine.reportsOf call) :
    ∃ message nowMs, call = .onMessage link message nowMs ∧
      engine.Accepts link message nowMs ∧
        ∃ entry ∈ message.entries, engine.Keeps link (nowMs / 1000) entry ∧
          candidate = entry.clamped (nowMs / 1000) := by
  cases call with
  | onMessage source message nowMs =>
      simp only [reportsOf] at member
      split at member
      · simp at member
      · simpa using (mem_strikeReports member).1
      · simp at member
      · rename_i accepted
        obtain ⟨rfl, told⟩ := tell_mem_messageReports.mp member
        exact ⟨message, nowMs, rfl, accepted, told⟩
  | recordViolation source code nowMs =>
      simpa using (mem_strikeReports member).1
  | linkDown closed => simp [reportsOf] at member
  | _ => simp [reportsOf] at member

theorem of_withdraw_mem_reportsOf {link id : String}
    (member : .withdraw link id ∈ engine.reportsOf call) :
    ∃ added dropped nowMs,
      call = .onMessage link (.pexDelta added dropped) nowMs ∧
        engine.Accepts link (.pexDelta added dropped) nowMs ∧
          id ∈ dropped := by
  cases call with
  | onMessage source message nowMs =>
      simp only [reportsOf] at member
      split at member
      · simp at member
      · simpa using (mem_strikeReports member).1
      · simp at member
      · rename_i accepted
        obtain ⟨rfl, added, dropped, rfl, listed⟩ :=
          withdraw_mem_messageReports member
        exact ⟨added, dropped, nowMs, rfl, accepted, listed⟩
  | recordViolation source code nowMs =>
      simpa using (mem_strikeReports member).1
  | linkDown closed => simp [reportsOf] at member
  | _ => simp [reportsOf] at member

/-! ## Surfaced candidates are entries of the call -/

theorem candidate_tells (engine : PexEngine) (source : String)
    (nowSecs : Nat) (entries : List PeerEntry) :
    ((engine.tells source nowSecs entries).filterMap
        Report.candidate).Sublist (entries.map (·.clamped nowSecs)) := by
  have told : (engine.tells source nowSecs entries).filterMap
        Report.candidate =
      (entries.filter fun entry =>
        engine.Keeps source nowSecs entry).map (·.clamped nowSecs) := by
    rw [tells, List.filterMap_map, ← List.filterMap_eq_map]
    rfl
  rw [told]
  exact List.filter_sublist.map _

theorem candidate_reportsOf (engine : PexEngine) (call : Call) :
    ((engine.reportsOf call).filterMap Report.candidate).Sublist
      call.candidates := by
  have struck : ∀ source,
      (engine.strikeReports source).filterMap Report.candidate = [] := by
    intro source
    unfold strikeReports
    split <;> rfl
  cases call with
  | onMessage source message nowMs =>
      simp only [reportsOf]
      split
      · exact List.nil_sublist _
      · rw [struck]
        exact List.nil_sublist _
      · exact List.nil_sublist _
      · cases message with
        | pexError code text => exact List.nil_sublist _
        | pexHandshake version networkId declared flags =>
            exact List.nil_sublist _
        | pexSnapshot peers => exact engine.candidate_tells source _ peers
        | pexDelta added dropped =>
            have silent : (dropped.map (Report.withdraw source)).filterMap
                Report.candidate = [] := by
              simp [List.filterMap_map, List.filterMap_eq_nil_iff,
                Report.candidate]
            simp only [messageReports, List.filterMap_append, silent,
              List.append_nil]
            exact engine.candidate_tells source _ added
  | recordViolation source code nowMs =>
      simp only [reportsOf, struck]
      exact List.nil_sublist _
  | _ => exact List.nil_sublist _

variable [DefaultHasher]

theorem direction_of_accepts {source : String} {message : PexMessage}
    {nowMs : Nat} (accepted : engine.Accepts source message nowMs) :
    ((engineStep engine (.onMessage source message nowMs)).1.link
        source).direction =
      (engine.link source).direction.advance message nowMs := by
  unfold Accepts at accepted
  rw [direction_engineStep]
  simp only [Call.inbound, if_true, Direction.receive, accepted,
    Direction.conclude]

theorem of_silence_mem_reportsOf {link : String}
    (member : .silence link ∈ engine.reportsOf call) :
    engine.reportsOf call = [.silence link] ∧
      (call = .linkDown link ∨
        ((engineStep engine call).1.link link).muted = true) := by
  have struck : ∀ source, .silence link ∈ engine.strikeReports source →
      engine.strikeReports source = [.silence link] ∧
        ((engine.penalize source 1 (engine.strikeMutes source)).link
          link).muted = true := by
    intro source member
    obtain ⟨same, mutes, reports⟩ := mem_strikeReports member
    obtain rfl := Report.silence.inj same
    rw [link_penalize, if_pos rfl]
    exact ⟨reports, by simp [mutes]⟩
  cases call with
  | onMessage source message nowMs =>
      simp only [reportsOf, engineStep, onMessage_eq] at member ⊢
      split at member
      · simp at member
      · rename_i code verdict
        obtain ⟨reports, muted⟩ := struck source member
        exact ⟨reports, .inr (by rw [verdict]; exact muted)⟩
      · rename_i code verdict
        obtain rfl := Report.silence.inj (List.mem_singleton.mp member)
        refine ⟨rfl, .inr ?_⟩
        rw [verdict]
        simp only [conclude, link_penalize, if_true, Bool.or_true]
      · exact absurd member silence_notMem_messageReports
  | recordViolation source code nowMs =>
      obtain ⟨reports, muted⟩ := struck source member
      refine ⟨reports, .inr ?_⟩
      simp only [engineStep, recordViolation_eq]
      exact muted
  | linkDown closed =>
      obtain rfl := Report.silence.inj (List.mem_singleton.mp member)
      exact ⟨rfl, .inl rfl⟩
  | _ => simp [reportsOf] at member

/-- What the eviction for a new hint may take: nothing if the peer has a hint
or there is room; from a full table the least hint. -/
structure EvictsLeast (hints : Std.ExtTreeMap String ReceivedHint)
    (id : String) (evicted : Option String) : Prop where
  spared : evicted = none → id ∈ hints ∨ hints.size < pexMaxHints
  least : ∀ victim, evicted = some victim →
    FiniteMap.GivesWay ReceivedHint.lastSeen pexMaxHints hints id victim

/-- The reasons for a change that a call makes to the hints, which at its turn
are `hints`. -/
inductive Justified (engine : PexEngine) (call : Call)
    (hints : Std.ExtTreeMap String ReceivedHint) : HintChange → Prop
  | fresher {source : String} {message : PexMessage} {nowMs : Nat}
      {entry : PeerEntry} {evicted : Option String}
      (sent : call = .onMessage source message nowMs)
      (accepted : engine.Accepts source message nowMs)
      (carried : entry ∈ message.entries)
      (valid : engine.Keeps source (nowMs / 1000) entry)
      (newer : ∀ hint, hints[entry.peerId]? = some hint →
        hint.lastSeen < min entry.lastSeen (nowMs / 1000))
      (evicts : EvictsLeast hints entry.peerId evicted) :
      Justified engine call hints
        (.adopted source (entry.clamped (nowMs / 1000)) evicted)
  | dropped {source id : String} {added : List PeerEntry}
      {dropped : List String} {nowMs : Nat} {hint : ReceivedHint}
      (sent : call = .onMessage source (.pexDelta added dropped) nowMs)
      (accepted : engine.Accepts source (.pexDelta added dropped) nowMs)
      (listed : id ∈ dropped)
      (told : id ∈ (engine.link source).received)
      (current : hints[id]? = some hint)
      (sourced : hint.source = source) :
      Justified engine call hints (.removed id)
  | down {source id : String} {hint : ReceivedHint}
      (closed : call = .linkDown source)
      (current : hints[id]? = some hint)
      (sourced : hint.source = source) :
      Justified engine call hints (.removed id)
  | muted {source id : String} {hint : ReceivedHint}
      (unmuted : (engine.link source).muted = false)
      (mutes : ((engineStep engine call).1.link source).muted = true)
      (current : hints[id]? = some hint)
      (sourced : hint.source = source) :
      Justified engine call hints (.removed id)

end PexEngine

open PexEngine

theorem bounded_hearsay {latestSecs : Nat} {engine : PexEngine}
    (memory : ReceiverMemory latestSecs engine) :
    engine.hearsay.Bounded :=
  { received := fun link => (memory.link link).bounded
    hints := memory.bounded }

/-- What a link's map holds when an id is withdrawn it held before the call,
since a delta does not add what it drops. -/
theorem received_before_withdraw {engine : PexEngine} {link id : String}
    {added : List PeerEntry} {dropped : List String} {nowMs : Nat}
    {before after : List Report}
    (accepted : engine.Accepts link (.pexDelta added dropped) nowMs)
    (split : engine.reportsOf (.onMessage link (.pexDelta added dropped)
      nowMs) = before ++ after)
    (listed : id ∈ dropped)
    (told : id ∈ (Hearsay.hear.final engine.hearsay before).received link) :
    id ∈ engine.hearsay.received link := by
  rcases Hearsay.mem_received_of_final told with
    present | ⟨candidate, told, same⟩
  · exact present
  · have early : .tell link candidate ∈
        engine.reportsOf (.onMessage link (.pexDelta added dropped)
          nowMs) := by
      rw [split]
      exact List.mem_append_left _ told
    obtain ⟨_, _, called, _, entry, carried, _, rfl⟩ :=
      of_tell_mem_reportsOf early
    obtain ⟨_, rfl, _⟩ := Call.onMessage.inj called
    obtain ⟨_, _, _, _, _, disjoint⟩ :=
      (Direction.judge_eq_accepted_iff _ _ _ _).mp accepted
    rw [PeerEntry.clamped_peerId] at same
    exact absurd (List.mem_map.mpr ⟨entry, carried, same⟩)
      (disjoint id listed)

variable [DefaultHasher]

theorem justified_hintChanges {latestSecs : Nat} {engine : PexEngine}
    {call : Call} (memory : ReceiverMemory latestSecs engine)
    {earlier later : List HintChange} {change : HintChange}
    (joined : engine.hintChanges call = earlier ++ change :: later) :
    Justified engine call (earlier.foldl HintChange.apply engine.hints)
      change := by
  obtain ⟨before, report, after, front, back, split, output, hints⟩ :=
    Hearsay.at_turn joined
  have hintsAtTurn : earlier.foldl HintChange.apply engine.hints =
      front.foldl HintChange.apply
        (Hearsay.hear.final engine.hearsay before).hints := hints
  have bounded := Hearsay.bounded_final (bounded_hearsay memory) before
  have member : report ∈ engine.reportsOf call := by
    rw [split]
    simp
  rw [hintsAtTurn]
  cases change with
  | adopted link candidate evicted =>
      obtain ⟨rfl, rfl, fresher, evicts⟩ := Hearsay.of_adopted output
      obtain ⟨message, nowMs, rfl, accepted, entry, carried, kept, rfl⟩ :=
        of_tell_mem_reportsOf member
      rw [PeerEntry.clamped_peerId] at evicts
      rw [List.foldl_nil]
      refine .fresher rfl accepted carried kept ?_ ⟨?_, ?_⟩
      · intro hint lookup
        unfold Hearsay.isFresher at fresher
        rw [PeerEntry.clamped_peerId, lookup] at fresher
        simpa using fresher
      · intro none
        exact FiniteMap.of_evicted_eq_none ReceivedHint.lastSeen (by decide)
          (evicts.symm.trans none)
      · intro victim some
        exact FiniteMap.givesWay_of_evicted ReceivedHint.lastSeen bounded.hints
          (evicts.symm.trans some)
  | removed id =>
      obtain ⟨link, hint, current, sourced, lookup, withdrawn | silenced⟩ :=
        Hearsay.of_removed output
      · obtain ⟨rfl, told⟩ := withdrawn
        obtain ⟨added, dropped, nowMs, rfl, accepted, listed⟩ :=
          of_withdraw_mem_reportsOf member
        refine .dropped rfl accepted listed ?_ lookup sourced
        exact received_before_withdraw accepted split listed told
      · subst silenced
        obtain ⟨alone, reason⟩ := of_silence_mem_reportsOf member
        have first : before = [] := by
          have length := congrArg List.length (alone.symm.trans split)
          simp only [List.length_cons, List.length_nil, List.length_append]
            at length
          apply List.length_eq_zero_iff.mp
          omega
        subst first
        obtain ⟨_, unmuted, _⟩ := memory.hint id hint current
        rcases reason with closed | mutes
        · exact .down closed lookup sourced
        · exact .muted (by rwa [sourced] at unmuted) mutes lookup sourced

/-! ## Whole runs -/

/-- The changes of the hints over a run, in order. -/
def hintLog (cfg : PexConfig) (calls : List Call) : List HintChange :=
  ((engineStep.observed PexEngine.hintChanges).outputs (PexEngine.new cfg)
    calls).flatten

theorem hintLog_eq (cfg : PexConfig) (calls : List Call) :
    hintLog cfg calls =
      (Hearsay.hear.outputs Hearsay.empty (heard cfg calls)).flatten := by
  induction calls using List.reverseRecOn with
  | nil => rfl
  | append_singleton calls call induction =>
      rw [heard_concat, Machine.outputs_append, List.flatten_append,
        ← induction, hear_heard, hintLog, Machine.outputs_observed_concat,
        List.flatten_concat]
      rfl

theorem surfaced_hintLog (cfg : PexConfig) (calls : List Call) :
    (hintLog cfg calls).filterMap HintChange.surfaced =
      (engineStep.outputs (PexEngine.new cfg) calls).flatMap
        Response.surfaced := by
  induction calls using List.reverseRecOn with
  | nil => rfl
  | append_singleton calls call induction =>
      have surfaced := (hear_engineStep
        (engineStep.final (PexEngine.new cfg) calls) call).2
      rw [hintLog, Machine.outputs_observed_concat, List.flatten_concat,
        List.filterMap_append, Machine.outputs_append, List.flatMap_append,
        ← induction]
      simp only [PexEngine.hintChanges, surfaced, Machine.outputs_cons,
        Machine.outputs_nil, List.flatMap_cons, List.flatMap_nil,
        List.append_nil]
      rfl

/-- Every change of a log is fresher at its turn. -/
theorem fresher_hintLog {cfg : PexConfig} {calls : List Call}
    {earlier later : List HintChange} {change : HintChange}
    (joined : hintLog cfg calls = earlier ++ change :: later) :
    change.IsFresher (earlier.foldl HintChange.apply ∅) := by
  rw [hintLog_eq] at joined
  obtain ⟨before, report, after, front, back, _, output, hints⟩ :=
    Hearsay.at_turn joined
  have hintsAtTurn : earlier.foldl HintChange.apply ∅ =
      front.foldl HintChange.apply
        (Hearsay.hear.final Hearsay.empty before).hints := hints
  rw [hintsAtTurn]
  intro candidate hint surfaced lookup
  cases change with
  | adopted link adopted evicted =>
      obtain rfl := Option.some.inj surfaced
      obtain ⟨_, rfl, fresher, _⟩ := Hearsay.of_adopted output
      unfold Hearsay.isFresher at fresher
      rw [List.foldl_nil] at lookup
      rw [lookup] at fresher
      simpa using fresher
  | removed id => cases surfaced

/-- The hint table changes for a reason.  The changes a call makes, in order,
lead from the hints before it to the hints after it; each is justified at its
turn; what they surface is what the call surfaces, in the order of its
entries.  Over a run, the candidates surfaced for a peer get strictly fresher
until its hint is taken away. -/
theorem hints_justified (cfg : PexConfig) (calls : List Call) :
    (∀ call : Call,
      let engine := engineStep.final (PexEngine.new cfg) calls
      let changes := engine.hintChanges call
      let answered := engineStep engine call
      changes.foldl HintChange.apply engine.hints = answered.1.hints ∧
        (∀ earlier change later, changes = earlier ++ change :: later →
          Justified engine call
            (earlier.foldl HintChange.apply engine.hints) change) ∧
        changes.filterMap HintChange.surfaced = answered.2.surfaced ∧
        answered.2.surfaced.Sublist call.candidates) ∧
      (hintLog cfg calls).filterMap HintChange.surfaced =
        (engineStep.outputs (PexEngine.new cfg) calls).flatMap
          Response.surfaced ∧
      ∀ (id : String) (earlier segment later : List HintChange),
        hintLog cfg calls = earlier ++ segment ++ later →
          (∀ change ∈ segment, change.clears id = false) →
            (HintChange.surfacedFor id segment).Pairwise fun first second =>
              first.lastSeen < second.lastSeen := by
  refine ⟨?_, surfaced_hintLog cfg calls, ?_⟩
  · intro call engine changes answered
    have memory := (ReceiverMemory.start cfg).run calls
    obtain ⟨final, surfaced⟩ := hear_engineStep engine call
    refine ⟨?_, fun earlier change later joined =>
      justified_hintChanges memory joined, surfaced, ?_⟩
    · have hints := Hearsay.foldl_apply_outputs engine.hearsay
        (engine.reportsOf call)
      rw [final] at hints
      exact hints
    · have told := Hearsay.surfaced_sublist engine.hearsay
        (engine.reportsOf call)
      rw [surfaced] at told
      exact told.trans (engine.candidate_reportsOf call)
  · intro id earlier segment later split kept
    have fresher : ∀ front change back,
        segment = front ++ change :: back →
          change.IsFresher
            (front.foldl HintChange.apply
              (earlier.foldl HintChange.apply ∅)) := by
      rintro front change back rfl
      rw [← List.foldl_append]
      have joined : hintLog cfg calls =
          (earlier ++ front) ++ change :: (back ++ later) := by
        rw [split]
        simp
      exact fresher_hintLog joined
    exact (HintChange.increasing fresher kept).2

end DigPex
