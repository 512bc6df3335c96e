import DigPex.Surfacing

/-!
# Hearsay: what links told and what became of it

The two maps a receiver fills, seen as one component with three operations: a
link tells a candidate, withdraws an id, or is silenced.  Each operation says
which changes of the hints it makes.  Every public call of the engine is a
list of reports, in the order of the message it carries.
-/

namespace DigPex

/-- What links told, and the current hints. -/
structure Hearsay where
  received : String → Std.ExtTreeMap String Nat
  hints : Std.ExtTreeMap String ReceivedHint

/-- What a link says, or that nothing it said counts any more. -/
inductive Report where
  | tell (link : String) (candidate : PeerEntry)
  | withdraw (link id : String)
  | silence (link : String)
  deriving DecidableEq, Repr

/-- One change of the hints: a candidate of a link is adopted, in the place of
an evicted hint if need be, or a hint is removed. -/
inductive HintChange where
  | adopted (link : String) (candidate : PeerEntry)
      (evicted : Option String)
  | removed (id : String)
  deriving DecidableEq, Repr

namespace HintChange

/-- The hints after a change. -/
def apply (hints : Std.ExtTreeMap String ReceivedHint) :
    HintChange → Std.ExtTreeMap String ReceivedHint
  | adopted link candidate evicted =>
      (evicted.elim hints hints.erase).insert candidate.peerId
        { source := link
          lastSeen := candidate.lastSeen }
  | removed id => hints.erase id

/-- The candidate a change surfaces. -/
def surfaced : HintChange → Option PeerEntry
  | adopted _ candidate _ => some candidate
  | removed _ => none

/-- Whether a change takes the hint of a peer away. -/
def clears (id : String) : HintChange → Bool
  | adopted _ _ evicted => evicted = some id
  | removed cleared => cleared = id

end HintChange

namespace Hearsay

def empty : Hearsay :=
  { received := fun _ => ∅
    hints := ∅ }

/-- Whether a candidate is fresher than the hint for its peer. -/
def isFresher (memory : Hearsay) (candidate : PeerEntry) : Bool :=
  match memory.hints[candidate.peerId]? with
  | some hint => hint.lastSeen < candidate.lastSeen
  | none => true

/-- The map of a link replaced. -/
def setReceived (memory : Hearsay) (link : String)
    (received : Std.ExtTreeMap String Nat) : Hearsay :=
  { memory with
    received := Function.update memory.received link received }

/-- The memory after a report, and the changes of the hints it makes. -/
def hear : Machine Hearsay Report (List HintChange) :=
  fun memory report =>
    match report with
    | .tell link candidate =>
        let told := memory.setReceived link
          (FiniteMap.insertCapped id pexMaxReceivedPerLink
            (memory.received link) candidate.peerId candidate.lastSeen)
        if memory.isFresher candidate then
          let change := HintChange.adopted link candidate
            (FiniteMap.evicted ReceivedHint.lastSeen pexMaxHints
              memory.hints candidate.peerId)
          ({ told with hints := change.apply memory.hints }, [change])
        else
          (told, [])
    | .withdraw link id =>
        if (memory.received link).contains id then
          let withdrawn :=
            memory.setReceived link ((memory.received link).erase id)
          if memory.hints[id]?.any fun hint => hint.source = link then
            ({ withdrawn with hints := memory.hints.erase id },
              [.removed id])
          else
            (withdrawn, [])
        else
          (memory, [])
    | .silence link =>
        ({ memory.setReceived link ∅ with
            hints := memory.hints.filter fun _ hint => hint.source ≠ link },
          (memory.hints.filter fun _ hint =>
            hint.source = link).keys.map .removed)

end Hearsay

namespace PexEngine

/-- The memory of an engine. -/
def hearsay (engine : PexEngine) : Hearsay :=
  { received := fun peerId => (engine.link peerId).received
    hints := engine.hints }

/-- The reports of the entries of a message: those that pass validation,
clamped to the clock. -/
def tells (engine : PexEngine) (peerId : String) (nowSecs : Nat)
    (entries : List PeerEntry) : List Report :=
  (entries.filter fun entry =>
    engine.Keeps peerId nowSecs entry).map fun entry =>
      .tell peerId (entry.clamped nowSecs)

/-- The reports of an accepted message: its entries, then its dropped ids. -/
def messageReports (engine : PexEngine) (peerId : String) (nowSecs : Nat) :
    PexMessage → List Report
  | .pexSnapshot peers => engine.tells peerId nowSecs peers
  | .pexDelta added dropped =>
      engine.tells peerId nowSecs added ++ dropped.map (.withdraw peerId)
  | _ => []

/-- The report of a strike, if it mutes. -/
def strikeReports (engine : PexEngine) (peerId : String) : List Report :=
  if engine.strikeMutes peerId then [.silence peerId] else []

/-- What a call reports, in order. -/
def reportsOf (engine : PexEngine) : Call → List Report
  | .linkDown peerId => [.silence peerId]
  | .recordViolation peerId _ _ => engine.strikeReports peerId
  | .onMessage peerId message nowMs =>
      match (engine.link peerId).direction.judge engine.cfg.networkId message
        nowMs with
      | .ignored => []
      | .struck _ => engine.strikeReports peerId
      | .mismatched _ => [.silence peerId]
      | .accepted => engine.messageReports peerId (nowMs / 1000) message
  | _ => []

/-! ## One operation of the engine is one report -/

section Reports

variable (engine : PexEngine) (peerId : String)

theorem hearsay_setLink (link : LinkState) :
    (engine.setLink peerId link).hearsay =
      engine.hearsay.setReceived peerId link.received := by
  have received : (fun other =>
        ((engine.setLink peerId link).link other).received) =
      Function.update (fun other => (engine.link other).received) peerId
        link.received := by
    funext other
    rw [link_setLink]
    by_cases same : peerId = other
    · subst same
      simp
    · simp [same, Function.update_of_ne (Ne.symm same)]
  simp only [hearsay, Hearsay.setReceived, received, setLink_hints]

theorem setReceived_received (memory : Hearsay) :
    memory.setReceived peerId (memory.received peerId) = memory := by
  simp [Hearsay.setReceived]

theorem hearsay_setLink_of_received {link : LinkState}
    (received : link.received = (engine.link peerId).received) :
    (engine.setLink peerId link).hearsay = engine.hearsay := by
  rw [hearsay_setLink, received]
  exact setReceived_received peerId engine.hearsay

variable {engine peerId}

theorem hear_ingestEntry {nowSecs : Nat} {entry : PeerEntry}
    (kept : engine.Keeps peerId nowSecs entry) :
    let heard := Hearsay.hear engine.hearsay
      (.tell peerId (entry.clamped nowSecs))
    heard.1 = (ingestEntry peerId nowSecs engine entry).1.hearsay ∧
      heard.2.filterMap HintChange.surfaced =
        (ingestEntry peerId nowSecs engine entry).2.toList := by
  have fresher : engine.hearsay.isFresher (entry.clamped nowSecs) =
      engine.isFresher (entry.clamped nowSecs) := rfl
  have attributed := engine.hearsay_setLink peerId
    { engine.link peerId with
      received := FiniteMap.insertCapped id pexMaxReceivedPerLink
        (engine.link peerId).received (entry.clamped nowSecs).peerId
        (entry.clamped nowSecs).lastSeen }
  dsimp only
  rw [ingestEntry_of_keeps kept]
  unfold Hearsay.hear
  dsimp only
  rw [fresher]
  by_cases adopted : engine.isFresher (entry.clamped nowSecs) = true
  · rw [if_pos adopted, if_pos adopted]
    refine ⟨?_, rfl⟩
    have hints := FiniteMap.insertCapped_eq ReceivedHint.lastSeen
      pexMaxHints engine.hints (entry.clamped nowSecs).peerId
      { source := peerId
        lastSeen := (entry.clamped nowSecs).lastSeen }
    simp only [HintChange.apply, hearsay, adoptHint, attributeTo,
      setLink_hints, hints, Hearsay.mk.injEq, and_true]
    exact (congrArg Hearsay.received attributed).symm
  · rw [if_neg adopted, if_neg adopted]
    exact ⟨attributed.symm, rfl⟩

theorem tells_congr {after : PexEngine}
    (frame : IngestFrame peerId engine after) (nowSecs : Nat)
    (entries : List PeerEntry) :
    after.tells peerId nowSecs entries =
      engine.tells peerId nowSecs entries := by
  simp only [tells, frame.keeps_iff]

/-- Ingesting entries is telling their candidates in order. -/
theorem hear_ingestEntries (nowSecs : Nat) (entries : List PeerEntry) :
    let reports := engine.tells peerId nowSecs entries
    Hearsay.hear.final engine.hearsay reports =
        ((ingestEntry peerId nowSecs).final engine entries).hearsay ∧
      (Hearsay.hear.outputs engine.hearsay reports).flatten.filterMap
          HintChange.surfaced =
        ((ingestEntry peerId nowSecs).outputs engine
          entries).reduceOption := by
  induction entries generalizing engine with
  | nil => exact ⟨rfl, rfl⟩
  | cons entry entries induction =>
      have frame := ingestEntry_frame engine peerId nowSecs entry
      obtain ⟨final, surfaced⟩ := @induction
        (ingestEntry peerId nowSecs engine entry).1
      rw [tells_congr frame] at final surfaced
      by_cases kept : engine.Keeps peerId nowSecs entry
      · obtain ⟨told, adopted⟩ := hear_ingestEntry kept
        have reports : engine.tells peerId nowSecs (entry :: entries) =
            .tell peerId (entry.clamped nowSecs) ::
              engine.tells peerId nowSecs entries := by
          simp [tells, kept]
        simp only [reports, Machine.final_cons, Machine.outputs_cons, told,
          final, List.flatten_cons, List.filterMap_append, adopted, surfaced,
          true_and]
        cases (ingestEntry peerId nowSecs engine entry).2 <;> rfl
      · have reports : engine.tells peerId nowSecs (entry :: entries) =
            engine.tells peerId nowSecs entries := by
          simp [tells, kept]
        rw [ingestEntry_of_not_keeps kept] at final surfaced
        simp only [reports, Machine.final_cons, Machine.outputs_cons,
          ingestEntry_of_not_keeps kept]
        exact ⟨final, surfaced⟩

theorem hearsay_unlistSource (id : String) :
    (engine.unlistSource peerId id).hearsay =
      if engine.hints[id]?.any fun hint => hint.source = peerId then
        { engine.hearsay with hints := engine.hints.erase id }
      else
        engine.hearsay := by
  unfold unlistSource
  split <;> rfl

theorem hear_ingestDroppedId (id : String) :
    (Hearsay.hear engine.hearsay (.withdraw peerId id)).1 =
      (ingestDroppedId peerId engine id).1.hearsay := by
  have forgotten : (engine.forget peerId id).hearsay =
      engine.hearsay.setReceived peerId
        ((engine.link peerId).received.erase id) :=
    engine.hearsay_setLink peerId _
  by_cases told : id ∈ (engine.link peerId).received
  · rw [ingestDroppedId_of_told told, hearsay_unlistSource, forgotten]
    have contained : ((engine.hearsay.received peerId).contains id) =
        true := Std.ExtTreeMap.contains_iff_mem.mpr told
    unfold Hearsay.hear
    dsimp only
    rw [if_pos contained, apply_ite Prod.fst]
    rfl
  · have same : (engine.link peerId).received.erase id =
        (engine.link peerId).received := by
      apply Std.ExtTreeMap.ext_getElem?
      grind
    have untold : ¬((engine.hearsay.received peerId).contains id) = true :=
      mt Std.ExtTreeMap.contains_iff_mem.mp told
    have uncontained : ¬((engine.link peerId).received.contains id) = true :=
      untold
    unfold Hearsay.hear ingestDroppedId
    dsimp only
    rw [if_neg untold, if_neg uncontained,
      hearsay_setLink_of_received engine peerId same]

theorem hear_ingestDropped (dropped : List String) :
    Hearsay.hear.final engine.hearsay (dropped.map (.withdraw peerId)) =
      ((ingestDroppedId peerId).final engine dropped).hearsay := by
  induction dropped generalizing engine with
  | nil => rfl
  | cons id dropped induction =>
      rw [List.map_cons, Machine.final_cons, Machine.final_cons,
        hear_ingestDroppedId, induction]

theorem surfaced_withdrawals (memory : Hearsay) (dropped : List String) :
    (Hearsay.hear.outputs memory
        (dropped.map (.withdraw peerId))).flatten.filterMap
      HintChange.surfaced = [] := by
  induction dropped generalizing memory with
  | nil => rfl
  | cons id dropped induction =>
      have silent : (Hearsay.hear memory (.withdraw peerId id)).2.filterMap
          HintChange.surfaced = [] := by
        unfold Hearsay.hear
        dsimp only
        split
        · split <;> rfl
        · rfl
      rw [List.map_cons, Machine.outputs_cons, List.flatten_cons,
        List.filterMap_append, silent, induction, List.nil_append]

theorem surfaced_silence (memory : Hearsay) :
    (Hearsay.hear memory (.silence peerId)).2.filterMap
      HintChange.surfaced = [] := by
  simp only [Hearsay.hear, List.filterMap_map, List.filterMap_eq_nil_iff]
  intro id member
  rfl

/-- An accepted message is heard report by report, and surfaces the candidates
adopted. -/
theorem hear_accept (message : PexMessage) (nowMs : Nat) :
    let reports := engine.messageReports peerId (nowMs / 1000) message
    Hearsay.hear.final engine.hearsay reports =
        (engine.accept peerId message nowMs).1.hearsay ∧
      (Hearsay.hear.outputs engine.hearsay reports).flatten.filterMap
          HintChange.surfaced =
        (engine.accept peerId message nowMs).2.surfaced := by
  let advanced :=
    engine.setLink peerId ((engine.link peerId).advance message nowMs)
  have start : advanced.hearsay = engine.hearsay :=
    engine.hearsay_setLink_of_received peerId
      ((engine.link peerId).advance_kept message nowMs).1
  have tells : ∀ entries, advanced.tells peerId (nowMs / 1000) entries =
      engine.tells peerId (nowMs / 1000) entries := fun _ => rfl
  rw [surfaced_accept]
  cases message with
  | pexError code text => exact ⟨start.symm, rfl⟩
  | pexHandshake version networkId declared flags => exact ⟨start.symm, rfl⟩
  | pexSnapshot peers =>
      obtain ⟨final, surfaced⟩ :=
        @hear_ingestEntries advanced peerId (nowMs / 1000) peers
      rw [start, tells] at final surfaced
      exact ⟨final, surfaced⟩
  | pexDelta added dropped =>
      obtain ⟨final, surfaced⟩ :=
        @hear_ingestEntries advanced peerId (nowMs / 1000) added
      rw [start, tells] at final surfaced
      simp only [messageReports, Machine.final_append,
        Machine.outputs_append, List.flatten_append, List.filterMap_append,
        final, surfaced, hear_ingestDropped, surfaced_withdrawals,
        List.append_nil]
      exact ⟨rfl, rfl⟩

theorem hear_mute (strikes : Nat) :
    (Hearsay.hear engine.hearsay (.silence peerId)).1 =
      (engine.penalize peerId strikes true).hearsay := by
  have written := engine.hearsay_setLink peerId
    { engine.link peerId with
      strikes := (engine.link peerId).strikes + strikes
      muted := (engine.link peerId).muted || true
      received := ∅ }
  simp only [Hearsay.hear, hearsay, Hearsay.mk.injEq]
  exact ⟨(congrArg Hearsay.received written).symm, rfl⟩

theorem hear_strike :
    Hearsay.hear.final engine.hearsay (engine.strikeReports peerId) =
      (engine.penalize peerId 1 (engine.strikeMutes peerId)).hearsay := by
  cases mutes : engine.strikeMutes peerId with
  | true =>
      simp only [strikeReports, mutes, if_true, Machine.final_cons,
        Machine.final_nil, hear_mute 1]
  | false =>
      simp only [strikeReports, mutes, Bool.false_eq_true, if_false,
        Machine.final_nil]
      have kept : (engine.setLink peerId
          { engine.link peerId with
            strikes := (engine.link peerId).strikes + 1
            muted := (engine.link peerId).muted || false }).hearsay =
              engine.hearsay :=
        hearsay_setLink_of_received engine peerId rfl
      exact kept.symm

theorem surfaced_strike (engine : PexEngine) (memory : Hearsay) :
    (Hearsay.hear.outputs memory
        (engine.strikeReports peerId)).flatten.filterMap
      HintChange.surfaced = [] := by
  unfold strikeReports
  split
  · simp [surfaced_silence]
  · rfl

theorem hear_linkDown :
    (Hearsay.hear engine.hearsay (.silence peerId)).1 =
      (engine.linkDown peerId).hearsay := by
  have received : Function.update
        (fun other => (engine.link other).received) peerId ∅ =
      fun other => ((engine.linkDown peerId).link other).received := by
    funext other
    rw [link_linkDown]
    by_cases same : peerId = other
    · subst same
      simp [LinkState.new]
    · simp [same, Function.update_of_ne (Ne.symm same)]
  simp only [Hearsay.hear, hearsay, Hearsay.setReceived, Hearsay.mk.injEq]
  exact ⟨received, rfl⟩

end Reports

end PexEngine

/-- The entries a response surfaces. -/
def Response.surfaced : Response → List PeerEntry
  | .outcome answer => answer.surfaced
  | _ => []

variable [DefaultHasher]

/-- Every public call is heard report by report: its reports change the memory
as the call does, and the candidates they adopt are those the call surfaces,
in order. -/
theorem hear_engineStep (engine : PexEngine) (call : Call) :
    let reports := engine.reportsOf call
    Hearsay.hear.final engine.hearsay reports =
        (engineStep engine call).1.hearsay ∧
      (Hearsay.hear.outputs engine.hearsay reports).flatten.filterMap
          HintChange.surfaced =
        (engineStep engine call).2.surfaced := by
  have quiet : engine.reportsOf call = [] →
      (∀ id : String, ((engineStep engine call).1.link id).received =
        (engine.link id).received) →
      (engineStep engine call).1.hints = engine.hints →
      Hearsay.hear.final engine.hearsay (engine.reportsOf call) =
        (engineStep engine call).1.hearsay := by
    intro silent received hints
    have maps : (fun id => (engine.link id).received) =
        fun id => ((engineStep engine call).1.link id).received :=
      funext fun id => (received id).symm
    simp only [silent, Machine.final_nil, PexEngine.hearsay, hints, maps]
  cases call with
  | upsertKnown entry =>
      exact ⟨quiet rfl (fun id => received_engineStep rfl engine)
        (PexEngine.hints_upsertKnown engine entry), rfl⟩
  | removeKnown id =>
      exact ⟨quiet rfl (fun id => received_engineStep rfl engine) rfl, rfl⟩
  | linkUp opened nowMs order jitter =>
      exact ⟨quiet rfl (fun id => received_engineStep rfl engine)
        (PexEngine.linkUp_frame engine opened nowMs order jitter).hints, rfl⟩
  | tick nowMs orders jitter =>
      exact ⟨quiet rfl (fun id => received_engineStep rfl engine)
        (PexEngine.tick_frame nowMs orders jitter engine).hints, rfl⟩
  | linkDown closed =>
      refine ⟨PexEngine.hear_linkDown, ?_⟩
      simp [PexEngine.reportsOf, PexEngine.surfaced_silence, engineStep,
        Response.surfaced]
  | recordViolation source code nowMs =>
      simp only [engineStep, PexEngine.recordViolation_eq,
        PexEngine.reportsOf]
      exact ⟨PexEngine.hear_strike, PexEngine.surfaced_strike _ _⟩
  | onMessage source message nowMs =>
      simp only [engineStep, PexEngine.onMessage_eq, PexEngine.reportsOf]
      cases (engine.link source).direction.judge engine.cfg.networkId
        message nowMs with
      | ignored =>
          exact ⟨(engine.hearsay_setLink_of_received source rfl).symm, rfl⟩
      | accepted => exact PexEngine.hear_accept message nowMs
      | struck code =>
          exact ⟨PexEngine.hear_strike, PexEngine.surfaced_strike _ _⟩
      | mismatched code =>
          refine ⟨PexEngine.hear_mute 0, ?_⟩
          simp [PexEngine.surfaced_silence, PexEngine.conclude,
            PexEngine.violationOutcome, Response.surfaced, PexOutcome.surfaced,
            PexEvent.surfaced]

/-- What a run reports, in order. -/
def heard (cfg : PexConfig) (calls : List Call) : List Report :=
  ((engineStep.observed PexEngine.reportsOf).outputs (PexEngine.new cfg)
    calls).flatten

theorem heard_concat (cfg : PexConfig) (calls : List Call) (call : Call) :
    heard cfg (calls ++ [call]) = heard cfg calls ++
      (engineStep.final (PexEngine.new cfg) calls).reportsOf call := by
  rw [heard, Machine.outputs_observed_concat, List.flatten_concat]
  rfl

/-- The memory of a reachable engine is what its run reported. -/
theorem hear_heard (cfg : PexConfig) (calls : List Call) :
    Hearsay.hear.final Hearsay.empty (heard cfg calls) =
      (engineStep.final (PexEngine.new cfg) calls).hearsay := by
  induction calls using List.reverseRecOn with
  | nil =>
      simp only [heard, Machine.final_nil, PexEngine.hearsay,
        PexEngine.link_new]
      rfl
  | append_singleton calls call induction =>
      rw [heard_concat, Machine.final_append, induction,
        Machine.final_concat, (hear_engineStep _ call).1]

end DigPex
