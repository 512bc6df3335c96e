import DigPex.ToldState

/-!
# What others say never reaches what we advertise

`PexEngine.sending` erases from an engine everything that inbound entries
write: what each link told us and the hints.  The emitting calls commute with
this erasure, and a message acts on what is left by its kind and verdict
alone.
-/

namespace DigPex

/-- A link record without what the partner told us. -/
def LinkState.sending (link : LinkState) : LinkState :=
  { link with received := ∅ }

namespace PexEngine

/-- An engine without what others told it. -/
def sending (engine : PexEngine) : PexEngine :=
  { engine with
    links := engine.links.map fun _ link => link.sending
    hints := ∅ }

section Erasure

variable (engine : PexEngine) (peerId : String)

@[simp] theorem getElem?_sending :
    engine.sending.links[peerId]? =
      (engine.links[peerId]?).map LinkState.sending := by
  simp [sending]

@[simp] theorem keys_sending :
    engine.sending.links.keys = engine.links.keys := by
  simp [sending]

@[simp] theorem link_sending :
    engine.sending.link peerId = (engine.link peerId).sending := by
  rw [link_eq_getD, link_eq_getD, getElem?_sending]
  cases engine.links[peerId]? <;> rfl

@[simp] theorem sending_cfg : engine.sending.cfg = engine.cfg :=
  rfl

theorem sending_congr {left right : PexEngine} (cfg : left.cfg = right.cfg)
    (known : left.known = right.known)
    (knownEpoch : left.knownEpoch = right.knownEpoch)
    (cache : left.advertisableCache = right.advertisableCache)
    (links : ∀ id : String, (left.links[id]?).map LinkState.sending =
      (right.links[id]?).map LinkState.sending) :
    left.sending = right.sending := by
  have maps : left.sending.links = right.sending.links := by
    apply Std.ExtTreeMap.ext_getElem?
    intro id
    rw [getElem?_sending, getElem?_sending, links]
  simp only [sending] at maps ⊢
  rw [cfg, known, knownEpoch, cache, maps]

theorem sending_setLink (link : LinkState) :
    (engine.setLink peerId link).sending =
      engine.sending.setLink peerId link.sending := by
  have maps : (engine.setLink peerId link).sending.links =
      (engine.sending.setLink peerId link.sending).links := by
    apply Std.ExtTreeMap.ext_getElem?
    intro id
    rw [getElem?_sending, getElem?_setLink, getElem?_setLink,
      getElem?_sending]
    split <;> rfl
  simp only [sending, setLink] at maps ⊢
  rw [maps]

theorem advertisableCached_sending (order : IterationOrder String)
    (nowSecs : Nat) :
    engine.sending.advertisableCached order nowSecs =
      ((engine.advertisableCached order nowSecs).1,
        (engine.advertisableCached order nowSecs).2.sending) := by
  have known : engine.sending.known = engine.known := rfl
  have knownEpoch : engine.sending.knownEpoch = engine.knownEpoch := rfl
  have cache : engine.sending.advertisableCache =
      engine.advertisableCache := rfl
  have list : (engine.sending.advertisableCached order nowSecs).1 =
      (engine.advertisableCached order nowSecs).1 :=
    advertisableCached_fst_congr (sending_cfg engine) known knownEpoch cache
      order nowSecs
  refine Prod.ext list ?_
  rw [advertisableCached_snd, advertisableCached_snd, list]
  rfl

theorem sending_of_ingestFrame {before after : PexEngine} {peerId : String}
    (present : peerId ∈ before.links)
    (frame : IngestFrame peerId before after) :
    after.sending = before.sending := by
  apply sending_congr frame.cfg frame.known frame.knownEpoch frame.cache
  intro id
  by_cases same : id = peerId
  · subst same
    obtain ⟨received, own⟩ := frame.own
    rw [getElem?_eq_some_link (frame.present present),
      getElem?_eq_some_link present, own]
    rfl
  · rw [frame.others id same]

end Erasure

section Sending

variable [DefaultHasher] (engine : PexEngine)

theorem deltaFields_sending (link : LinkState) :
    link.sending.snapshotSent = link.snapshotSent ∧
      (∀ nowMs, link.sending.sendDue nowMs = link.sendDue nowMs) ∧
      link.sending.selfIntervalSecs = link.selfIntervalSecs ∧
      link.sending.remoteDeclaredSecs = link.remoteDeclaredSecs ∧
      ∀ order advertisable, link.sending.deltaAgainst order advertisable =
        link.deltaAgainst order advertisable :=
  ⟨rfl, fun _ => rfl, rfl, rfl, fun _ _ => rfl⟩

theorem linkUp_sending (peerId : String) (nowMs : Nat)
    (order : IterationOrder String) (jitter : Jitter) :
    engine.sending.linkUp peerId nowMs order jitter =
      ((engine.linkUp peerId nowMs order jitter).1.sending,
        (engine.linkUp peerId nowMs order jitter).2) := by
  simp only [linkUp, advertisableFor, advertisableCached_sending,
    link_sending, sending_setLink, sending_cfg]
  rfl

theorem buildDelta_sending (knownOrder toldOrder : IterationOrder String)
    (peerId : String) (nowSecs : Nat) :
    engine.sending.buildDelta knownOrder toldOrder peerId nowSecs =
      ((engine.buildDelta knownOrder toldOrder peerId nowSecs).1,
        (engine.buildDelta knownOrder toldOrder peerId
          nowSecs).2.sending) := by
  simp only [buildDelta, advertisableFor, advertisableCached_sending,
    link_sending, deltaFields_sending]

theorem tickLink_sending (nowMs : Nat) (orders : TickOrders)
    (jitter : String → Jitter) (peerId : String) :
    tickLink nowMs orders jitter engine.sending peerId =
      ((tickLink nowMs orders jitter engine peerId).1.sending,
        (tickLink nowMs orders jitter engine peerId).2) := by
  unfold tickLink
  simp only [buildDelta_sending, link_sending, sending_cfg,
    deltaFields_sending]
  by_cases skip : (!(engine.link peerId).snapshotSent ||
      !(engine.link peerId).sendDue nowMs) = true
  · rw [if_pos skip, if_pos skip]
  · rw [if_neg skip, if_neg skip]
    by_cases empty :
        ((engine.buildDelta orders.known (orders.told peerId) peerId
            (nowMs / 1000)).1.1.isEmpty &&
          (engine.buildDelta orders.known (orders.told peerId) peerId
            (nowMs / 1000)).1.2.isEmpty) = true
    · rw [if_pos empty, if_pos empty]
    · rw [if_neg empty, if_neg empty, sending_setLink]
      rfl

theorem tick_sending (nowMs : Nat) (orders : TickOrders)
    (jitter : String → Jitter) :
    engine.sending.tick nowMs orders jitter =
      ((engine.tick nowMs orders jitter).1.sending,
        (engine.tick nowMs orders jitter).2) := by
  obtain ⟨final, outputs⟩ := Machine.final_erased
    (tickLink nowMs orders jitter)
    (fun state peerId => tickLink_sending state nowMs orders jitter peerId)
    engine (orders.links.arrange engine.links.keys)
  simp only [tick, keys_sending, final, outputs]

end Sending

theorem upsertKnown_sending (engine : PexEngine) (entry : PeerEntry) :
    (engine.upsertKnown entry).sending =
      engine.sending.upsertKnown entry := by
  unfold upsertKnown
  split
  · rename_i selfId
    rw [sending_cfg, if_pos selfId]
  · rename_i other
    rw [sending_cfg, if_neg other]
    rfl

theorem removeKnown_sending (engine : PexEngine) (id : String) :
    (engine.removeKnown id).sending = engine.sending.removeKnown id :=
  rfl

theorem linkDown_sending (engine : PexEngine) (peerId : String) :
    (engine.linkDown peerId).sending = engine.sending.linkDown peerId := by
  have links : (engine.linkDown peerId).sending.links =
      (engine.sending.linkDown peerId).links := by
    apply Std.ExtTreeMap.ext_getElem?
    intro id
    rw [getElem?_sending]
    simp only [linkDown, sending, Std.ExtTreeMap.getElem?_erase,
      Std.ExtTreeMap.getElem?_map]
    split <;> rfl
  have hints : (engine.sending.linkDown peerId).hints = ∅ := by
    apply Std.ExtTreeMap.ext_getElem?
    simp [linkDown, sending, Std.ExtTreeMap.getElem?_filter]
  have parts : (engine.sending.linkDown peerId) =
      { engine.sending.linkDown peerId with
        links := (engine.linkDown peerId).sending.links
        hints := ∅ } := by
    rw [links, ← hints]
  rw [parts]
  rfl

section Receiving

/-- Two messages that agree on all but the contents of data messages. -/
inductive AlikeMessages : PexMessage → PexMessage → Prop
  | refl (message) : AlikeMessages message message
  | snapshot (left right) :
      AlikeMessages (.pexSnapshot left) (.pexSnapshot right)
  | delta (leftAdded leftDropped rightAdded rightDropped) :
      AlikeMessages (.pexDelta leftAdded leftDropped)
        (.pexDelta rightAdded rightDropped)

theorem advance_sending (link : LinkState) {left right : PexMessage}
    (alike : AlikeMessages left right) (nowMs : Nat) :
    (link.advance left nowMs).sending = link.sending.advance right nowMs := by
  cases alike with
  | refl =>
      cases left with
      | pexError code text =>
          have same : link.sending.backsOff code nowMs =
              link.backsOff code nowMs := rfl
          simp only [LinkState.advance, same]
          split <;> rfl
      | _ => rfl
  | snapshot => rfl
  | delta => rfl

theorem sending_accept (engine : PexEngine) (peerId : String)
    {left right : PexMessage} (alike : AlikeMessages left right)
    (nowMs : Nat) :
    (engine.accept peerId left nowMs).1.sending =
      engine.sending.setLink peerId
        ((engine.sending.link peerId).advance right nowMs) := by
  rw [sending_of_ingestFrame (by simp)
    (accept_frame engine peerId left nowMs), sending_setLink,
    advance_sending _ alike, link_sending]

theorem sending_penalize (engine : PexEngine) (peerId : String)
    (strikes : Nat) (mute : Bool) :
    (engine.penalize peerId strikes mute).sending =
      engine.sending.setLink peerId
        { engine.sending.link peerId with
          strikes := (engine.sending.link peerId).strikes + strikes
          muted := (engine.sending.link peerId).muted || mute } := by
  rw [link_sending]
  exact sending_setLink engine peerId _

/-- The consequence of one verdict on two alike messages differs only in what
others told. -/
theorem sending_conclude {left right : PexEngine}
    (same : left.sending = right.sending) (peerId : String)
    {leftMessage rightMessage : PexMessage}
    (alike : AlikeMessages leftMessage rightMessage) (nowMs : Nat)
    (verdict : Verdict) :
    (left.conclude peerId leftMessage nowMs verdict).1.sending =
      (right.conclude peerId rightMessage nowMs verdict).1.sending := by
  have link : (left.link peerId).sending = (right.link peerId).sending := by
    rw [← link_sending, ← link_sending, same]
  have strikeMutes : left.strikeMutes peerId = right.strikeMutes peerId :=
    congrArg Direction.strikeMutes
      (congrArg LinkState.direction link :
        (left.link peerId).sending.direction = _)
  cases verdict with
  | ignored =>
      simp only [conclude, ensureLink, sending_setLink, same, link]
  | accepted =>
      simp only [conclude]
      rw [sending_accept left peerId alike,
        sending_accept right peerId (.refl rightMessage), same]
  | struck code =>
      simp only [conclude, sending_penalize, same, strikeMutes]
  | mismatched code => simp only [conclude, sending_penalize, same]

end Receiving

end PexEngine

/-- The codes of the violations an outcome reports. -/
def PexOutcome.violations (outcome : PexOutcome) : List Nat :=
  outcome.events.filterMap fun event =>
    match event with
    | .violation code _ => some code
    | _ => none

/-- The codes of a verdict. -/
def Verdict.codes : Verdict → List Nat
  | .ignored | .accepted => []
  | .struck code | .mismatched code => [code.asU16]

namespace PexEngine

theorem violations_onMessage (engine : PexEngine) (peerId : String)
    (message : PexMessage) (nowMs : Nat) :
    (engine.onMessage peerId message nowMs).2.violations =
      ((engine.link peerId).direction.judge engine.cfg.networkId message
        nowMs).codes := by
  have answers := engine.answers_judge peerId message nowMs
  cases verdict : (engine.link peerId).direction.judge engine.cfg.networkId
      message nowMs with
  | ignored =>
      rw [verdict] at answers
      rw [answers.2]
      rfl
  | accepted =>
      rw [verdict] at answers
      apply List.filterMap_eq_nil_iff.mpr
      intro event member
      cases event with
      | violation code mute =>
          exact absurd member (answers.2.2.1 code mute)
      | _ => rfl
  | struck code =>
      rw [verdict] at answers
      rw [answers.2.1]
      rfl
  | mismatched code =>
      rw [verdict] at answers
      rw [answers.2.1]
      rfl

/-- Verdicts other than mismatches are determined by their codes and by
whether the message is ignored. -/
theorem verdict_eq_of_codes {left right : Verdict}
    (leftMatched : ∀ code, left ≠ .mismatched code)
    (rightMatched : ∀ code, right ≠ .mismatched code)
    (ignored : left = .ignored ↔ right = .ignored)
    (codes : left.codes = right.codes) : left = right := by
  cases left with
  | mismatched code => exact absurd rfl (leftMatched code)
  | ignored => exact (ignored.mp rfl).symm
  | accepted =>
      cases right with
      | accepted => rfl
      | ignored => exact ignored.mpr rfl
      | struck code => cases codes
      | mismatched code => cases codes
  | struck leftCode =>
      cases right with
      | accepted => cases codes
      | ignored => cases codes
      | mismatched code => exact absurd rfl (rightMatched code)
      | struck rightCode =>
          rw [PexErrorCode.asU16_injective (List.singleton_inj.mp codes)]

theorem judge_alike (direction : Direction) (network : String)
    {left right : PexMessage} (alike : AlikeMessages left right) (nowMs : Nat)
    (codes : (direction.judge network left nowMs).codes =
      (direction.judge network right nowMs).codes) :
    direction.judge network left nowMs =
      direction.judge network right nowMs := by
  have ignored : direction.judge network left nowMs = .ignored ↔
      direction.judge network right nowMs = .ignored := by
    rw [Direction.judge_eq_ignored_iff, Direction.judge_eq_ignored_iff]
  have snapshotMatched : ∀ peers code,
      direction.judge network (.pexSnapshot peers) nowMs ≠
        .mismatched code := by
    intro peers code
    unfold Direction.judge
    dsimp only
    split_ifs <;> simp
  have deltaMatched : ∀ added dropped code,
      direction.judge network (.pexDelta added dropped) nowMs ≠
        .mismatched code := by
    intro added dropped code
    unfold Direction.judge
    dsimp only
    split_ifs <;> simp
  cases alike with
  | refl => rfl
  | snapshot left right =>
      exact verdict_eq_of_codes (snapshotMatched left) (snapshotMatched right)
        ignored codes
  | delta leftAdded leftDropped rightAdded rightDropped =>
      exact verdict_eq_of_codes (deltaMatched leftAdded leftDropped)
        (deltaMatched rightAdded rightDropped) ignored codes

end PexEngine

/-- Two events that agree on all but the contents of inbound data messages,
and in which the two deliveries are accepted, or rejected with the same
code. -/
inductive SameButContents : Call × Response → Call × Response → Prop
  | same (call left right) : SameButContents (call, left) (call, right)
  | delivered {peerId leftMessage rightMessage nowMs left right}
      (alike : PexEngine.AlikeMessages leftMessage rightMessage)
      (verdict : left.violations = right.violations) :
      SameButContents
        (.onMessage peerId leftMessage nowMs, .outcome left)
        (.onMessage peerId rightMessage nowMs, .outcome right)

variable [DefaultHasher]

/-- Matching events keep two engines the same for sending, and return the same
messages. -/
theorem sending_engineStep {left right : PexEngine}
    (same : left.sending = right.sending) {leftCall rightCall : Call}
    (matching : SameButContents
      (leftCall, (engineStep left leftCall).2)
      (rightCall, (engineStep right rightCall).2)) :
    (engineStep left leftCall).1.sending =
        (engineStep right rightCall).1.sending ∧
      emitted (leftCall, (engineStep left leftCall).2) =
        emitted (rightCall, (engineStep right rightCall).2) := by
  have link : ∀ id : String,
      (left.link id).sending = (right.link id).sending := by
    intro id
    rw [← PexEngine.link_sending, ← PexEngine.link_sending, same]
  have direction : ∀ id : String,
      (left.link id).direction = (right.link id).direction := by
    intro id
    exact (congrArg LinkState.direction (link id) :
      (left.link id).sending.direction = _)
  have cfg : left.cfg = right.cfg :=
    (congrArg PexEngine.cfg same : left.sending.cfg = _)
  have deliver : ∀ peerId leftMessage rightMessage nowMs,
      PexEngine.AlikeMessages leftMessage rightMessage →
      (left.onMessage peerId leftMessage nowMs).2.violations =
        (right.onMessage peerId rightMessage nowMs).2.violations →
      (left.onMessage peerId leftMessage nowMs).1.sending =
        (right.onMessage peerId rightMessage nowMs).1.sending := by
    intro peerId leftMessage rightMessage nowMs alike violations
    rw [PexEngine.violations_onMessage, PexEngine.violations_onMessage,
      direction, cfg] at violations
    rw [PexEngine.onMessage_eq, PexEngine.onMessage_eq, direction, cfg,
      PexEngine.judge_alike _ _ alike nowMs violations]
    exact PexEngine.sending_conclude same peerId alike nowMs _
  cases matching with
  | delivered alike verdict => exact ⟨deliver _ _ _ _ alike verdict, rfl⟩
  | same call =>
      cases leftCall with
      | upsertKnown entry =>
          refine ⟨?_, rfl⟩
          simp only [engineStep, PexEngine.upsertKnown_sending, same]
      | removeKnown id =>
          refine ⟨?_, rfl⟩
          simp only [engineStep, PexEngine.removeKnown_sending, same]
      | linkUp opened nowMs order jitter =>
          have leftOpened := left.linkUp_sending opened nowMs order jitter
          have rightOpened := right.linkUp_sending opened nowMs order jitter
          rw [same, rightOpened] at leftOpened
          obtain ⟨states, messages⟩ := Prod.mk.inj leftOpened
          refine ⟨states.symm, ?_⟩
          simp only [engineStep, emitted, messages]
      | linkDown closed =>
          refine ⟨?_, rfl⟩
          simp only [engineStep, PexEngine.linkDown_sending, same]
      | onMessage source message nowMs =>
          refine ⟨deliver source message message nowMs (.refl message) ?_,
            rfl⟩
          rw [PexEngine.violations_onMessage, PexEngine.violations_onMessage,
            direction, cfg]
      | recordViolation source code nowMs =>
          have strikeMutes :
              left.strikeMutes source = right.strikeMutes source :=
            congrArg Direction.strikeMutes (direction source)
          refine ⟨?_, rfl⟩
          simp only [engineStep, PexEngine.recordViolation_eq,
            PexEngine.sending_penalize, same, strikeMutes]
      | tick nowMs orders jitter =>
          have leftTicked := left.tick_sending nowMs orders jitter
          have rightTicked := right.tick_sending nowMs orders jitter
          rw [same, rightTicked] at leftTicked
          obtain ⟨states, messages⟩ := Prod.mk.inj leftTicked
          refine ⟨states.symm, ?_⟩
          simp only [engineStep, emitted, messages]

/-- Nothing others say is advertised.  With fewer than `2 ^ 64` changes of the
first-hand set, every entry a call returns in a message is the last upsert of
its id, and the id was not removed since; and two runs that agree on all but
the contents of inbound data messages, each accepted or rejected alike, return
the same messages from `link_up` and `tick` at every step. -/
theorem no_regossip (cfg : PexConfig) :
    (∀ (calls : List Call) (call : Call) (peerId : String)
      (message : PexMessage) (entry : PeerEntry),
      knownChanges cfg.localPeerId calls < 2 ^ 64 →
        (peerId, message) ∈ emitted (call,
          (engineStep (engineStep.final (PexEngine.new cfg) calls)
            call).2) →
        entry ∈ message.entries →
          ∃ earlier later, calls = earlier ++ .upsertKnown entry :: later ∧
            ∀ later' ∈ later, ¬later'.writes entry.peerId) ∧
      ∀ left right : List Call,
        List.Forall₂ SameButContents
            (engineStep.trace (PexEngine.new cfg) left)
            (engineStep.trace (PexEngine.new cfg) right) →
          (engineStep.trace (PexEngine.new cfg) left).map emitted =
            (engineStep.trace (PexEngine.new cfg) right).map emitted := by
  constructor
  · intro calls call peerId message entry few returned carried
    have current := cacheCurrent_final cfg calls few
    have member : message ∈ messagesFor peerId (call,
        (engineStep (engineStep.final (PexEngine.new cfg) calls)
          call).2) :=
      List.mem_filterMap.mpr ⟨_, returned, by simp⟩
    obtain ⟨_, listed⟩ := mem_advertisableFor_of_messagesFor member carried
    have advertisable := (mem_advertisableFor_iff current).mp listed
    obtain ⟨earlier, later, split, _, quiet⟩ :=
      known_lastUpsert cfg calls advertisable.current
    exact ⟨earlier, later, split, quiet⟩
  · intro left right matching
    obtain ⟨_, equal⟩ := engineStep.lockstep
      (fun left right => left.sending = right.sending) SameButContents
      (fun left right => emitted left = emitted right)
      (fun _ _ _ _ same matching => sending_engineStep same matching)
      rfl matching
    rw [← List.forall₂_eq_eq_eq, List.forall₂_map_left_iff,
      List.forall₂_map_right_iff]
    exact equal

omit [DefaultHasher] in
/-- Two runs in which the partner says different things, and the snapshot of
our own entry they both emit. -/
theorem no_regossip_snapshot :
    let opening (peers : List PeerEntry) : List Call :=
      [.upsertKnown (exampleEntry 'c' 1000 9444),
        .onMessage (exampleId 'b') (.pexHandshake 1 "network" 60 []) 1000000,
        .onMessage (exampleId 'b') (.pexSnapshot peers) 1000000]
    let calls := opening [exampleEntry 'd' 1000 9444] ++
      [.linkUp (exampleId 'b') 1000000 .ascending .zero]
    let others := opening [] ++
      [.linkUp (exampleId 'b') 1000000 .ascending .zero]
    let start := PexEngine.new (exampleConfig (exampleId 'a'))
    (∃ earlier later, opening [] =
        earlier ++ .upsertKnown (exampleEntry 'c' 1000 9444) :: later ∧
          ∀ call ∈ later, ¬call.writes (exampleId 'c')) ∧
      ((@engineStep sipHasher).trace start calls).map emitted =
        ((@engineStep sipHasher).trace start others).map emitted := by
  intro opening calls others start
  obtain ⟨upserted, alike⟩ :=
    @no_regossip sipHasher (exampleConfig (exampleId 'a'))
  refine ⟨?_, alike calls others ?_⟩
  · exact upserted (opening [])
      (.linkUp (exampleId 'b') 1000000 .ascending .zero) (exampleId 'b')
      (.pexSnapshot [exampleEntry 'c' 1000 9444])
      (exampleEntry 'c' 1000 9444) (by decide +kernel) (by decide +kernel)
      (by simp [PexMessage.entries])
  · exact .cons (.same _ _ _) (.cons (.same _ _ _)
      (.cons (.delivered (.snapshot _ _) (by decide +kernel))
        (.cons (.same _ _ _) .nil)))

end DigPex
