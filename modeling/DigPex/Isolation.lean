import DigPex.Sending
import DigPex.Uncached

/-!
# Links do not see each other

What one link depends on is its own record, the configuration and the
first-hand set.  Calls about other links leave these alone, so two runs that
agree on everything else are alike on the link: its record, the messages
returned for it, and the answers to what it says, up to the candidates
surfaced.
-/

namespace DigPex

/-- Whether a call may concern a link: every call but those about another
link. -/
def Call.concerns (peerId : String) : Call → Bool
  | .upsertKnown _ | .removeKnown _ | .tick _ _ _ => true
  | .linkUp other _ _ _ | .linkDown other | .onMessage other _ _
  | .recordViolation other _ _ => other = peerId

def PexEvent.isCandidates : PexEvent → Bool
  | .candidates _ => true
  | _ => false

/-- An outcome up to which entries were surfaced. -/
def PexOutcome.withoutCandidates (outcome : PexOutcome) : PexOutcome :=
  { outcome with
    events := outcome.events.filter fun event => !event.isCandidates }

/-- What an event shows on a link: the messages returned for it and the answer
to what came in on it. -/
def shownOn (peerId : String) (event : Call × Response) :
    List PexMessage × Option PexOutcome :=
  (messagesFor peerId event,
    match event with
    | (.onMessage source _ _, .outcome outcome)
    | (.recordViolation source _ _, .outcome outcome) =>
        if source = peerId then some outcome.withoutCandidates else none
    | _ => none)

namespace PexEngine

/-- All that a link depends on. -/
def linkView (peerId : String) (engine : PexEngine) :
    PexConfig × KnownSet × Option LinkState :=
  (engine.cfg, engine.known, engine.links[peerId]?)

/-- The part of a view that receiving depends on. -/
def receivingView (peerId : String) (engine : PexEngine) :
    PexConfig × Option LinkState :=
  (engine.cfg, engine.links[peerId]?)

section Receiving

variable {left right : PexEngine} {peerId : String}

theorem link_of_receivingView
    (same : left.receivingView peerId = right.receivingView peerId) :
    left.cfg = right.cfg ∧ left.link peerId = right.link peerId := by
  obtain ⟨cfg, lookup⟩ := Prod.mk.inj same
  exact ⟨cfg, link_congr lookup cfg⟩

theorem receivingView_setLink (cfg : left.cfg = right.cfg)
    (link : LinkState) :
    (left.setLink peerId link).receivingView peerId =
      (right.setLink peerId link).receivingView peerId := by
  simp only [receivingView, getElem?_setLink, setLink_cfg, cfg, if_true]

theorem receivingView_ingestEntry (engine : PexEngine) (nowSecs : Nat)
    (entry : PeerEntry) :
    (ingestEntry peerId nowSecs engine entry).1.receivingView peerId =
      if engine.Keeps peerId nowSecs entry then
        (engine.attributeTo peerId
          (entry.clamped nowSecs)).receivingView peerId
      else
        engine.receivingView peerId := by
  by_cases kept : engine.Keeps peerId nowSecs entry
  · rw [ingestEntry_of_keeps kept, if_pos kept]
    split <;> rfl
  · rw [ingestEntry_of_not_keeps kept, if_neg kept]

theorem ingestEntry_alike (nowSecs : Nat) (entry : PeerEntry)
    (same : left.receivingView peerId = right.receivingView peerId) :
    (ingestEntry peerId nowSecs left entry).1.receivingView peerId =
      (ingestEntry peerId nowSecs right entry).1.receivingView peerId := by
  obtain ⟨cfg, link⟩ := link_of_receivingView same
  have keeps : left.Keeps peerId nowSecs entry ↔
      right.Keeps peerId nowSecs entry := by
    simp [Keeps, validateCtx, cfg]
  rw [receivingView_ingestEntry, receivingView_ingestEntry]
  by_cases kept : left.Keeps peerId nowSecs entry
  · rw [if_pos kept, if_pos (keeps.mp kept), attributeTo, attributeTo, link]
    exact receivingView_setLink cfg _
  · rw [if_neg kept, if_neg (mt keeps.mpr kept)]
    exact same

theorem receivingView_unlistSource (engine : PexEngine) (id : String) :
    (engine.unlistSource peerId id).receivingView peerId =
      engine.receivingView peerId := by
  unfold unlistSource
  split <;> rfl

theorem ingestDroppedId_alike (id : String)
    (same : left.receivingView peerId = right.receivingView peerId) :
    (ingestDroppedId peerId left id).1.receivingView peerId =
        (ingestDroppedId peerId right id).1.receivingView peerId ∧
      (ingestDroppedId peerId left id).2 =
        (ingestDroppedId peerId right id).2 := by
  obtain ⟨cfg, link⟩ := link_of_receivingView same
  unfold ingestDroppedId
  dsimp only
  rw [link]
  split
  · rw [receivingView_unlistSource, receivingView_unlistSource]
    exact ⟨receivingView_setLink cfg _, rfl⟩
  · exact ⟨receivingView_setLink cfg _, rfl⟩

theorem ingestAdded_alike (entries : List PeerEntry) (nowMs : Nat)
    (same : left.receivingView peerId = right.receivingView peerId) :
    (left.ingestAdded peerId entries nowMs).1.receivingView peerId =
        (right.ingestAdded peerId entries nowMs).1.receivingView peerId ∧
      (left.ingestAdded peerId entries nowMs).2.withoutCandidates = {} ∧
      (right.ingestAdded peerId entries nowMs).2.withoutCandidates = {} := by
  have surfacing : ∀ engine : PexEngine,
      (engine.ingestAdded peerId entries nowMs).2.withoutCandidates = {} := by
    intro engine
    simp only [ingestAdded]
    split <;> simp [PexOutcome.withoutCandidates, PexEvent.isCandidates]
  refine ⟨?_, surfacing left, surfacing right⟩
  exact (@Machine.determined_run _ _ _ (ingestEntry peerId (nowMs / 1000))
    _ Unit (receivingView peerId) (fun _ => ())
    (fun _ _ entry same => ⟨ingestEntry_alike _ entry same, rfl⟩)
    _ _ same entries).1

theorem ingestDropped_alike (dropped : List String)
    (same : left.receivingView peerId = right.receivingView peerId) :
    (left.ingestDropped peerId dropped).1.receivingView peerId =
        (right.ingestDropped peerId dropped).1.receivingView peerId ∧
      (left.ingestDropped peerId dropped).2 =
        (right.ingestDropped peerId dropped).2 := by
  obtain ⟨final, outputs⟩ := @Machine.determined_run _ _ _
    (ingestDroppedId peerId) _ _ (receivingView peerId) Prod.snd
    (fun _ _ id same => ingestDroppedId_alike id same)
    _ _ same dropped
  simp only [ingestDropped, Machine.outputs, outputs]
  exact ⟨final, rfl⟩

theorem accept_alike (message : PexMessage) (nowMs : Nat)
    (same : left.receivingView peerId = right.receivingView peerId) :
    (left.accept peerId message nowMs).1.receivingView peerId =
        (right.accept peerId message nowMs).1.receivingView peerId ∧
      (left.accept peerId message nowMs).2.withoutCandidates =
        (right.accept peerId message nowMs).2.withoutCandidates := by
  obtain ⟨cfg, link⟩ := link_of_receivingView same
  have advanced : (left.setLink peerId
        ((left.link peerId).advance message nowMs)).receivingView peerId =
      (right.setLink peerId
        ((right.link peerId).advance message nowMs)).receivingView
          peerId := by
    rw [link]
    exact receivingView_setLink cfg _
  cases message with
  | pexError code text => exact ⟨advanced, rfl⟩
  | pexHandshake version networkId declared flags => exact ⟨advanced, rfl⟩
  | pexSnapshot peers =>
      obtain ⟨view, leftShown, rightShown⟩ :=
        ingestAdded_alike peers nowMs advanced
      exact ⟨view, leftShown.trans rightShown.symm⟩
  | pexDelta added dropped =>
      obtain ⟨view, leftShown, rightShown⟩ :=
        ingestAdded_alike added nowMs advanced
      obtain ⟨cleared, same⟩ := ingestDropped_alike dropped view
      have split : ∀ first second : PexOutcome,
          first.withoutCandidates = {} →
            ({ first with events := first.events ++ second.events } :
              PexOutcome).withoutCandidates =
              { second.withoutCandidates with replies := [] } := by
        intro first second quiet
        have replies : first.replies = [] := congrArg PexOutcome.replies quiet
        have events := congrArg PexOutcome.events quiet
        simp only [PexOutcome.withoutCandidates] at events ⊢
        rw [List.filter_append, events, replies]
        rfl
      refine ⟨cleared, ?_⟩
      simp only [accept]
      rw [split _ _ leftShown, split _ _ rightShown, same]

end Receiving

variable [DefaultHasher]

omit [DefaultHasher] in
theorem getElem?_links_accept_of_ne (engine : PexEngine)
    {peerId other : String} (different : other ≠ peerId)
    (message : PexMessage) (nowMs : Nat) :
    (engine.accept peerId message nowMs).1.links[other]? =
      engine.links[other]? := by
  rw [(accept_frame engine peerId message nowMs).others other different,
    getElem?_setLink, if_neg (Ne.symm different)]

omit [DefaultHasher] in
theorem getElem?_links_conclude_of_ne (engine : PexEngine)
    {peerId other : String} (different : other ≠ peerId)
    (message : PexMessage) (nowMs : Nat) (verdict : Verdict) :
    (engine.conclude peerId message nowMs verdict).1.links[other]? =
      engine.links[other]? := by
  have written : ∀ link : LinkState,
      (engine.setLink peerId link).links[other]? = engine.links[other]? := by
    intro link
    rw [getElem?_setLink, if_neg (Ne.symm different)]
  cases verdict with
  | ignored => exact written _
  | accepted =>
      exact getElem?_links_accept_of_ne engine different message nowMs
  | struck code => exact written _
  | mismatched code => exact written _

theorem linkView_engineStep_of_foreign {call : Call} {peerId : String}
    (foreign : call.concerns peerId = false) (engine : PexEngine) :
    (engineStep engine call).1.linkView peerId = engine.linkView peerId := by
  have known : (engineStep engine call).1.known = engine.known := by
    rw [known_engineStep]
    cases call with
    | upsertKnown entry => cases foreign
    | removeKnown id => cases foreign
    | _ => rfl
  have links : (engineStep engine call).1.links[peerId]? =
      engine.links[peerId]? := by
    cases call with
    | upsertKnown entry => cases foreign
    | removeKnown id => cases foreign
    | tick nowMs orders jitter => cases foreign
    | linkUp opened nowMs order jitter =>
        have other : opened ≠ peerId := by simpa [Call.concerns] using foreign
        simp only [engineStep, linkUp_eq, getElem?_setLink, if_neg other,
          links_advertisableCached]
    | linkDown closed =>
        have other : closed ≠ peerId := by simpa [Call.concerns] using foreign
        simp [engineStep, linkDown, Std.ExtTreeMap.getElem?_erase, other]
    | onMessage source message nowMs =>
        have other : source ≠ peerId := by simpa [Call.concerns] using foreign
        simp only [engineStep, onMessage_eq]
        exact getElem?_links_conclude_of_ne _ other.symm _ _ _
    | recordViolation source code nowMs =>
        have other : source ≠ peerId := by simpa [Call.concerns] using foreign
        simp only [engineStep, recordViolation_eq]
        exact getElem?_links_conclude_of_ne _ other.symm
          (.pexError code.asU16 code.message) nowMs (.struck code)
  simp only [linkView, cfg_engineStep, known, links]

section Concerned

variable {left right : PexEngine} {peerId : String}

omit [DefaultHasher] in
theorem linkView_fields
    (same : left.linkView peerId = right.linkView peerId) :
    left.cfg = right.cfg ∧ left.known = right.known ∧
      left.links[peerId]? = right.links[peerId]? ∧
      left.link peerId = right.link peerId := by
  obtain ⟨cfg, rest⟩ := Prod.mk.inj same
  obtain ⟨known, lookup⟩ := Prod.mk.inj rest
  exact ⟨cfg, known, lookup, link_congr lookup cfg⟩

omit [DefaultHasher] in
/-- Current caches serve a link the same list when what it depends on is the
same. -/
theorem advertisableFor_alike (leftCurrent : left.CacheCurrent)
    (rightCurrent : right.CacheCurrent)
    (same : left.linkView peerId = right.linkView peerId)
    (order : IterationOrder String) (nowSecs : Nat) :
    (left.advertisableFor order peerId nowSecs).1 =
      (right.advertisableFor order peerId nowSecs).1 := by
  obtain ⟨cfg, known, _, _⟩ := linkView_fields same
  rw [leftCurrent.advertisableFor_fst, rightCurrent.advertisableFor_fst]
  simp only [PlainEngine.advertisableFor, plain, cfg, known]

omit [DefaultHasher] in
theorem penalize_alike
    (same : left.linkView peerId = right.linkView peerId) (strikes : Nat)
    (mute : Bool) :
    (left.penalize peerId strikes mute).links[peerId]? =
      (right.penalize peerId strikes mute).links[peerId]? := by
  obtain ⟨_, _, _, link⟩ := linkView_fields same
  have written : ∀ engine : PexEngine,
      (engine.penalize peerId strikes mute).links[peerId]? = some
        { engine.link peerId with
          strikes := (engine.link peerId).strikes + strikes
          muted := (engine.link peerId).muted || mute
          received := if mute then ∅ else (engine.link peerId).received } := by
    intro engine
    exact (getElem?_setLink engine peerId peerId _).trans (if_pos rfl)
  rw [written, written, link]

omit [DefaultHasher] in
theorem strikeMutes_alike
    (same : left.linkView peerId = right.linkView peerId) :
    left.strikeMutes peerId = right.strikeMutes peerId := by
  rw [strikeMutes, strikeMutes, (linkView_fields same).2.2.2]

omit [DefaultHasher] in
theorem onMessage_alike
    (same : left.linkView peerId = right.linkView peerId)
    (message : PexMessage) (nowMs : Nat) :
    (left.onMessage peerId message nowMs).1.links[peerId]? =
        (right.onMessage peerId message nowMs).1.links[peerId]? ∧
      (left.onMessage peerId message nowMs).2.withoutCandidates =
        (right.onMessage peerId message nowMs).2.withoutCandidates := by
  obtain ⟨cfg, _, lookup, link⟩ := linkView_fields same
  have receiving : left.receivingView peerId = right.receivingView peerId :=
    Prod.ext cfg lookup
  rw [onMessage_eq, onMessage_eq, link, cfg]
  cases (right.link peerId).direction.judge right.cfg.networkId message
    nowMs with
  | ignored =>
      refine ⟨?_, rfl⟩
      simp only [conclude, ensureLink, getElem?_setLink, link, if_true]
  | accepted =>
      obtain ⟨view, shown⟩ := accept_alike message nowMs receiving
      exact ⟨congrArg Prod.snd view, shown⟩
  | struck code =>
      simp only [conclude, strikeMutes_alike same]
      exact ⟨penalize_alike same 1 _, trivial⟩
  | mismatched code => exact ⟨penalize_alike same 0 true, rfl⟩

theorem linkUp_alike (leftCurrent : left.CacheCurrent)
    (rightCurrent : right.CacheCurrent)
    (same : left.linkView peerId = right.linkView peerId) (nowMs : Nat)
    (order : IterationOrder String) (jitter : Jitter) :
    (left.linkUp peerId nowMs order jitter).1.links[peerId]? =
        (right.linkUp peerId nowMs order jitter).1.links[peerId]? ∧
      (left.linkUp peerId nowMs order jitter).2 =
        (right.linkUp peerId nowMs order jitter).2 := by
  obtain ⟨cfg, _, _, link⟩ := linkView_fields same
  have peers : left.openingPeers peerId nowMs order =
      right.openingPeers peerId nowMs order := by
    simp only [openingPeers,
      advertisableFor_alike leftCurrent rightCurrent same]
  simp only [linkUp_eq, getElem?_setLink, if_true, openedLink, handshake,
    peers, cfg, link, and_self]

theorem dueDelta_alike (leftCurrent : left.CacheCurrent)
    (rightCurrent : right.CacheCurrent)
    (same : left.linkView peerId = right.linkView peerId) (nowMs : Nat)
    (orders : TickOrders) :
    left.dueDelta nowMs orders peerId =
      right.dueDelta nowMs orders peerId := by
  obtain ⟨_, _, _, link⟩ := linkView_fields same
  simp only [dueDelta, link,
    advertisableFor_alike leftCurrent rightCurrent same]

theorem getElem?_links_tick_alike (leftCurrent : left.CacheCurrent)
    (rightCurrent : right.CacheCurrent)
    (same : left.linkView peerId = right.linkView peerId) (nowMs : Nat)
    (orders : TickOrders) (jitter : String → Jitter) :
    (left.tick nowMs orders jitter).1.links[peerId]? =
      (right.tick nowMs orders jitter).1.links[peerId]? := by
  obtain ⟨cfg, _, lookup, link⟩ := linkView_fields same
  have due := dueDelta_alike leftCurrent rightCurrent same nowMs orders
  have present : peerId ∈ left.links ↔ peerId ∈ right.links := by grind
  have ticked : left.tickedLink nowMs orders jitter peerId =
      right.tickedLink nowMs orders jitter peerId := by
    simp only [tickedLink, due, link, cfg]
  rw [(tick_spec nowMs orders jitter left).2.1,
    (tick_spec nowMs orders jitter right).2.1, lookup, ticked]
  simp only [present]

theorem linkView_engineStep (leftCurrent : left.CacheCurrent)
    (rightCurrent : right.CacheCurrent)
    (same : left.linkView peerId = right.linkView peerId) {call : Call}
    (concerned : call.concerns peerId = true) :
    (engineStep left call).1.linkView peerId =
        (engineStep right call).1.linkView peerId ∧
      shownOn peerId (call, (engineStep left call).2) =
        shownOn peerId (call, (engineStep right call).2) := by
  obtain ⟨cfg, known, lookup, link⟩ := linkView_fields same
  have cfgAfter : (engineStep left call).1.cfg =
      (engineStep right call).1.cfg := by
    rw [cfg_engineStep, cfg_engineStep, cfg]
  have knownAfter : (engineStep left call).1.known =
      (engineStep right call).1.known := by
    rw [known_engineStep, known_engineStep, cfg, known]
  suffices rest : (engineStep left call).1.links[peerId]? =
        (engineStep right call).1.links[peerId]? ∧
      shownOn peerId (call, (engineStep left call).2) =
        shownOn peerId (call, (engineStep right call).2) by
    refine ⟨?_, rest.2⟩
    simp only [linkView, cfgAfter, knownAfter, rest.1]
  cases call with
  | upsertKnown entry => exact ⟨by simpa [engineStep] using lookup, rfl⟩
  | removeKnown id => exact ⟨lookup, rfl⟩
  | linkUp opened nowMs order jitter =>
      obtain rfl : opened = peerId := by simpa [Call.concerns] using concerned
      obtain ⟨record, messages⟩ :=
        linkUp_alike leftCurrent rightCurrent same nowMs order jitter
      exact ⟨record, by simp only [engineStep, messages]⟩
  | linkDown closed =>
      obtain rfl : closed = peerId := by simpa [Call.concerns] using concerned
      exact ⟨by simp [engineStep, linkDown], rfl⟩
  | onMessage source message nowMs =>
      obtain rfl : source = peerId := by simpa [Call.concerns] using concerned
      obtain ⟨record, answers⟩ := onMessage_alike same message nowMs
      refine ⟨record, ?_⟩
      simp only [engineStep, shownOn, if_true, answers]
      rfl
  | recordViolation source code nowMs =>
      obtain rfl : source = peerId := by simpa [Call.concerns] using concerned
      simp only [engineStep, recordViolation_eq, strikeMutes_alike same]
      exact ⟨penalize_alike same 1 _, trivial⟩
  | tick nowMs orders jitter =>
      refine ⟨getElem?_links_tick_alike leftCurrent rightCurrent same nowMs
        orders jitter, ?_⟩
      simp only [shownOn, messagesFor_engineStep,
        dueDelta_alike leftCurrent rightCurrent same]

end Concerned

end PexEngine

variable [DefaultHasher]

namespace PlainEngine

omit [DefaultHasher] in
/-- An engine without a cache, read as one whose cache was never filled, has
no stale list. -/
theorem cacheCurrent_engine (plain : PlainEngine) :
    plain.engine.CacheCurrent := by
  intro nowSecs base cached
  cases cached

theorem step_eq (plain : PlainEngine) (call : Call) :
    step plain call = ((engineStep plain.engine call).1.plain,
      (engineStep plain.engine call).2) :=
  plain.cacheCurrent_engine.engineStep_plain call

/-- Without a cache, a run is alike on a link to the run of the calls that
concern it. -/
theorem run_concerning (peerId : String) (plain : PlainEngine)
    (calls : List Call) :
    (step.final plain calls).engine.linkView peerId =
        (step.final plain (calls.filter (Call.concerns peerId))).engine.linkView
          peerId ∧
      ((step.trace plain calls).filter fun event =>
          event.1.concerns peerId).map (shownOn peerId) =
        (step.trace plain (calls.filter (Call.concerns peerId))).map
          (shownOn peerId) := by
  refine @Machine.unwound _ _ _ step _ _
    (fun plain => plain.engine.linkView peerId) (Call.concerns peerId)
    (shownOn peerId) ?_ ?_ plain plain rfl calls
  · intro state call foreign
    rw [step_eq]
    exact PexEngine.linkView_engineStep_of_foreign foreign state.engine
  · intro left right call concerned same
    rw [step_eq, step_eq]
    exact PexEngine.linkView_engineStep left.cacheCurrent_engine
      right.cacheCurrent_engine same concerned

end PlainEngine

omit [DefaultHasher] in
theorem knownChanges_concerning (localPeerId peerId : String)
    (calls : List Call) :
    knownChanges localPeerId (calls.filter (Call.concerns peerId)) =
      knownChanges localPeerId calls := by
  rw [knownChanges, knownChanges, List.countP_filter]
  apply List.countP_congr
  intro call _
  cases call <;> simp [Call.changesKnown, Call.concerns]

/-- Links are isolated: two runs with fewer than `2 ^ 64` changes of the
first-hand set that agree on the calls that concern a link leave the link with
the same record and show the same on it. -/
theorem links_isolated (cfg : PexConfig) (peerId : String)
    (left right : List Call)
    (few : knownChanges cfg.localPeerId left < 2 ^ 64)
    (agree : left.filter (Call.concerns peerId) =
      right.filter (Call.concerns peerId)) :
    (engineStep.final (PexEngine.new cfg) left).links[peerId]? =
        (engineStep.final (PexEngine.new cfg) right).links[peerId]? ∧
      ((engineStep.trace (PexEngine.new cfg) left).filter fun event =>
          event.1.concerns peerId).map (shownOn peerId) =
        ((engineStep.trace (PexEngine.new cfg) right).filter fun event =>
          event.1.concerns peerId).map (shownOn peerId) := by
  have fewRight : knownChanges cfg.localPeerId right < 2 ^ 64 := by
    rwa [← knownChanges_concerning cfg.localPeerId peerId, ← agree,
      knownChanges_concerning]
  obtain ⟨leftFinal, leftTrace⟩ := plain_final_trace cfg left few
  obtain ⟨rightFinal, rightTrace⟩ := plain_final_trace cfg right fewRight
  obtain ⟨leftView, leftShown⟩ :=
    PlainEngine.run_concerning peerId (.new cfg) left
  obtain ⟨rightView, rightShown⟩ :=
    PlainEngine.run_concerning peerId (.new cfg) right
  rw [agree] at leftView leftShown
  have views := leftView.trans rightView.symm
  rw [leftFinal, rightFinal] at views
  refine ⟨(PexEngine.linkView_fields views).2.2.1, ?_⟩
  rw [← leftTrace, ← rightTrace, leftShown, rightShown]

omit [DefaultHasher] in
/-- A link answers the same whether or not another link is opened, tells a
fresher hint and goes down. -/
theorem links_isolated_from_noise :
    let opening : List Call :=
      [.upsertKnown (exampleEntry 'c' 1000 9444),
        .onMessage (exampleId 'b') (.pexHandshake 1 "network" 60 []) 1000000,
        .onMessage (exampleId 'b')
          (.pexSnapshot [exampleEntry 'd' 900 9444]) 1000000]
    let noise : List Call :=
      [.linkUp (exampleId 'e') 1000000 .ascending .zero,
        .onMessage (exampleId 'e') (.pexHandshake 1 "network" 60 []) 1000000,
        .onMessage (exampleId 'e')
          (.pexSnapshot [exampleEntry 'd' 950 9444]) 1000000,
        .linkDown (exampleId 'e')]
    let start := PexEngine.new (exampleConfig (exampleId 'a'))
    ((@engineStep sipHasher).final start (noise ++ opening)).links[
        exampleId 'b']? =
      ((@engineStep sipHasher).final start opening).links[
        exampleId 'b']? := by
  intro opening noise start
  exact (@links_isolated sipHasher (exampleConfig (exampleId 'a'))
    (exampleId 'b') (noise ++ opening) opening (by decide +kernel)
    (by
      have silent : noise.filter (Call.concerns (exampleId 'b')) = [] := by
        rw [List.filter_eq_nil_iff]
        decide +kernel
      rw [List.filter_append, silent, List.nil_append])).1

/-! ## Past the wrap of the epoch -/

omit [DefaultHasher] in
theorem KnownSet.remove_of_absent {known : KnownSet} {id : String}
    (absent : id ∉ known.entries) : known.remove id = known := by
  have same : known.entries.erase id = known.entries := by
    apply Std.ExtTreeMap.ext_getElem?
    grind
  cases known
  simp only [KnownSet.remove, KnownSet.mk.injEq]
  exact same

theorem final_replicate_removeKnown (engine : PexEngine) {id : String}
    (absent : id ∉ engine.known.entries)
    (reduced : engine.knownEpoch < 2 ^ 64) (count : Nat) :
    engineStep.final engine (List.replicate count (.removeKnown id)) =
      { engine with knownEpoch := (engine.knownEpoch + count) % 2 ^ 64 } := by
  induction count with
  | zero =>
      rw [Nat.add_zero, Nat.mod_eq_of_lt reduced]
      rfl
  | succ count induction =>
      rw [List.replicate_succ', Machine.final_concat, induction]
      simp only [engineStep, PexEngine.removeKnown, PexEngine.bumpEpoch,
        KnownSet.remove_of_absent absent, Nat.mod_add_mod, Nat.add_assoc]

omit [DefaultHasher] in
/-- Opens a link after some calls, an upsert and removals of no peer, all in
one second. -/
def wrappedRun (noise : List Call) (removals : Nat) : List Call :=
  (noise ++ [.upsertKnown (exampleEntry 'c' 1000 9444)]) ++
    List.replicate removals (.removeKnown "") ++
      [.linkUp (exampleId 'b') 1000000 .ascending .zero]

theorem shown_wrappedRun (start : PexEngine) (noise : List Call)
    {before : PexEngine}
    (after : engineStep.final start
      (noise ++ [.upsertKnown (exampleEntry 'c' 1000 9444)]) = before)
    (absent : "" ∉ before.known.entries) (epoch : before.knownEpoch = 1)
    (removals : Nat) (wraps : (1 + removals) % 2 ^ 64 = 0) :
    ∃ past, ((engineStep.trace start (wrappedRun noise removals)).filter
        fun event => event.1.concerns (exampleId 'b')).map
          (shownOn (exampleId 'b')) =
      past ++ [shownOn (exampleId 'b')
        (.linkUp (exampleId 'b') 1000000 .ascending .zero,
          .opening ({ before with knownEpoch := 0 }.linkUp (exampleId 'b')
            1000000 .ascending .zero).2)] := by
  have opened : Call.concerns (exampleId 'b')
      (.linkUp (exampleId 'b') 1000000 .ascending .zero) = true := by
    simp [Call.concerns]
  rw [wrappedRun, Machine.trace_concat, Machine.final_append, after,
    final_replicate_removeKnown before absent (by omega), epoch, wraps,
    List.filter_append, List.map_append]
  simp only [List.filter_cons, opened, if_true, List.filter_nil,
    List.map_cons, List.map_nil]
  exact ⟨_, rfl⟩

omit [DefaultHasher] in
/-- With `2 ^ 64` changes of the first-hand set in one second, a list cached
for another link is served as the current one: the link is not told the peer
upserted meanwhile. -/
theorem wrapped_epoch_crosses_links :
    let start := PexEngine.new (exampleConfig (exampleId 'a'))
    let left := wrappedRun
      [.linkUp (exampleId 'e') 1000000 .ascending .zero] (2 ^ 64 - 1)
    let right := wrappedRun [] (2 ^ 64 - 1)
    let shown (calls : List Call) :=
      (((@engineStep sipHasher).trace start calls).filter fun event =>
        event.1.concerns (exampleId 'b')).map (shownOn (exampleId 'b'))
    left.filter (Call.concerns (exampleId 'b')) =
        right.filter (Call.concerns (exampleId 'b')) ∧
      shown left ≠ shown right := by
  intro start left right shown
  constructor
  · have silent : Call.concerns (exampleId 'b')
        (.linkUp (exampleId 'e') 1000000 .ascending .zero) = false := by
      decide +kernel
    simp only [left, right, wrappedRun, List.filter_append,
      List.filter_cons_of_neg (Bool.not_eq_true _ ▸ silent),
      List.filter_nil]
  · obtain ⟨leftPast, leftShown⟩ := @shown_wrappedRun sipHasher start
      [.linkUp (exampleId 'e') 1000000 .ascending .zero] _ rfl
      (by decide +kernel) (by decide +kernel) (2 ^ 64 - 1) (by norm_num)
    obtain ⟨rightPast, rightShown⟩ := @shown_wrappedRun sipHasher start
      [] _ rfl (by decide +kernel) (by decide +kernel) (2 ^ 64 - 1)
      (by norm_num)
    intro same
    have joined := leftShown.symm.trans (same.trans rightShown)
    have last := (List.append_inj' joined
      (by simp only [List.length_singleton])).2
    revert last
    decide +kernel

end DigPex
