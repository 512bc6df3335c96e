import DigPex.Isolation
import DigPex.ReceiverMemory

/-!
# The account a host can keep

What the accessors of an engine show can be followed from outside: from what
the host called and what it was returned.  The account below is kept so, and
it never differs from the engine.
-/

namespace DigPex

/-! ## Accessors -/

namespace PexEngine

/-- Number of peers in the first-hand advertise set. -/
def knownCount (engine : PexEngine) : Nat :=
  engine.known.entries.size

/-- Number of live links. -/
def linkCount (engine : PexEngine) : Nat :=
  engine.links.size

/-- Whether the incoming direction of a link is muted. -/
def isMuted (engine : PexEngine) (peerId : String) : Bool :=
  engine.links[peerId]?.any LinkState.muted

/-- The strikes of the incoming direction of a link. -/
def strikes (engine : PexEngine) (peerId : String) : Nat :=
  engine.links[peerId]?.elim 0 LinkState.strikes

/-- How many peers a link has been told. -/
def toldCount (engine : PexEngine) (peerId : String) : Nat :=
  engine.links[peerId]?.elim 0 fun link => link.told.size

/-- The current hint for a peer: its source and last_seen. -/
def currentHint (engine : PexEngine) (peerId : String) :
    Option (String × Nat) :=
  engine.hints[peerId]?.map fun hint => (hint.source, hint.lastSeen)

/-- How many peers a link has told us. -/
def receivedCount (engine : PexEngine) (peerId : String) : Nat :=
  engine.links[peerId]?.elim 0 fun link => link.received.size

/-- Number of current hints. -/
def hintsCount (engine : PexEngine) : Nat :=
  engine.hints.size

variable (engine : PexEngine) (peerId : String)

theorem accessors_eq :
    engine.isMuted peerId = (engine.link peerId).muted ∧
      engine.strikes peerId = (engine.link peerId).strikes ∧
      engine.toldCount peerId = (engine.link peerId).told.size ∧
      engine.receivedCount peerId = (engine.link peerId).received.size := by
  simp only [isMuted, strikes, toldCount, receivedCount, link_eq_getD]
  cases engine.links[peerId]? with
  | none => simp [LinkState.new]
  | some link => simp

end PexEngine

/-! ## The account -/

/-- What a host writes down: the peers it gave, the live links with strikes,
mutes and what was told, and the hints. -/
structure Account where
  localPeerId : String
  known : Std.ExtTreeMap String PeerEntry
  live : Finset String
  strikes : String → Nat
  muted : String → Bool
  told : String → Std.ExtTreeMap String UInt64
  hints : Std.ExtTreeMap String ReceivedHint

/-- The code and the mute of a violation. -/
def PexEvent.fault? : PexEvent → Option (Nat × Bool)
  | .violation code mute => some (code, mute)
  | _ => none

def PexOutcome.faults (outcome : PexOutcome) : List (Nat × Bool) :=
  outcome.events.filterMap PexEvent.fault?

/-- A mismatch of version or network is benign. -/
def isBenign (code : Nat) : Bool :=
  code = PexErrorCode.unsupportedVersion.asU16 ||
    code = PexErrorCode.networkMismatch.asU16

/-- The strikes and the mute an outcome reports for a link.  Every violation
the host itself recorded counts. -/
def penalties (peerId : String) : Call × Response → Nat × Bool
  | (.onMessage source _ _, .outcome answer) =>
      if source = peerId then
        (answer.faults.countP fun fault => !isBenign fault.1,
          answer.faults.any Prod.snd)
      else
        (0, false)
  | (.recordViolation source _ _, .outcome answer) =>
      if source = peerId then
        (answer.faults.length, answer.faults.any Prod.snd)
      else
        (0, false)
  | _ => (0, false)

/-- The hints after a candidate from a link. -/
def noteCandidate (source : String)
    (hints : Std.ExtTreeMap String ReceivedHint) (candidate : PeerEntry) :
    Std.ExtTreeMap String ReceivedHint :=
  FiniteMap.insertCapped ReceivedHint.lastSeen pexMaxHints hints
    candidate.peerId
    { source := source
      lastSeen := candidate.lastSeen }

/-- The hints after a link dropped a peer. -/
def noteDropped (source : String)
    (hints : Std.ExtTreeMap String ReceivedHint) (id : String) :
    Std.ExtTreeMap String ReceivedHint :=
  if hints[id]?.any fun hint => hint.source = source then hints.erase id
  else hints

/-- The hints after an event from a link. -/
def noteHints (source : String) (hints : Std.ExtTreeMap String ReceivedHint) :
    PexEvent → Std.ExtTreeMap String ReceivedHint
  | .candidates peers => peers.foldl (noteCandidate source) hints
  | .dropped peerIds => peerIds.foldl (noteDropped source) hints
  | .violation _ mute =>
      if mute then hints.filter fun _ hint => hint.source ≠ source
      else hints

namespace Account

variable [DefaultHasher]

omit [DefaultHasher] in
/-- The account of an engine that was just created. -/
def new (localPeerId : String) : Account :=
  { localPeerId := localPeerId
    known := ∅
    live := ∅
    strikes := fun _ => 0
    muted := fun _ => false
    told := fun _ => ∅
    hints := ∅ }

/-- The account after a call, from what it returned. -/
def follow (account : Account) (event : Call × Response) : Account :=
  { localPeerId := account.localPeerId
    known :=
      match event.1 with
      | .upsertKnown entry =>
          if entry.peerId = account.localPeerId then account.known
          else account.known.insert entry.peerId entry
      | .removeKnown id => account.known.erase id
      | _ => account.known
    live :=
      match event.1 with
      | .linkUp id _ _ _ | .onMessage id _ _ | .recordViolation id _ _ =>
          insert id account.live
      | .linkDown id => account.live.erase id
      | _ => account.live
    strikes := fun id =>
      if event.1.inbound id = some .down then 0
      else account.strikes id + (penalties id event).1
    muted := fun id =>
      if event.1.inbound id = some .down then false
      else account.muted id || (penalties id event).2
    told := fun id =>
      if event.1.inbound id = some .down then ∅
      else (messagesFor id event).foldl tell (account.told id)
    hints :=
      match event with
      | (.onMessage source _ _, .outcome answer)
      | (.recordViolation source _ _, .outcome answer) =>
          answer.events.foldl (noteHints source) account.hints
      | (.linkDown closed, _) =>
          account.hints.filter fun _ hint => hint.source ≠ closed
      | _ => account.hints }

end Account

/-- The true account of an engine. -/
def PexEngine.account (engine : PexEngine) : Account :=
  { localPeerId := engine.cfg.localPeerId
    known := engine.known.entries
    live := engine.links.keys.toFinset
    strikes := fun id => (engine.link id).strikes
    muted := fun id => (engine.link id).muted
    told := fun id => (engine.link id).told
    hints := engine.hints }

/-! ## The account is true -/

namespace PexEngine

section Hints

variable {engine : PexEngine} {source : String} {nowMs : Nat}

theorem hints_ingestEntry (engine : PexEngine) (nowSecs : Nat)
    (entry : PeerEntry) :
    (ingestEntry source nowSecs engine entry).1.hints =
      (ingestEntry source nowSecs engine entry).2.elim engine.hints
        (noteCandidate source engine.hints) := by
  by_cases kept : engine.Keeps source nowSecs entry
  · rw [ingestEntry_of_keeps kept]
    split <;> rfl
  · rw [ingestEntry_of_not_keeps kept]
    rfl

theorem hints_ingestDroppedId (engine : PexEngine) (id : String) :
    (ingestDroppedId source engine id).1.hints =
      (ingestDroppedId source engine id).2.elim engine.hints
        (noteDropped source engine.hints) := by
  unfold ingestDroppedId unlistSource noteDropped
  dsimp only
  split
  · split <;> simp_all
  · rfl

theorem hints_ingestAdded (engine : PexEngine) (entries : List PeerEntry) :
    (engine.ingestAdded source entries nowMs).1.hints =
      (engine.ingestAdded source entries nowMs).2.events.foldl
        (noteHints source) engine.hints := by
  have followed := (ingestEntry source (nowMs / 1000)).view_final_of_yields
    PexEngine.hints (noteCandidate source)
    (fun engine entry => engine.hints_ingestEntry _ entry) engine entries
  simp only [ingestAdded]
  refine followed.trans ?_
  split
  · rename_i empty
    rw [List.isEmpty_iff.mp empty]
    rfl
  · rfl

theorem hints_ingestDropped (engine : PexEngine) (dropped : List String) :
    (engine.ingestDropped source dropped).1.hints =
      (engine.ingestDropped source dropped).2.events.foldl
        (noteHints source) engine.hints := by
  have followed := (ingestDroppedId source).view_final_of_yields
    PexEngine.hints (noteDropped source) hints_ingestDroppedId engine dropped
  simp only [ingestDropped]
  refine followed.trans ?_
  split
  · rename_i empty
    rw [List.isEmpty_iff.mp empty]
    rfl
  · rfl

theorem hints_onMessage (engine : PexEngine) (message : PexMessage) :
    (engine.onMessage source message nowMs).1.hints =
      (engine.onMessage source message nowMs).2.events.foldl
        (noteHints source) engine.hints := by
  rw [onMessage_eq]
  cases (engine.link source).direction.judge engine.cfg.networkId message
    nowMs with
  | ignored => rfl
  | struck code => rfl
  | mismatched code => rfl
  | accepted =>
      cases message with
      | pexError code text => rfl
      | pexHandshake version networkId declared flags => rfl
      | pexSnapshot peers => exact hints_ingestAdded _ peers
      | pexDelta added dropped =>
          simp only [conclude, accept, List.foldl_append]
          rw [hints_ingestDropped, hints_ingestAdded]
          rfl

end Hints

end PexEngine

theorem faults_accept (engine : PexEngine) (source : String)
    (message : PexMessage) (nowMs : Nat) :
    (engine.accept source message nowMs).2.faults = [] := by
  rw [PexOutcome.faults, List.filterMap_eq_nil_iff]
  intro event member
  cases event with
  | violation code mute =>
      exact absurd member
        ((engine.accept_outcome source message nowMs).2 code mute)
  | _ => rfl

theorem faults_violationOutcome (code : PexErrorCode) (mute : Bool) :
    (PexEngine.violationOutcome code mute).faults = [(code.asU16, mute)] :=
  rfl

theorem isBenign_asU16 (code : PexErrorCode) :
    isBenign code.asU16 = !code.isStrike := by
  cases code <;> rfl

variable [DefaultHasher]

theorem penalties_engineStep (engine : PexEngine) (call : Call)
    (id : String) :
    let answered := engineStep engine call
    (answered.1.link id).strikes =
        (if call.inbound id = some .down then 0
        else (engine.link id).strikes + (penalties id (call, answered.2)).1) ∧
      (answered.1.link id).muted =
        (if call.inbound id = some .down then false
        else (engine.link id).muted || (penalties id (call, answered.2)).2) := by
  intro answered
  have stepped := direction_engineStep engine call id
  have strikes : (answered.1.link id).strikes =
      (answered.1.link id).direction.strikes := rfl
  have muted : (answered.1.link id).muted =
      (answered.1.link id).direction.muted := rfl
  rw [strikes, muted, stepped]
  cases call with
  | linkDown closed =>
      by_cases same : closed = id
      · simp [Call.inbound, same, Direction.receive, Direction.fresh]
      · simp [Call.inbound, same, penalties, LinkState.direction]
  | recordViolation source code nowMs =>
      by_cases same : source = id
      · subst same
        simp [Call.inbound, answered, engineStep, penalties,
          PexEngine.recordViolation_eq, faults_violationOutcome,
          Direction.receive, Direction.penalize, PexEngine.strikeMutes,
          LinkState.direction]
      · simp [Call.inbound, same, answered, engineStep, penalties,
          LinkState.direction]
  | onMessage source message nowMs =>
      by_cases same : source = id
      · subst same
        simp only [Call.inbound, answered, engineStep, penalties, if_true,
          PexEngine.onMessage_eq, Direction.receive]
        cases verdict : (engine.link source).direction.judge
            engine.cfg.networkId message nowMs with
        | ignored => simp [PexEngine.conclude, Direction.conclude,
            PexOutcome.faults, LinkState.direction]
        | accepted =>
            have silent := faults_accept engine source message nowMs
            cases message <;>
              simp [PexEngine.conclude, Direction.conclude, silent,
                Direction.advance, LinkState.direction]
        | struck code =>
            have counts := ((engine.link source).direction.judge_code
              engine.cfg.networkId message nowMs code).1 verdict
            simp [PexEngine.conclude, Direction.conclude,
              faults_violationOutcome, isBenign_asU16, counts,
              Direction.penalize, PexEngine.strikeMutes, LinkState.direction]
        | mismatched code =>
            have benign := ((engine.link source).direction.judge_code
              engine.cfg.networkId message nowMs code).2 verdict
            simp [PexEngine.conclude, Direction.conclude,
              faults_violationOutcome, isBenign_asU16, benign,
              Direction.penalize, LinkState.direction]
      · simp [Call.inbound, same, answered, engineStep, penalties,
          LinkState.direction]
  | _ => simp [Call.inbound, penalties, LinkState.direction]

theorem mem_links_engineStep (engine : PexEngine) (call : Call)
    (id : String) :
    id ∈ (engineStep engine call).1.links ↔
      match call with
      | .linkUp other _ _ _ | .onMessage other _ _
      | .recordViolation other _ _ => id = other ∨ id ∈ engine.links
      | .linkDown other => id ≠ other ∧ id ∈ engine.links
      | _ => id ∈ engine.links := by
  cases call with
  | upsertKnown entry => simp [engineStep]
  | removeKnown other => exact Iff.rfl
  | linkUp other nowMs order jitter =>
      simp only [engineStep, PexEngine.linkUp_eq, PexEngine.mem_setLink,
        PexEngine.links_advertisableCached]
      rw [eq_comm]
  | linkDown other =>
      simp only [engineStep, PexEngine.linkDown]
      grind
  | recordViolation other code nowMs =>
      simp only [engineStep, PexEngine.recordViolation_eq,
        PexEngine.penalize, PexEngine.mem_setLink]
      rw [eq_comm]
  | tick nowMs orders jitter => exact PexEngine.mem_links_tick _ _ _ _ _
  | onMessage other message nowMs =>
      simp only [engineStep, PexEngine.onMessage_eq]
      by_cases same : id = other
      · subst same
        refine iff_of_true ?_ (.inl rfl)
        cases (engine.link id).direction.judge engine.cfg.networkId message
          nowMs with
        | ignored => simp [PexEngine.conclude]
        | accepted =>
            exact (engine.accept_frame id message nowMs).present (by simp)
        | struck code => simp [PexEngine.conclude, PexEngine.penalize]
        | mismatched code => simp [PexEngine.conclude, PexEngine.penalize]
      · have others := engine.getElem?_links_conclude_of_ne same message nowMs
          ((engine.link other).direction.judge engine.cfg.networkId message
            nowMs)
        rw [Std.ExtTreeMap.mem_iff_isSome_getElem?, others,
          ← Std.ExtTreeMap.mem_iff_isSome_getElem?]
        simp [same]

theorem account_engineStep (engine : PexEngine) (call : Call) :
    (engineStep engine call).1.account =
      engine.account.follow (call, (engineStep engine call).2) := by
  have known : (engineStep engine call).1.known.entries =
      (engine.account.follow (call, (engineStep engine call).2)).known := by
    rw [known_engineStep]
    cases call with
    | upsertKnown entry =>
        simp only [KnownSet.after, Account.follow, PexEngine.account]
        rw [apply_ite KnownSet.entries]
        rfl
    | _ => rfl
  have live : (engineStep engine call).1.links.keys.toFinset =
      (engine.account.follow (call, (engineStep engine call).2)).live := by
    ext id
    rw [List.mem_toFinset, Std.ExtTreeMap.mem_keys, mem_links_engineStep]
    cases call <;> simp [Account.follow, PexEngine.account]
  have strikes : (fun id => ((engineStep engine call).1.link id).strikes) =
      (engine.account.follow (call, (engineStep engine call).2)).strikes :=
    funext fun id => (penalties_engineStep engine call id).1
  have muted : (fun id => ((engineStep engine call).1.link id).muted) =
      (engine.account.follow (call, (engineStep engine call).2)).muted :=
    funext fun id => (penalties_engineStep engine call id).2
  have told : (fun id => ((engineStep engine call).1.link id).told) =
      (engine.account.follow (call, (engineStep engine call).2)).told :=
    funext fun id => told_engineStep engine call id
  have hints : (engineStep engine call).1.hints =
      (engine.account.follow (call, (engineStep engine call).2)).hints := by
    cases call with
    | upsertKnown entry => exact PexEngine.hints_upsertKnown engine entry
    | removeKnown id => rfl
    | linkUp opened nowMs order jitter =>
        exact (PexEngine.linkUp_frame engine opened nowMs order jitter).hints
    | linkDown closed => rfl
    | onMessage source message nowMs =>
        exact engine.hints_onMessage message
    | recordViolation source code nowMs =>
        simp only [engineStep, PexEngine.recordViolation_eq]
        rfl
    | tick nowMs orders jitter =>
        exact (PexEngine.tick_frame nowMs orders jitter engine).hints
  unfold PexEngine.account
  rw [cfg_engineStep, known, live, strikes, muted, told, hints]
  rfl

/-- What the engine returns accounts for what it is.  In every run, a host that
writes down only its own calls and what they returned knows the value of every
accessor but one: the first-hand peers, the live links, the strikes, mute and
told peers of every link, and every hint with its source.  The one left, how
many peers a link has told us, keeps its cap, as does the number of hints. -/
theorem accessors_accounted (cfg : PexConfig) (calls : List Call) :
    let engine := engineStep.final (.new cfg) calls
    let account := (engineStep.trace (.new cfg) calls).foldl Account.follow
      (.new cfg.localPeerId)
    engine.knownCount = account.known.size ∧
      engine.linkCount = account.live.card ∧
      engine.hintsCount = account.hints.size ∧
      (∀ id, engine.currentHint id =
        account.hints[id]?.map fun hint => (hint.source, hint.lastSeen)) ∧
      (∀ peerId, engine.isMuted peerId = account.muted peerId ∧
        engine.strikes peerId = account.strikes peerId ∧
        engine.toldCount peerId = (account.told peerId).size ∧
        engine.receivedCount peerId ≤ pexMaxReceivedPerLink) ∧
      engine.hintsCount ≤ pexMaxHints := by
  intro engine account
  have initial : (PexEngine.new cfg).account = .new cfg.localPeerId := by
    simp only [PexEngine.account, PexEngine.link_new]
    rfl
  have followed : engine.account = account := by
    have run := engineStep.view_final PexEngine.account Account.follow
      account_engineStep (.new cfg) calls
    rw [initial] at run
    exact run
  rw [← followed]
  have links : engine.linkCount = engine.links.keys.toFinset.card := by
    rw [FiniteMap.card_keys]
    rfl
  have memory := (ReceiverMemory.start cfg).run calls
  refine ⟨rfl, links, rfl, fun _ => rfl, fun peerId => ?_, memory.bounded⟩
  obtain ⟨muted, strikes, told, received⟩ := engine.accessors_eq peerId
  refine ⟨muted, strikes, told, ?_⟩
  rw [received]
  exact (memory.link peerId).bounded

end DigPex
