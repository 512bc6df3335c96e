import DigPex.Cadence
import DigPex.Checked

/-!
# No input makes the engine panic

Every check of the checked engine succeeds.  A handler runs only after its
link was created, intervals are clamped before they are computed with, and the
fields that sums are made of stay within bounds that a run cannot leave.
-/

namespace DigPex

/-- The greatest clock value the engine is called with. -/
def clockBound : Nat := 2 ^ 64 - 1 - 3960000

namespace Checked

variable {engine : PexEngine} {peerId : String}

/-! ## Intervals and entries -/

theorem clampInterval_bounds (secs : Nat) :
    pexMinInterval ≤ clampInterval secs ∧
      clampInterval secs ≤ pexMaxInterval := by
  simp only [clampInterval, pexMinInterval, pexMaxInterval]
  omega

theorem effectiveIntervalSecs_le_max (own : Nat) (remote : Option Nat) :
    effectiveIntervalSecs own remote ≤ pexMaxInterval := by
  have ownBounds := clampInterval_bounds own
  have remoteBound : (remote.map clampInterval).getD 0 ≤ pexMaxInterval := by
    cases remote with
    | none => exact Nat.zero_le _
    | some secs => exact (clampInterval_bounds secs).2
  simp only [effectiveIntervalSecs, pexMinInterval, pexMaxInterval] at *
  omega

theorem arrivalFloorMs_eq (declared : Nat) :
    arrivalFloorMs declared = .ok (DigPex.arrivalFloorMs declared) := by
  have bounds := clampInterval_bounds declared
  simp only [pexMinInterval, pexMaxInterval] at bounds
  rw [arrivalFloorMs, Nat.subFits_of_le (by
    simp only [pexArrivalGrace, pexMinInterval]
    omega)]
  simp only [fits, Except.ok_bind]
  rw [Nat.mulFits_of_lt (by
    simp only [pexArrivalGrace, pexMinInterval]
    omega)]
  rfl

theorem drawJitter_eq (cfg : PexConfig) (jitter : Jitter)
    {effectiveSecs : Nat} (short : effectiveSecs ≤ pexMaxInterval) :
    drawJitter cfg jitter effectiveSecs =
      .ok (cfg.drawJitter jitter effectiveSecs) := by
  simp only [pexMaxInterval] at short
  unfold drawJitter PexConfig.drawJitter
  split
  · rw [jitterMs, Nat.mulFits_of_lt (by omega)]
    rfl
  · rfl

theorem isFresh_eq (nowSecs : Nat) (entry : PeerEntry) :
    isFresh nowSecs entry = .ok (DigPex.isFresh nowSecs entry) := by
  unfold isFresh DigPex.isFresh
  split
  · rename_i future
    simp [future]
  · rename_i past
    rw [Nat.subFits_of_le (by omega)]
    simp [past, fits]

theorem validate_eq (entry : PeerEntry) (ctx : ValidateCtx) :
    validate entry ctx = .ok (entry.validate ctx) := by
  have aged : (if entry.lastSeen < ctx.nowSecs then do
        let age ← fits (Nat.subFits ctx.nowSecs entry.lastSeen)
        return if pexMaxEntryAge < age then .error .tooOld else .ok ()
      else .ok (.ok ()) : Checked (Except EntrySkip Unit)) =
      .ok (if entry.lastSeen < ctx.nowSecs ∧
          pexMaxEntryAge < ctx.nowSecs - entry.lastSeen then .error .tooOld
        else .ok ()) := by
    by_cases past : entry.lastSeen < ctx.nowSecs
    · rw [if_pos past, Nat.subFits_of_le (by omega)]
      simp only [past, true_and]
      rfl
    · rw [if_neg past, if_neg (by simp [past])]
  rw [validate, aged, PeerEntry.validate]
  split_ifs <;> rfl

/-! ## The frame budget -/

/-- What an entry costs is its JSON and a comma, except that a text longer
than a vector costs more than any frame has. -/
theorem frameCost_eq (entry : PeerEntry) :
    ∃ cost, frameCost entry = .ok cost ∧
      (cost = entry.jsonLength + 1 ∨
        pexMaxFrame < cost ∧ pexMaxFrame < entry.jsonLength) := by
  unfold frameCost serializedLength
  by_cases held : entry.jsonLength < 2 ^ 63
  · refine ⟨entry.jsonLength + 1, ?_, .inl rfl⟩
    rw [if_pos held]
    simp only
    rw [Nat.addFits_of_lt (by omega), fits]
  · refine ⟨2 ^ 64 - 1, ?_, .inr ⟨by decide, ?_⟩⟩
    · rw [if_neg held]
    · simp only [pexMaxFrame]
      omega

theorem trimFrom_eq (used : Nat) (entries : List PeerEntry) :
    trimFrom used entries = .ok (DigPex.trimFrom used entries) := by
  induction entries generalizing used with
  | nil => rfl
  | cons entry entries induction =>
      obtain ⟨cost, spent, costs⟩ := frameCost_eq entry
      rw [trimFrom, DigPex.trimFrom, spent, Except.ok_bind]
      by_cases within : used + (entry.jsonLength + 1) ≤ pexMaxFrame
      · have exactly : cost = entry.jsonLength + 1 := by omega
        have bounded : frameWithinBound (used + (entry.jsonLength + 1)) =
            true := decide_eq_true within
        simp only [pexMaxFrame] at within
        rw [exactly, Nat.addFits_of_lt (by omega)]
        simp only [bounded, if_true, induction, Except.ok_bind]
        rfl
      · have exceeds : frameWithinBound (used + (entry.jsonLength + 1)) =
            false := decide_eq_false within
        have costly : frameWithinBound (used + cost) = false :=
          decide_eq_false (by omega)
        simp only [exceeds, Bool.false_eq_true, if_false]
        unfold Nat.addFits
        split
        · rename_i total added
          split at added
          · obtain rfl := Option.some.inj added
            rw [costly]
            rfl
          · cases added
        · rfl

theorem trimToFrameBudget_eq (peers : List PeerEntry) :
    trimToFrameBudget peers = .ok (DigPex.trimToFrameBudget peers) := by
  have envelope : (PexMessage.pexSnapshot []).toJsonBytes.length = 34 := by
    rw [PexMessage.length_toJsonBytes_snapshot]
    rfl
  rw [trimToFrameBudget, envelope, Nat.addFits_of_lt (by norm_num), fits,
    Except.ok_bind, trimFrom_eq, DigPex.trimToFrameBudget,
    PexMessage.length_encode, envelope]

/-! ## What is advertised -/

theorem advertisableBase_eq (known : KnownSet) (localPeerId : String)
    (order : IterationOrder String) (nowSecs : Nat) :
    advertisableBase known localPeerId order nowSecs =
      .ok (DigPex.advertisableBase known localPeerId order nowSecs) := by
  rw [advertisableBase, Except.filterList_eq_ok (isFresh_eq nowSecs),
    Except.ok_bind, List.filter_filter]
  simp only [DigPex.advertisableBase, Bool.and_comm]
  rfl

theorem rebuildAdvertisable_eq (engine : PexEngine)
    (order : IterationOrder String) (nowSecs : Nat) :
    rebuildAdvertisable engine order nowSecs =
      .ok (engine.rebuildAdvertisable order nowSecs) := by
  rw [rebuildAdvertisable, advertisableBase_eq, Except.ok_bind]
  rfl

theorem advertisableFor_eq (engine : PexEngine)
    (order : IterationOrder String) (partner : String) (nowSecs : Nat) :
    advertisableFor engine order partner nowSecs =
      .ok (engine.advertisableFor order partner nowSecs) := by
  have cached : advertisableCached engine order nowSecs =
      .ok (engine.advertisableCached order nowSecs) := by
    unfold advertisableCached PexEngine.advertisableCached
    simp only [rebuildAdvertisable_eq]
    cases stored : engine.advertisableCache with
    | none => rfl
    | some cache =>
        dsimp only
        split
        · rw [readCache, stored]
        · rfl
  rw [advertisableFor, cached, Except.ok_bind]
  rfl

theorem indexLink_of_mem (present : peerId ∈ engine.links) :
    indexLink engine peerId = .ok (engine.link peerId) := by
  rw [indexLink, PexEngine.getElem?_eq_some_link present]

/-! ## Receiving -/

theorem strike_eq (present : peerId ∈ engine.links)
    (small : (engine.link peerId).strikes + 1 < 2 ^ 32)
    (code : PexErrorCode) :
    strike engine peerId code = .ok (engine.strike peerId code) := by
  rw [strike, indexLink_of_mem present, Except.ok_bind,
    Nat.addFits_of_lt small, fits, Except.ok_bind]
  rfl

theorem muteMismatch_eq (present : peerId ∈ engine.links)
    (code : PexErrorCode) :
    muteMismatch engine peerId code =
      .ok (engine.muteMismatch peerId code) := by
  rw [muteMismatch, indexLink_of_mem present, Except.ok_bind]
  rfl

theorem onPexError_eq (present : peerId ∈ engine.links)
    (typed : (engine.link peerId).selfIntervalSecs < 2 ^ 32)
    (code nowMs : Nat) :
    onPexError engine peerId code nowMs =
      .ok (engine.onPexError peerId code nowMs) := by
  have recent : isPlausible (engine.link peerId) nowMs =
      .ok ((engine.link peerId).lastDataSendMs.any fun sent =>
        nowMs - sent < DigPex.arrivalFloorMs
          (engine.link peerId).selfIntervalSecs) := by
    unfold isPlausible
    cases (engine.link peerId).lastDataSendMs with
    | none => rfl
    | some sent =>
        simp only [arrivalFloorMs_eq, Except.ok_bind]
        rfl
  unfold onPexError PexEngine.onPexError
  by_cases rate : code = PexErrorCode.rateViolation.asU16
  · simp only [rate, if_true, PexEngine.getElem?_eq_some_link present, recent,
      Except.ok_bind]
    rw [Nat.mulFits_of_lt (by omega), fits, Except.ok_bind]
    simp only [decide_true, Bool.true_and]
    split <;> rfl
  · simp only [rate, if_false, decide_false, Bool.false_and,
      Bool.false_eq_true]

theorem onHandshake_eq (present : peerId ∈ engine.links)
    (small : (engine.link peerId).strikes + 1 < 2 ^ 32) (version : Nat)
    (networkId : String) (declared : Nat) :
    onHandshake engine peerId version networkId declared =
      .ok (engine.onHandshake peerId version networkId declared) := by
  unfold onHandshake PexEngine.onHandshake
  simp only [indexLink_of_mem present, Except.ok_bind,
    strike_eq present small, muteMismatch_eq present]
  split_ifs <;> rfl

theorem ingestEntry_eq (present : peerId ∈ engine.links) (nowSecs : Nat)
    (entry : PeerEntry) :
    ingestEntry peerId nowSecs engine entry =
      .ok (PexEngine.ingestEntry peerId nowSecs engine entry) := by
  unfold ingestEntry PexEngine.ingestEntry
  rw [validate_eq, Except.ok_bind]
  cases entry.validate (engine.validateCtx peerId nowSecs) with
  | error skip => rfl
  | ok _ =>
      simp only [indexLink_of_mem present, Except.ok_bind]
      show (if (engine.attributeTo peerId (entry.clamped nowSecs)).isFresher
          (entry.clamped nowSecs) = true then _ else _) =
        Except.ok (if (engine.attributeTo peerId
          (entry.clamped nowSecs)).isFresher (entry.clamped nowSecs) = true
            then _ else _)
      split
      · rfl
      · rfl

theorem ingestAdded_eq (present : peerId ∈ engine.links)
    (entries : List PeerEntry) (nowMs : Nat) :
    ingestAdded engine peerId entries nowMs =
      .ok (engine.ingestAdded peerId entries nowMs) := by
  have ingested := GuardedMachine.run_eq_ok_of_invariant
    (fun engine : PexEngine => peerId ∈ engine.links) present
    (fun state entry => (PexEngine.ingestEntry_frame state peerId
      (nowMs / 1000) entry).present)
    (fun state entry present => ingestEntry_eq present _ entry) entries
  rw [ingestAdded, ingested, Except.ok_bind]
  rfl

theorem ingestDropped_eq (present : peerId ∈ engine.links)
    (dropped : List String) :
    ingestDropped engine peerId dropped =
      .ok (engine.ingestDropped peerId dropped) := by
  have ingested := GuardedMachine.run_eq_ok_of_invariant
    (fun engine : PexEngine => peerId ∈ engine.links) present
    (fun state id => (PexEngine.ingestDroppedId_frame state peerId
      id).present)
    (fun state id present => by
      show ingestDroppedId peerId state id = _
      unfold ingestDroppedId PexEngine.ingestDroppedId
      simp only [indexLink_of_mem present, Except.ok_bind]
      split <;> rfl) dropped
  rw [ingestDropped, ingested, Except.ok_bind]
  rfl

theorem onSnapshot_eq (present : peerId ∈ engine.links)
    (small : (engine.link peerId).strikes + 1 < 2 ^ 32)
    (peers : List PeerEntry) (nowMs : Nat) :
    onSnapshot engine peerId peers nowMs =
      .ok (engine.onSnapshot peerId peers nowMs) := by
  unfold onSnapshot PexEngine.onSnapshot
  simp only [indexLink_of_mem present, Except.ok_bind,
    strike_eq present small]
  cases (engine.link peerId).phase with
  | awaitingSnapshot =>
      dsimp only
      split
      · rfl
      · rw [ingestAdded_eq (by simp)]
  | _ => rfl

theorem onDelta_eq (present : peerId ∈ engine.links)
    (small : (engine.link peerId).strikes + 1 < 2 ^ 32)
    (added : List PeerEntry) (dropped : List String) (nowMs : Nat) :
    onDelta engine peerId added dropped nowMs =
      .ok (engine.onDelta peerId added dropped nowMs) := by
  unfold onDelta PexEngine.onDelta
  simp only [indexLink_of_mem present, Except.ok_bind,
    strike_eq present small, arrivalFloorMs_eq]
  cases (engine.link peerId).phase with
  | streaming =>
      dsimp only
      split_ifs
      · rfl
      · rfl
      · rfl
      · have arrived : ∀ link, peerId ∈ (engine.setLink peerId link).links :=
          fun link => by simp
        have ingested := fun link => (PexEngine.ingestAdded_frame
          (engine.setLink peerId link) peerId added nowMs).present
            (arrived link)
        rw [ingestAdded_eq (arrived _), Except.ok_bind,
          ingestDropped_eq (ingested _), Except.ok_bind]
        rfl
  | _ => rfl

/-- An inbound message passes every check: its link is created first, and only
an unmuted direction takes a strike. -/
theorem onMessage_eq
    (typed : (engine.link peerId).selfIntervalSecs < 2 ^ 32)
    (unmuted : (engine.link peerId).muted = false →
      (engine.link peerId).strikes < pexViolationLimit)
    (message : PexMessage) (nowMs : Nat) :
    onMessage engine peerId message nowMs =
      .ok (engine.onMessage peerId message nowMs) := by
  have present : peerId ∈ (engine.ensureLink peerId).links := by simp
  unfold onMessage PexEngine.onMessage
  by_cases muted : (engine.link peerId).muted = true
  · simp [muted]
  · simp only [Bool.not_eq_true] at muted
    have small : ((engine.ensureLink peerId).link peerId).strikes + 1 <
        2 ^ 32 := by
      have few := unmuted muted
      rw [PexEngine.link_ensureLink]
      simp only [pexViolationLimit] at few
      omega
    have typed : ((engine.ensureLink peerId).link peerId).selfIntervalSecs <
        2 ^ 32 := by
      rwa [PexEngine.link_ensureLink]
    simp only [PexEngine.link_ensureLink, muted, Bool.false_eq_true,
      if_false]
    cases message with
    | pexError code text => exact onPexError_eq present typed code nowMs
    | pexHandshake version networkId declared flags =>
        exact onHandshake_eq present small version networkId declared
    | pexSnapshot peers => exact onSnapshot_eq present small peers nowMs
    | pexDelta added dropped =>
        exact onDelta_eq present small added dropped nowMs

end Checked

/-! ## What a run cannot leave -/

/-- The fields a link's sums are made of, after a number of violations
recorded in its lifetime. -/
structure Bounded (recorded : Nat) (link : LinkState) : Prop where
  lastSend : link.lastDataSendMs.getD 0 ≤ clockBound
  jitter : link.sendJitterMs ≤ pexMaxInterval * 100
  interval : link.selfIntervalSecs < 2 ^ 32
  unmuted : link.muted = false → link.strikes < pexViolationLimit
  strikes : link.strikes ≤ pexViolationLimit + recorded

namespace Checked

variable {engine : PexEngine} {peerId : String}

/-! ## Sending -/

/-- The last send, the longest interval and the longest jitter add up to at
most the greatest 64-bit number. -/
theorem sendDue_eq {recorded : Nat} {link : LinkState}
    (bounded : Bounded recorded link) (nowMs : Nat) :
    sendDue link nowMs = .ok (link.sendDue nowMs) := by
  have effective := effectiveIntervalSecs_le_max link.selfIntervalSecs
    link.remoteDeclaredSecs
  have lastSend := bounded.lastSend
  have jitter := bounded.jitter
  simp only [pexMaxInterval, clockBound] at effective lastSend jitter
  rw [sendDue, Nat.mulFits_of_lt (by omega), fits, Except.ok_bind,
    Nat.addFits_of_lt (by omega), fits, Except.ok_bind,
    Nat.addFits_of_lt (by omega), fits, Except.ok_bind]
  rfl

variable [DefaultHasher]

theorem buildDelta_eq (present : peerId ∈ engine.links)
    (knownOrder toldOrder : IterationOrder String) (nowSecs : Nat) :
    buildDelta engine knownOrder toldOrder peerId nowSecs =
      .ok (engine.buildDelta knownOrder toldOrder peerId nowSecs) := by
  rw [buildDelta, indexLink_of_mem present, Except.ok_bind,
    advertisableFor_eq, Except.ok_bind]
  rfl

theorem linkUp_eq (engine : PexEngine) (peerId : String) (nowMs : Nat)
    (order : IterationOrder String) (jitter : Jitter) :
    linkUp engine peerId nowMs order jitter =
      .ok (engine.linkUp peerId nowMs order jitter) := by
  have declared : engine.links[peerId]?.bind LinkState.remoteDeclaredSecs =
      (engine.link peerId).remoteDeclaredSecs := by
    rw [PexEngine.link_eq_getD]
    cases engine.links[peerId]? <;> rfl
  rw [linkUp]
  simp only [advertisableFor_eq, trimToFrameBudget_eq, Except.ok_bind,
    declared]
  rw [drawJitter_eq _ _ (effectiveIntervalSecs_le_max _ _), Except.ok_bind]
  rfl

omit [DefaultHasher] in
theorem links_advertisableFor (engine : PexEngine)
    (order : IterationOrder String) (partner : String) (nowSecs : Nat) :
    (engine.advertisableFor order partner nowSecs).2.links = engine.links ∧
      (engine.advertisableFor order partner nowSecs).2.cfg = engine.cfg :=
  ⟨PexEngine.links_advertisableCached engine order nowSecs,
    (PexEngine.SendFrame.cached engine).cfg⟩

theorem tickLink_eq (present : peerId ∈ engine.links) {recorded : Nat}
    (bounded : Bounded recorded (engine.link peerId)) (nowMs : Nat)
    (orders : TickOrders) (jitter : String → Jitter) :
    tickLink nowMs orders jitter engine peerId =
      .ok (PexEngine.tickLink nowMs orders jitter engine peerId) := by
  unfold tickLink PexEngine.tickLink
  simp only [indexLink_of_mem present, Except.ok_bind, sendDue_eq bounded,
    buildDelta_eq present]
  cases (engine.link peerId).snapshotSent with
  | false => rfl
  | true =>
      cases (engine.link peerId).sendDue nowMs with
      | false => rfl
      | true =>
          simp only [Bool.not_true, Bool.false_eq_true, if_false, Bool.or_self]
          have built : (engine.buildDelta orders.known (orders.told peerId)
                peerId (nowMs / 1000)).2.links = engine.links ∧
              (engine.buildDelta orders.known (orders.told peerId)
                peerId (nowMs / 1000)).2.cfg = engine.cfg :=
            links_advertisableFor engine orders.known peerId (nowMs / 1000)
          generalize engine.buildDelta orders.known (orders.told peerId)
            peerId (nowMs / 1000) = delta at built ⊢
          obtain ⟨links, cfg⟩ := built
          have there : peerId ∈ delta.2.links := by rwa [links]
          have same : delta.2.link peerId = engine.link peerId :=
            PexEngine.link_congr (by rw [links]) cfg
          split
          · rfl
          · rw [indexLink_of_mem there, Except.ok_bind, same,
              drawJitter_eq _ _ (effectiveIntervalSecs_le_max _ _),
              Except.ok_bind, indexLink_of_mem (by simp), Except.ok_bind,
              PexEngine.link_setLink_self, PexEngine.setLink_setLink]
            rfl

theorem tick_eq {recorded : String → Nat}
    (bounded : ∀ id, Bounded (recorded id) (engine.link id)) (nowMs : Nat)
    (orders : TickOrders) (jitter : String → Jitter) :
    tick engine nowMs orders jitter =
      .ok (engine.tick nowMs orders jitter) := by
  have distinct : (orders.links.arrange engine.links.keys).Nodup :=
    (orders.links.perm _).nodup_iff.mpr Std.ExtTreeMap.nodup_keys
  have agrees : (PexEngine.tickLink nowMs orders jitter).Along
      (fun state id => tickLink nowMs orders jitter state id =
        .ok (PexEngine.tickLink nowMs orders jitter state id))
      engine (orders.links.arrange engine.links.keys) := by
    apply (Machine.along_iff _ _ _).mpr
    intro earlier id later split
    rw [split] at distinct
    obtain ⟨earlierDistinct, _, apart⟩ := List.nodup_append.mp distinct
    have visited : ∀ other ∈ earlier ++ id :: later,
        other ∈ engine.links := by
      rw [← split]
      intro other member
      exact (PexEngine.mem_arrange_links engine orders.links).mp member
    have unvisited : id ∉ earlier := fun member =>
      apart id member id List.mem_cons_self rfl
    obtain ⟨frame, links, _⟩ := PexEngine.tickLoop_spec nowMs orders jitter
      earlier earlierDistinct engine
      (fun other member => visited other (List.mem_append_left _ member))
    have lookup := links id
    rw [if_neg unvisited] at lookup
    have same := PexEngine.link_congr lookup frame.cfg
    have present : id ∈ ((PexEngine.tickLink nowMs orders jitter).final
        engine earlier).links := by
      have before := PexEngine.getElem?_eq_some_link
        (visited id (by simp))
      rw [before] at lookup
      exact FiniteMap.mem_iff_lookup.mpr ⟨_, lookup⟩
    exact tickLink_eq present (by rw [same]; exact bounded id) nowMs orders
      jitter
  rw [tick, GuardedMachine.run_eq_ok agrees, Except.ok_bind]
  rfl

end Checked

/-! ## Runs -/

/-- The violations recorded on a link after one more inbound event. -/
def Inbound.recorded (before : Nat) : Inbound → Nat
  | .down => 0
  | .fault _ => before + 1
  | .message _ _ => before

/-- The violations recorded on a link since it last went down. -/
def recordedViolations (peerId : String) (calls : List Call) : Nat :=
  (calls.filterMap (Call.inbound peerId)).foldl Inbound.recorded 0

theorem recordedViolations_concat (peerId : String) (calls : List Call)
    (call : Call) :
    recordedViolations peerId (calls ++ [call]) =
      match call.inbound peerId with
      | some event => event.recorded (recordedViolations peerId calls)
      | none => recordedViolations peerId calls := by
  rw [recordedViolations, List.filterMap_append, List.foldl_append]
  cases inbound : call.inbound peerId <;> simp [inbound, recordedViolations]

theorem Bounded.new {interval : Nat} (typed : interval < 2 ^ 32)
    (recorded : Nat) : Bounded recorded (LinkState.new interval) :=
  { lastSend := Nat.zero_le _
    jitter := Nat.zero_le _
    interval := typed
    unmuted := fun _ => Nat.succ_pos _
    strikes := Nat.zero_le _ }

/-- An unmuted direction is below the limit, and only recorded violations take
a direction past it. -/
structure Direction.StrikesWithin (recorded : Nat) (direction : Direction) :
    Prop where
  unmuted : direction.muted = false → direction.strikes < pexViolationLimit
  strikes : direction.strikes ≤ pexViolationLimit + recorded

namespace Direction.StrikesWithin

variable {direction : Direction} {recorded : Nat}

theorem strike (room : direction.strikes < pexViolationLimit + recorded) :
    (direction.penalize 1 direction.strikeMutes).StrikesWithin recorded := by
  constructor
  · intro unmuted
    simp only [Direction.penalize, Direction.strikeMutes, Bool.or_eq_false_iff,
      decide_eq_false_iff_not, Nat.not_le] at unmuted ⊢
    exact unmuted.2
  · exact room

theorem receive (within : direction.StrikesWithin recorded)
    (network : String) (event : Inbound) :
    (direction.receive network event).StrikesWithin
      (event.recorded recorded) := by
  cases event with
  | down => exact ⟨fun _ => Nat.succ_pos _, Nat.zero_le _⟩
  | fault code =>
      exact strike (Nat.lt_succ_of_le within.strikes)
  | message message nowMs =>
      have ignored := Direction.judge_eq_ignored_iff direction network message
        nowMs
      simp only [Direction.receive, Inbound.recorded]
      cases verdict : direction.judge network message nowMs with
      | ignored => exact within
      | accepted => cases message <;> exact ⟨within.unmuted, within.strikes⟩
      | struck code =>
          rw [verdict] at ignored
          have unmuted : direction.muted = false := by
            simpa using mt ignored.mpr (by simp)
          have below := within.unmuted unmuted
          exact strike (by omega)
      | mismatched code =>
          refine ⟨fun unmuted => ?_, within.strikes⟩
          simp [Direction.conclude, Direction.penalize] at unmuted

end Direction.StrikesWithin

theorem Call.sendMs_le {call : Call} {bound : Nat}
    (clock : ∀ nowMs, call.clockMs = some nowMs → nowMs ≤ bound) :
    call.sendMs ≤ bound := by
  cases call with
  | linkUp opened nowMs order jitter => exact clock nowMs rfl
  | tick nowMs orders jitter => exact clock nowMs rfl
  | _ => exact Nat.zero_le _

variable [DefaultHasher]

theorem Bounded.step {engine : PexEngine} {peerId : String} {recorded : Nat}
    (bounded : Bounded recorded (engine.link peerId))
    (typed : engine.cfg.interval < 2 ^ 32) {call : Call}
    (clock : ∀ nowMs, call.clockMs = some nowMs → nowMs ≤ clockBound)
    (measured : Measured ((engineStep engine call).1.link peerId)) :
    Bounded
      (match call.inbound peerId with
      | some event => event.recorded recorded
      | none => recorded)
      ((engineStep engine call).1.link peerId) := by
  by_cases down : call = .linkDown peerId
  · subst down
    simp only [engineStep, PexEngine.link_linkDown, if_true]
    exact .new typed _
  · have sent := sendClock_engineStep engine down
    have pace := pace_engineStep engine down
    have direction := direction_engineStep engine call peerId
    have within : (engine.link peerId).direction.StrikesWithin recorded :=
      ⟨bounded.unmuted, bounded.strikes⟩
    generalize (engineStep engine call).1.link peerId = after at *
    have strikes : after.direction.StrikesWithin
        (match call.inbound peerId with
        | some event => event.recorded recorded
        | none => recorded) := by
      rw [direction]
      cases call.inbound peerId with
      | none => exact within
      | some event => exact within.receive _ event
    refine ⟨?_, ?_, ?_, strikes.unmuted, strikes.strikes⟩
    · have last : after.lastDataSendMs = after.sendClock.2.1 := rfl
      rw [last, sent]
      split
      · exact Call.sendMs_le clock
      · exact bounded.lastSend
    · have effective := Checked.effectiveIntervalSecs_le_max
        after.selfIntervalSecs after.remoteDeclaredSecs
      exact measured.jitter.trans (Nat.mul_le_mul_right _ effective)
    · have interval : after.selfIntervalSecs = after.pace.1 := rfl
      rw [interval, pace]
      split
      · exact typed
      · split
        · have longest := (Checked.clampInterval_bounds
            (min ((engine.link peerId).selfIntervalSecs * 2)
              pexMaxInterval)).2
          simp only [pexMaxInterval] at longest
          simp only [backedOffInterval, pexMaxInterval]
          omega
        · exact bounded.interval

theorem bounded_final {cfg : PexConfig} (typed : cfg.interval < 2 ^ 32)
    {calls : List Call}
    (clocks : ∀ call ∈ calls, ∀ nowMs, call.clockMs = some nowMs →
      nowMs ≤ clockBound) (peerId : String) :
    Bounded (recordedViolations peerId calls)
      ((engineStep.final (.new cfg) calls).link peerId) := by
  induction calls using List.reverseRecOn with
  | nil =>
      rw [Machine.final_nil, PexEngine.link_new]
      exact .new typed _
  | append_singleton calls call induction =>
      have before := induction fun call member =>
        clocks call (List.mem_append_left _ member)
      have measured := measured_final cfg (calls ++ [call]) peerId
      rw [Machine.final_concat] at measured ⊢
      rw [recordedViolations_concat]
      apply before.step
      · rw [cfg_final]
        exact typed
      · exact clocks call (List.mem_append_right _ List.mem_cons_self)
      · exact measured

/-- A call passes every check when the fields of every link are within their
bounds. -/
theorem Checked.engineStep_eq {engine : PexEngine} {recorded : String → Nat}
    (bounded : ∀ peerId, Bounded (recorded peerId) (engine.link peerId))
    {call : Call}
    (room : ∀ peerId code nowMs,
      call = .recordViolation peerId code nowMs → recorded peerId < 2 ^ 31) :
    Checked.engineStep engine call = .ok (DigPex.engineStep engine call) := by
  cases call with
  | upsertKnown entry => rfl
  | removeKnown id => rfl
  | linkUp opened nowMs order jitter =>
      rw [engineStep]
      simp only [linkUp_eq, Except.ok_bind]
      rfl
  | linkDown closed => rfl
  | onMessage source message nowMs =>
      rw [engineStep]
      simp only [onMessage_eq (bounded source).interval
        (bounded source).unmuted, Except.ok_bind]
      rfl
  | recordViolation source code nowMs =>
      have few := room source code nowMs rfl
      have strikes := (bounded source).strikes
      simp only [pexViolationLimit] at strikes
      rw [engineStep]
      simp only [recordViolation]
      rw [strike_eq (by simp) (by
        rw [PexEngine.link_ensureLink]
        omega), Except.ok_bind]
      rfl
  | tick nowMs orders jitter =>
      rw [engineStep]
      simp only [tick_eq bounded, Except.ok_bind]
      rfl

/-- No sequence of inputs makes the engine panic.  In every run from an engine
of any configuration, over any calls in any order, with clock values up to
`clockBound` and at most `2 ^ 31` violations recorded on a link in one of its
lifetimes, every link that is indexed is there and no arithmetic leaves its
type: the checked engine does what the engine does. -/
theorem no_panic (cfg : PexConfig) (typed : cfg.interval < 2 ^ 32)
    (calls : List Call)
    (clocks : ∀ call ∈ calls, ∀ nowMs, call.clockMs = some nowMs →
      nowMs ≤ clockBound)
    (recorded : ∀ peerId earlier, earlier <+: calls →
      recordedViolations peerId earlier ≤ 2 ^ 31) :
    Checked.engineStep.run (.new cfg) calls =
      .ok (engineStep.final (.new cfg) calls,
        engineStep.outputs (.new cfg) calls) := by
  apply GuardedMachine.run_eq_ok
  apply (Machine.along_iff _ _ _).mpr
  rintro earlier call later rfl
  apply Checked.engineStep_eq
  · intro peerId
    exact bounded_final typed
      (fun call member => clocks call (List.mem_append_left _ member)) peerId
  · rintro peerId code nowMs rfl
    have counted := recorded peerId
      (earlier ++ [.recordViolation peerId code nowMs]) ⟨later, by simp⟩
    rw [recordedViolations_concat, Call.inbound, if_pos rfl] at counted
    exact counted

omit [DefaultHasher] in
theorem recordedViolations_le_length (peerId : String) (calls : List Call) :
    recordedViolations peerId calls ≤ calls.length := by
  induction calls using List.reverseRecOn with
  | nil => exact le_refl _
  | append_singleton calls call induction =>
      rw [recordedViolations_concat, List.length_append]
      cases call.inbound peerId with
      | none => exact Nat.le_succ_of_le induction
      | some event =>
          cases event with
          | down => exact Nat.zero_le _
          | fault code => exact Nat.succ_le_succ induction
          | message message nowMs => exact Nat.le_succ_of_le induction

omit [DefaultHasher] in
/-- A clock that runs backwards from its bound, over a link that is taken down
and reported on. -/
theorem no_panic_backwards :
    let cfg := exampleConfig (exampleId 'a')
    let peerId := exampleId 'b'
    let calls : List Call := [
      .recordViolation peerId .badMessage 0,
      .linkUp peerId clockBound .ascending .zero,
      .upsertKnown (exampleEntry 'c' (clockBound / 1000) 9444),
      .onMessage peerId (.pexHandshake 1 "network" 4294967295 []) 5,
      .tick 0 exampleOrders fun _ => .zero,
      .linkDown peerId,
      .onMessage peerId (.pexSnapshot []) 0,
      .tick clockBound exampleOrders fun _ => .zero]
    (@Checked.engineStep sipHasher).run (.new cfg) calls =
      .ok ((@engineStep sipHasher).final (.new cfg) calls,
        (@engineStep sipHasher).outputs (.new cfg) calls) := by
  intro cfg peerId calls
  refine @no_panic sipHasher cfg (by decide) calls ?_ ?_
  · simp [calls, Call.clockMs, clockBound]
  · intro id earlier before
    have counted := recordedViolations_le_length id earlier
    have shorter := before.length_le
    simp only [calls, List.length_cons, List.length_nil] at shorter
    omega

/-- A draw of the longest jitter. -/
def longestJitter : Jitter :=
  { draw := fun effectiveSecs => effectiveSecs * 100
    bounded := fun _ => le_refl _ }

/-- One millisecond past the bound, the longest interval and the longest
jitter do overflow. -/
example :
    let cfg : PexConfig :=
      { exampleConfig "local" with
        interval := 3600
        jitter := true }
    let calls : Nat → List Call := fun nowMs => [
      .linkUp "peer" nowMs .ascending longestJitter,
      .tick 0 exampleOrders fun _ => longestJitter]
    ((@Checked.engineStep sipHasher).run (.new cfg)
        (calls clockBound)).isOk = true ∧
      ((@Checked.engineStep sipHasher).run (.new cfg)
        (calls (clockBound + 1))).isOk = false := by
  decide +kernel

end DigPex
