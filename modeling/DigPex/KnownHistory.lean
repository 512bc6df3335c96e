import DigPex.Steps

/-!
# The first-hand set over a run

The first-hand set is a function of the `upsert_known` and `remove_known`
calls alone, and while there are fewer than `2 ^ 64` of them the epoch tells
whether the cached base list is current.
-/

namespace DigPex

/-- The first-hand set after a call. -/
def KnownSet.after (localPeerId : String) (known : KnownSet) :
    Call → KnownSet
  | .upsertKnown entry =>
      if entry.peerId = localPeerId then known else known.insert entry
  | .removeKnown peerId => known.remove peerId
  | _ => known

namespace Call

/-- Whether a call counts as a change of the first-hand set. -/
def changesKnown (localPeerId : String) : Call → Bool
  | .upsertKnown entry => entry.peerId ≠ localPeerId
  | .removeKnown _ => true
  | _ => false

/-- Whether a call is an `upsert_known` or `remove_known` of an id. -/
def writes (id : String) : Call → Prop
  | .upsertKnown entry => entry.peerId = id
  | .removeKnown peerId => peerId = id
  | _ => False

end Call

/-- The number of changes of the first-hand set in a run. -/
def knownChanges (localPeerId : String) (calls : List Call) : Nat :=
  calls.countP (Call.changesKnown localPeerId)

theorem KnownSet.after_of_not_changes {localPeerId : String} {call : Call}
    (same : call.changesKnown localPeerId = false) (known : KnownSet) :
    known.after localPeerId call = known := by
  cases call with
  | upsertKnown entry =>
      apply if_pos
      simpa [Call.changesKnown] using same
  | removeKnown id => simp [Call.changesKnown] at same
  | _ => rfl

variable [DefaultHasher]

omit [DefaultHasher] in
theorem onMessage_advertising (engine : PexEngine) (peerId : String)
    (message : PexMessage) (nowMs : Nat) :
    let after := (engine.onMessage peerId message nowMs).1
    after.known = engine.known ∧ after.knownEpoch = engine.knownEpoch ∧
      after.advertisableCache = engine.advertisableCache := by
  simp only [PexEngine.onMessage_eq]
  cases (engine.link peerId).direction.judge engine.cfg.networkId message
    nowMs with
  | ignored => exact ⟨rfl, rfl, rfl⟩
  | accepted =>
      have frame := PexEngine.accept_frame engine peerId message nowMs
      exact ⟨frame.known, frame.knownEpoch, frame.cache⟩
  | struck code => exact ⟨rfl, rfl, rfl⟩
  | mismatched code => exact ⟨rfl, rfl, rfl⟩

theorem known_engineStep (engine : PexEngine) (call : Call) :
    (engineStep engine call).1.known =
      engine.known.after engine.cfg.localPeerId call := by
  cases call with
  | upsertKnown entry =>
      simp only [engineStep, PexEngine.upsertKnown, KnownSet.after]
      split <;> rfl
  | removeKnown id => rfl
  | linkUp opened nowMs order jitter =>
      exact (PexEngine.linkUp_frame engine opened nowMs order jitter).known
  | linkDown closed => rfl
  | onMessage source message nowMs =>
      exact (onMessage_advertising engine source message nowMs).1
  | recordViolation source code nowMs =>
      simp only [engineStep, PexEngine.recordViolation_eq]
      rfl
  | tick nowMs orders jitter =>
      exact (PexEngine.tick_frame nowMs orders jitter engine).known

theorem knownEpoch_engineStep (engine : PexEngine) (call : Call) :
    (engineStep engine call).1.knownEpoch =
      if call.changesKnown engine.cfg.localPeerId then
        (engine.knownEpoch + 1) % 2 ^ 64
      else
        engine.knownEpoch := by
  cases call with
  | upsertKnown entry =>
      simp only [engineStep, PexEngine.upsertKnown, Call.changesKnown]
      split <;> simp_all [PexEngine.bumpEpoch]
  | removeKnown id => rfl
  | linkUp opened nowMs order jitter =>
      exact (PexEngine.linkUp_frame engine opened nowMs order
        jitter).knownEpoch
  | linkDown closed => rfl
  | onMessage source message nowMs =>
      exact (onMessage_advertising engine source message nowMs).2.1
  | recordViolation source code nowMs =>
      simp only [engineStep, PexEngine.recordViolation_eq]
      rfl
  | tick nowMs orders jitter =>
      exact (PexEngine.tick_frame nowMs orders jitter engine).knownEpoch

theorem advertisableCache_engineStep (engine : PexEngine) (call : Call) :
    let after := (engineStep engine call).1
    after.advertisableCache = engine.advertisableCache ∨
      call.changesKnown engine.cfg.localPeerId = false ∧
        ∃ order nowSecs, after.advertisableCache =
          some (engine.knownEpoch, nowSecs,
            (engine.advertisableCached order nowSecs).1) := by
  cases call with
  | upsertKnown entry =>
      left
      simp only [engineStep, PexEngine.upsertKnown]
      split <;> rfl
  | removeKnown id => exact .inl rfl
  | linkUp opened nowMs order jitter =>
      rcases (PexEngine.linkUp_frame engine opened nowMs order jitter).cache
        with same | rebuilt
      · exact .inl same
      · exact .inr ⟨rfl, order, nowMs / 1000, rebuilt⟩
  | linkDown closed => exact .inl rfl
  | onMessage source message nowMs =>
      exact .inl (onMessage_advertising engine source message nowMs).2.2
  | recordViolation source code nowMs =>
      left
      simp only [engineStep, PexEngine.recordViolation_eq]
      rfl
  | tick nowMs orders jitter =>
      rcases (PexEngine.tick_frame nowMs orders jitter engine).cache
        with same | rebuilt
      · exact .inl same
      · exact .inr ⟨rfl, orders.known, nowMs / 1000, rebuilt⟩

/-- The epoch counts changes modulo `2 ^ 64`, and a cached list built at the
present count is the current one. -/
structure CacheLedger (changes : Nat) (engine : PexEngine) : Prop where
  epoch : engine.knownEpoch = changes % 2 ^ 64
  cached : ∀ epoch nowSecs base,
    engine.advertisableCache = some (epoch, nowSecs, base) →
      ∃ built ≤ changes, epoch = built % 2 ^ 64 ∧
        (built = changes → ∀ order, base = advertisableBase engine.known
          engine.cfg.localPeerId order nowSecs)

omit [DefaultHasher] in
theorem CacheLedger.current {changes : Nat} {engine : PexEngine}
    (few : changes < 2 ^ 64) (ledger : CacheLedger changes engine) :
    engine.CacheCurrent := by
  intro nowSecs base cached
  obtain ⟨built, earlier, epoch, current⟩ := ledger.cached _ _ _ cached
  apply current
  have same := ledger.epoch.symm.trans epoch
  omega

theorem CacheLedger.step {changes : Nat} {engine : PexEngine} (call : Call)
    (few : changes < 2 ^ 64) (ledger : CacheLedger changes engine) :
    CacheLedger
      (changes + if call.changesKnown engine.cfg.localPeerId then 1 else 0)
      (engineStep engine call).1 := by
  constructor
  · rw [knownEpoch_engineStep, ledger.epoch]
    split <;> omega
  · intro epoch nowSecs base cached
    cases changed : call.changesKnown engine.cfg.localPeerId with
    | true =>
        rcases advertisableCache_engineStep engine call with same | rebuilt
        · rw [same] at cached
          obtain ⟨built, earlier, builtEpoch, _⟩ := ledger.cached _ _ _ cached
          simp only [if_true]
          exact ⟨built, by omega, builtEpoch, fun late => by omega⟩
        · rw [changed] at rebuilt
          cases rebuilt.1
    | false =>
        have known := known_engineStep engine call
        rw [KnownSet.after_of_not_changes changed] at known
        simp only [Bool.false_eq_true, if_false, Nat.add_zero, known,
          cfg_engineStep]
        rcases advertisableCache_engineStep engine call with
          same | ⟨_, order, builtSecs, rebuilt⟩
        · rw [same] at cached
          exact ledger.cached _ _ _ cached
        · rw [rebuilt] at cached
          cases cached
          refine ⟨changes, le_refl _, ledger.epoch, fun _ other => ?_⟩
          rw [(ledger.current few).advertisableCached_fst]
          exact advertisableBase_eq _ _ _ _ _

theorem cacheLedger_final (cfg : PexConfig) (calls : List Call)
    (few : knownChanges cfg.localPeerId calls < 2 ^ 64) :
    CacheLedger (knownChanges cfg.localPeerId calls)
      (engineStep.final (PexEngine.new cfg) calls) := by
  induction calls using List.reverseRecOn with
  | nil => exact ⟨rfl, by simp [PexEngine.new]⟩
  | append_singleton calls call induction =>
      have grown : knownChanges cfg.localPeerId (calls ++ [call]) =
          knownChanges cfg.localPeerId calls +
            if call.changesKnown cfg.localPeerId then 1 else 0 := by
        simp [knownChanges, List.countP_singleton]
      have earlier : knownChanges cfg.localPeerId calls < 2 ^ 64 := by omega
      have sameCfg := cfg_final (PexEngine.new cfg) calls
      have stepped := (induction earlier).step call earlier
      rw [grown, Machine.final_concat]
      rw [sameCfg] at stepped
      exact stepped

theorem cacheCurrent_final (cfg : PexConfig) (calls : List Call)
    (few : knownChanges cfg.localPeerId calls < 2 ^ 64) :
    (engineStep.final (PexEngine.new cfg) calls).CacheCurrent :=
  (cacheLedger_final cfg calls few).current few

omit [DefaultHasher] in
theorem KnownSet.localPeerId_notMem_after {localPeerId : String}
    {known : KnownSet} (absent : localPeerId ∉ known.entries) (call : Call) :
    localPeerId ∉ (known.after localPeerId call).entries := by
  cases call with
  | upsertKnown entry =>
      simp only [after, insert]
      split
      · exact absent
      · grind
  | removeKnown id =>
      simp only [after, remove]
      grind
  | _ => exact absent

theorem localPeerId_notMem_known (cfg : PexConfig) (calls : List Call) :
    cfg.localPeerId ∉
      (engineStep.final (PexEngine.new cfg) calls).known.entries := by
  induction calls using List.reverseRecOn with
  | nil => simp [PexEngine.new, KnownSet.empty]
  | append_singleton calls call induction =>
      rw [Machine.final_concat, known_engineStep, cfg_final]
      exact KnownSet.localPeerId_notMem_after induction call

/-- What the first-hand set holds for an id is the last upsert of the id, and
the id was not removed since. -/
theorem known_lastUpsert (cfg : PexConfig) (calls : List Call)
    {id : String} {entry : PeerEntry}
    (lookup : (engineStep.final (PexEngine.new cfg) calls).known.entries[id]? =
      some entry) :
    ∃ earlier later, calls = earlier ++ .upsertKnown entry :: later ∧
      entry.peerId = id ∧ ∀ call ∈ later, ¬call.writes id := by
  induction calls using List.reverseRecOn with
  | nil => simp [PexEngine.new, KnownSet.empty] at lookup
  | append_singleton calls call induction =>
      rw [Machine.final_concat, known_engineStep] at lookup
      have extend : ¬call.writes id →
          (engineStep.final (PexEngine.new cfg) calls).known.entries[id]? =
            some entry →
          ∃ earlier later, calls ++ [call] =
              earlier ++ .upsertKnown entry :: later ∧
            entry.peerId = id ∧ ∀ call ∈ later, ¬call.writes id := by
        intro untouched before
        obtain ⟨earlier, later, rfl, same, quiet⟩ := induction before
        refine ⟨earlier, later ++ [call], by simp, same, ?_⟩
        intro other member
        rcases List.mem_append.mp member with old | new
        · exact quiet other old
        · rw [List.mem_singleton.mp new]
          exact untouched
      cases call with
      | upsertKnown upserted =>
          by_cases same : upserted.peerId = id
          · simp only [KnownSet.after] at lookup
            split at lookup
            · rename_i selfId
              have absent := localPeerId_notMem_known cfg calls
              rw [cfg_final] at selfId
              have selfNew : id = cfg.localPeerId := same.symm.trans selfId
              subst selfNew
              grind
            · subst same
              simp only [KnownSet.insert,
                Std.ExtTreeMap.getElem?_insert_self, Option.some.injEq]
                at lookup
              subst lookup
              exact ⟨calls, [], rfl, rfl, by simp⟩
          · refine extend same ?_
            simp only [KnownSet.after, KnownSet.insert] at lookup
            split at lookup
            · exact lookup
            · simpa [Std.ExtTreeMap.getElem?_insert, same] using lookup
      | removeKnown removed =>
          by_cases same : removed = id
          · subst same
            simp [KnownSet.after, KnownSet.remove] at lookup
          · refine extend same ?_
            simpa [KnownSet.after, KnownSet.remove,
              Std.ExtTreeMap.getElem?_erase, same] using lookup
      | _ => exact extend (by simp [Call.writes]) lookup

end DigPex
