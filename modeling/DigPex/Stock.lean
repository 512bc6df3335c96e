import DigPex.ToldState

/-!
# What all advertised entries have in common

A property of every upserted entry is a property of the first-hand set, of the
cached base list and of every entry told to any link, also past the wrap of
the epoch; and no list advertises a peer twice.
-/

namespace DigPex

variable [DefaultHasher] {Good : PeerEntry → Prop}

/-- The property of every entry the engine holds or has told. -/
structure Stocked (Good : PeerEntry → Prop) (engine : PexEngine) : Prop where
  known : ∀ (id : String) (entry : PeerEntry),
    engine.known.entries[id]? = some entry → Good entry
  cached : ∀ epoch nowSecs base,
    engine.advertisableCache = some (epoch, nowSecs, base) →
      ∀ entry ∈ base, Good entry
  told : ∀ peerId id : String, id ∈ (engine.link peerId).told →
    ∃ entry, Good entry ∧ entry.peerId = id

namespace Stocked

variable {engine : PexEngine}

omit [DefaultHasher]

theorem advertisableCached (stocked : Stocked Good engine)
    {order : IterationOrder String} {nowSecs : Nat} {entry : PeerEntry}
    (member : entry ∈ (engine.advertisableCached order nowSecs).1) :
    Good entry := by
  rcases PexEngine.mem_advertisableCached member with
    ⟨base, cached, member⟩ | member
  · exact stocked.cached _ _ _ cached entry member
  · exact stocked.known _ _ (mem_advertisableBase.mp member).1

theorem advertisableFor (stocked : Stocked Good engine)
    {order : IterationOrder String} {partner : String} {nowSecs : Nat}
    {entry : PeerEntry}
    (member : entry ∈ (engine.advertisableFor order partner nowSecs).1) :
    Good entry :=
  stocked.advertisableCached (PexEngine.mem_advertisableFor.mp member).1

end Stocked

theorem Stocked.step {engine : PexEngine} {call : Call}
    (upserted : ∀ entry, call = .upsertKnown entry → Good entry)
    (stocked : Stocked Good engine) :
    Stocked Good (engineStep engine call).1 := by
  refine ⟨?_, ?_, ?_⟩
  · intro id entry lookup
    rw [known_engineStep] at lookup
    cases call with
    | upsertKnown added =>
        simp only [KnownSet.after, KnownSet.insert] at lookup
        split at lookup
        · exact stocked.known id entry lookup
        · by_cases same : added.peerId = id
          · subst same
            rw [Std.ExtTreeMap.getElem?_insert_self] at lookup
            exact upserted entry (by rw [Option.some.inj lookup])
          · exact stocked.known id entry (by grind)
    | removeKnown removed =>
        simp only [KnownSet.after, KnownSet.remove] at lookup
        exact stocked.known id entry (by grind)
    | _ => exact stocked.known id entry lookup
  · intro epoch nowSecs base cached entry member
    rcases advertisableCache_engineStep engine call with
      same | ⟨_, order, builtSecs, rebuilt⟩
    · rw [same] at cached
      exact stocked.cached _ _ _ cached entry member
    · rw [rebuilt] at cached
      cases cached
      exact stocked.advertisableCached member
  · intro peerId id member
    rw [told_engineStep] at member
    split at member
    · simp at member
    · rcases mem_foldl_transcribe member with old | ⟨message, returned, entry,
        carried, rfl⟩
      · exact stocked.told peerId id old
      · obtain ⟨_, listed⟩ :=
          mem_advertisableFor_of_messagesFor returned carried
        exact ⟨entry, stocked.advertisableFor listed, rfl⟩

/-- A property of all upserted entries is a property of all the engine holds
and tells. -/
theorem stocked_final (cfg : PexConfig) (calls : List Call)
    (upserted : ∀ entry, .upsertKnown entry ∈ calls → Good entry) :
    Stocked Good (engineStep.final (PexEngine.new cfg) calls) := by
  induction calls using List.reverseRecOn with
  | nil =>
      refine ⟨?_, ?_, ?_⟩ <;>
        simp [PexEngine.new, KnownSet.empty, PexEngine.link, LinkState.new]
  | append_singleton calls call induction =>
      rw [Machine.final_concat]
      refine (induction fun entry member => ?_).step ?_
      · exact upserted entry (List.mem_append_left _ member)
      · rintro entry rfl
        exact upserted entry (by simp)

namespace PexEngine

/-- The cached list holds one entry for a peer at most. -/
def CacheDistinct (engine : PexEngine) : Prop :=
  ∀ epoch nowSecs base,
    engine.advertisableCache = some (epoch, nowSecs, base) →
      (base.map PeerEntry.peerId).Nodup

namespace CacheDistinct

variable {engine : PexEngine}

omit [DefaultHasher] in
theorem advertisableCached (distinct : engine.CacheDistinct)
    (order : IterationOrder String) (nowSecs : Nat) :
    ((engine.advertisableCached order nowSecs).1.map
      PeerEntry.peerId).Nodup := by
  have built := nodup_map_peerId_advertisableBase engine.known
    engine.cfg.localPeerId order nowSecs
  unfold PexEngine.advertisableCached
  split
  · rename_i cached
    split
    · exact distinct _ _ _ cached
    · exact built
  · exact built

omit [DefaultHasher] in
theorem advertisableFor (distinct : engine.CacheDistinct)
    (order : IterationOrder String) (partner : String) (nowSecs : Nat) :
    ((engine.advertisableFor order partner nowSecs).1.map
      PeerEntry.peerId).Nodup :=
  (distinct.advertisableCached order nowSecs).sublist
    (List.filter_sublist.map _)

theorem step (distinct : engine.CacheDistinct) (call : Call) :
    (engineStep engine call).1.CacheDistinct := by
  intro epoch nowSecs base cached
  rcases advertisableCache_engineStep engine call with
    same | ⟨_, order, builtSecs, rebuilt⟩
  · rw [same] at cached
    exact distinct _ _ _ cached
  · rw [rebuilt] at cached
    cases cached
    exact distinct.advertisableCached order _

end CacheDistinct

theorem cacheDistinct_final (cfg : PexConfig) (calls : List Call) :
    (engineStep.final (PexEngine.new cfg) calls).CacheDistinct := by
  apply engineStep.final_invariant
  · intro epoch nowSecs base cached
    cases cached
  · intro engine call distinct
    exact distinct.step call

end PexEngine

end DigPex
