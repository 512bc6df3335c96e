import DigPex.LinkSupport

/-!
# The advertisable base list

What the base list contains, that iteration order does not show in it, and
when the cached copy of it is the current one.
-/

namespace DigPex

theorem isFresh_iff (nowSecs : Nat) (entry : PeerEntry) :
    isFresh nowSecs entry = true ↔
      nowSecs ≤ entry.lastSeen + pexMaxEntryAge := by
  simp only [isFresh, Bool.or_eq_true, decide_eq_true_eq]
  omega

instance : Std.Total AdvertisedBefore :=
  ⟨fun left right => by
    unfold AdvertisedBefore
    rcases le_total left.peerId right.peerId <;> grind⟩

instance : IsTrans PeerEntry AdvertisedBefore :=
  ⟨fun left middle right first second => by
    unfold AdvertisedBefore at *
    have ids := le_trans (a := left.peerId) (b := middle.peerId)
      (c := right.peerId)
    grind⟩

theorem AdvertisedBefore.peerId_eq {left right : PeerEntry}
    (forward : AdvertisedBefore left right)
    (backward : AdvertisedBefore right left) :
    left.peerId = right.peerId := by
  unfold AdvertisedBefore at *
  exact le_antisymm (by grind) (by grind)

theorem mem_advertisableBase {known : KnownSet} {localPeerId : String}
    {order : IterationOrder String} {nowSecs : Nat} {entry : PeerEntry} :
    entry ∈ advertisableBase known localPeerId order nowSecs ↔
      known.entries[entry.peerId]? = some entry ∧
        entry.peerId ≠ localPeerId ∧ isFresh nowSecs entry = true := by
  have sorted := (List.perm_insertionSort AdvertisedBefore
    ((order.values known.entries).filter fun entry =>
      entry.peerId ≠ localPeerId && isFresh nowSecs entry)).mem_iff
    (a := entry)
  simp only [advertisableBase, sorted, List.mem_filter,
    IterationOrder.mem_values, Bool.and_eq_true, decide_eq_true_eq]
  constructor
  · rintro ⟨⟨id, lookup⟩, advertised⟩
    rw [known.keyed id entry lookup]
    exact ⟨lookup, known.keyed id entry lookup ▸ advertised⟩
  · rintro ⟨lookup, advertised⟩
    exact ⟨⟨entry.peerId, lookup⟩, advertised⟩

theorem nodup_map_peerId_values (known : KnownSet)
    (order : IterationOrder String) :
    ((order.values known.entries).map PeerEntry.peerId).Nodup := by
  have keys : ((order.values known.entries).map PeerEntry.peerId).Sublist
      (order.arrange known.entries.keys) := by
    unfold IterationOrder.values
    generalize order.arrange known.entries.keys = ids
    induction ids with
    | nil => simp
    | cons id ids induction =>
        cases lookup : known.entries[id]? with
        | none => simpa [lookup] using induction.cons id
        | some entry =>
            simpa [lookup, known.keyed id entry lookup] using
              induction.cons_cons id
  exact keys.nodup
    ((order.perm _).nodup_iff.mpr Std.ExtTreeMap.nodup_keys)

theorem nodup_map_peerId_advertisableBase (known : KnownSet)
    (localPeerId : String) (order : IterationOrder String)
    (nowSecs : Nat) :
    ((advertisableBase known localPeerId order nowSecs).map
      PeerEntry.peerId).Nodup := by
  have sorted := (List.perm_insertionSort AdvertisedBefore
    ((order.values known.entries).filter fun entry =>
      entry.peerId ≠ localPeerId && isFresh nowSecs entry)).map
    PeerEntry.peerId
  exact sorted.nodup_iff.mpr
    ((nodup_map_peerId_values known order).sublist
      (List.filter_sublist.map _))

/-- The base list is the same for every iteration order of the first-hand
set: it is sorted, and no two entries tie. -/
theorem advertisableBase_eq (known : KnownSet) (localPeerId : String)
    (left right : IterationOrder String) (nowSecs : Nat) :
    advertisableBase known localPeerId left nowSecs =
      advertisableBase known localPeerId right nowSecs := by
  apply @List.Perm.eq_of_pairwise _ AdvertisedBefore
  · intro first second firstMember secondMember forward backward
    have ids := forward.peerId_eq backward
    have firstKnown := (mem_advertisableBase.mp firstMember).1
    have secondKnown := (mem_advertisableBase.mp secondMember).1
    rw [ids, secondKnown] at firstKnown
    exact (Option.some.inj firstKnown).symm
  · exact List.pairwise_insertionSort _ _
  · exact List.pairwise_insertionSort _ _
  · exact (List.perm_insertionSort _ _).trans
      (((left.values_perm right _).filter _).trans
        (List.perm_insertionSort _ _).symm)

namespace PexEngine

theorem advertisableCached_snd (engine : PexEngine)
    (order : IterationOrder String) (nowSecs : Nat) :
    (engine.advertisableCached order nowSecs).2 =
      { engine with
        advertisableCache := some (engine.knownEpoch, nowSecs,
          (engine.advertisableCached order nowSecs).1) } := by
  unfold advertisableCached
  split
  · rename_i epoch cachedSecs base cached
    split
    · rename_i current
      obtain ⟨rfl, rfl⟩ := current
      simp [← cached]
    · rfl
  · rfl

@[simp] theorem advertisableFor_snd (engine : PexEngine)
    (order : IterationOrder String) (partner : String) (nowSecs : Nat) :
    (engine.advertisableFor order partner nowSecs).2 =
      (engine.advertisableCached order nowSecs).2 :=
  rfl

theorem mem_advertisableCached {engine : PexEngine}
    {order : IterationOrder String} {nowSecs : Nat} {entry : PeerEntry}
    (member : entry ∈ (engine.advertisableCached order nowSecs).1) :
    (∃ base, engine.advertisableCache =
        some (engine.knownEpoch, nowSecs, base) ∧ entry ∈ base) ∨
      entry ∈ advertisableBase engine.known engine.cfg.localPeerId order
        nowSecs := by
  unfold advertisableCached at member
  split at member
  · rename_i epoch cachedSecs base cached
    split at member
    · rename_i current
      obtain ⟨rfl, rfl⟩ := current
      exact .inl ⟨base, cached, member⟩
    · exact .inr member
  · exact .inr member

theorem advertisableCached_fst_congr {left right : PexEngine}
    (cfg : left.cfg = right.cfg) (known : left.known = right.known)
    (knownEpoch : left.knownEpoch = right.knownEpoch)
    (cache : left.advertisableCache = right.advertisableCache)
    (order : IterationOrder String) (nowSecs : Nat) :
    (left.advertisableCached order nowSecs).1 =
      (right.advertisableCached order nowSecs).1 := by
  unfold advertisableCached rebuildAdvertisable
  rw [cfg, known, knownEpoch, cache]
  split
  · split <;> rfl
  · rfl

theorem advertisableCached_fst_of_cached {engine : PexEngine}
    {nowSecs : Nat} {base : List PeerEntry}
    (cached : engine.advertisableCache =
      some (engine.knownEpoch, nowSecs, base))
    (order : IterationOrder String) :
    (engine.advertisableCached order nowSecs).1 = base := by
  simp [advertisableCached, cached]

/-- A cache that carries the current epoch holds the current base list. -/
def CacheCurrent (engine : PexEngine) : Prop :=
  ∀ nowSecs base,
    engine.advertisableCache = some (engine.knownEpoch, nowSecs, base) →
      ∀ order, base = advertisableBase engine.known engine.cfg.localPeerId
        order nowSecs

theorem CacheCurrent.advertisableCached_fst {engine : PexEngine}
    (current : engine.CacheCurrent) (order : IterationOrder String)
    (nowSecs : Nat) :
    (engine.advertisableCached order nowSecs).1 =
      advertisableBase engine.known engine.cfg.localPeerId order
        nowSecs := by
  unfold advertisableCached
  split
  · rename_i epoch cachedSecs base cached
    split
    · rename_i same
      obtain ⟨rfl, rfl⟩ := same
      exact current _ _ cached order
    · rfl
  · rfl

theorem mem_advertisableFor {engine : PexEngine}
    {order : IterationOrder String} {partner : String} {nowSecs : Nat}
    {entry : PeerEntry} :
    entry ∈ (engine.advertisableFor order partner nowSecs).1 ↔
      entry ∈ (engine.advertisableCached order nowSecs).1 ∧
        entry.peerId ≠ partner := by
  simp [advertisableFor]

end PexEngine

end DigPex
