import DigPex.Draining

/-!
# Which emitted frames fit

A snapshot is trimmed by bytes and always fits.  A delta is capped by entries
only.  So whether every delta fits is decided by the entries the first-hand set
is ever given: any fifty of them must fit together with the ids of any fifty
others, and for a kind of entries where some do not, there is a run whose delta
carries just these.
-/

namespace DigPex

theorem sum_trimFrom_le {used : Nat} (within : used ≤ pexMaxFrame)
    (peers : List PeerEntry) :
    used + ((trimFrom used peers).map fun entry =>
      entry.jsonLength + 1).sum ≤ pexMaxFrame := by
  induction peers generalizing used with
  | nil => simpa [trimFrom] using within
  | cons entry entries induction =>
      unfold trimFrom
      dsimp only
      split
      · rename_i fits
        have rest := induction (of_decide_eq_true fits)
        simp only [List.map_cons, List.sum_cons]
        omega
      · simpa using within

theorem bracketedLength_le (lengths : List Nat) :
    Json.bracketedLength lengths ≤
      2 + (lengths.map fun length => length + 1).sum := by
  induction lengths with
  | nil => simp [Json.bracketedLength]
  | cons length lengths induction =>
      simp only [Json.bracketedLength, List.sum_cons, List.length_cons,
        List.map_cons] at induction ⊢
      omega

theorem snapshot_fits (peers : List PeerEntry) :
    (PexMessage.pexSnapshot (trimToFrameBudget peers)).toJsonBytes.length ≤
      pexMaxFrame := by
  have envelope : (PexMessage.pexSnapshot []).encode.length = 38 := by
    rw [PexMessage.length_encode, PexMessage.length_toJsonBytes_snapshot]
    rfl
  have within : 38 ≤ pexMaxFrame := by decide
  have kept := sum_trimFrom_le within peers
  have items := bracketedLength_le
    ((trimToFrameBudget peers).map PeerEntry.jsonLength)
  simp only [trimToFrameBudget, envelope, List.map_map, Function.comp_def]
    at items
  rw [PexMessage.length_toJsonBytes_snapshot, trimToFrameBudget, envelope]
  omega

variable [DefaultHasher]

/-- Whether the data messages of an event encode within the frame. -/
def FramesFit (event : Call × Response) : Prop :=
  ∀ peerId message, (peerId, message) ∈ emitted event →
    message.isData = true → message.toJsonBytes.length ≤ pexMaxFrame

omit [DefaultHasher] in
/-- The bytes of a delta with these entries and so many dropped ids. -/
def deltaLength (added : List PeerEntry) (dropped : Nat) : Nat :=
  40 + Json.bracketedLength (added.map PeerEntry.jsonLength) +
    Json.bracketedLength (List.replicate dropped 66)

omit [DefaultHasher] in
/-- Up to fifty entries of a kind fit a delta together with the ids of up to
fifty others, whenever no two are about one peer. -/
def AnyFiftyFit (Allowed : PeerEntry → Prop) : Prop :=
  ∀ added gone : List PeerEntry,
    (∀ entry ∈ added ++ gone, Allowed entry) →
    ((added ++ gone).map PeerEntry.peerId).Nodup →
    added.length ≤ 50 → gone.length ≤ 50 →
      deltaLength added gone.length ≤ pexMaxFrame

omit [DefaultHasher] in
theorem length_toJsonBytes_of_hex {added : List PeerEntry}
    {dropped : List String} (hex : ∀ id ∈ dropped, isHex64 id = true) :
    (PexMessage.pexDelta added dropped).toJsonBytes.length =
      deltaLength added dropped.length := by
  have quoted : dropped.map (fun id => (Json.renderString id).length) =
      List.replicate dropped.length 66 := by
    refine List.eq_replicate_iff.mpr ⟨by simp, fun length member => ?_⟩
    obtain ⟨id, listed, rfl⟩ := List.mem_map.mp member
    exact Json.length_renderString_of_isHex64 (hex id listed)
  rw [PexMessage.length_toJsonBytes_delta, quoted]
  rfl

omit [DefaultHasher] in
theorem deltaLength_of_perm {left right : List PeerEntry}
    (same : left.Perm right) (dropped : Nat) :
    deltaLength left dropped = deltaLength right dropped := by
  have sizes := same.map PeerEntry.jsonLength
  simp only [deltaLength, Json.bracketedLength, sizes.sum_eq,
    sizes.length_eq]

/-! ## Entries of which any fifty fit -/

section Sufficient

variable {Allowed : PeerEntry → Prop} {engine : PexEngine}

theorem nodup_deltaAgainst (distinct : engine.CacheDistinct)
    (orders : TickOrders) (peerId : String) (nowSecs : Nat) :
    let delta := (engine.link peerId).deltaAgainst (orders.told peerId)
      (engine.advertisableFor orders.known peerId nowSecs).1
    (delta.1.map PeerEntry.peerId ++ delta.2).Nodup := by
  intro delta
  have advertised := distinct.advertisableFor orders.known peerId nowSecs
  refine List.nodup_append.mpr ⟨?_, ?_, ?_⟩
  · exact advertised.sublist
      (((List.take_sublist _ _).trans List.filter_sublist).map _)
  · exact ((engine.link peerId).deltaAgainst_round (orders.told peerId)
      (engine.advertisableFor orders.known peerId nowSecs).1).distinct
  · intro id added other dropped same
    subst same
    obtain ⟨entry, member, rfl⟩ := List.mem_map.mp added
    exact (mem_deltaAgainst_dropped dropped).2
      (List.mem_map_of_mem (mem_deltaAgainst_added member).1)

omit [DefaultHasher] in
theorem exists_entries {ids : List String}
    (each : ∀ id ∈ ids, ∃ entry, Allowed entry ∧ entry.peerId = id) :
    ∃ entries : List PeerEntry, (∀ entry ∈ entries, Allowed entry) ∧
      entries.map PeerEntry.peerId = ids := by
  induction ids with
  | nil => exact ⟨[], by simp, rfl⟩
  | cons id ids induction =>
      obtain ⟨entry, allowed, rfl⟩ := each id (by simp)
      obtain ⟨entries, others, rfl⟩ := induction fun other member =>
        each other (List.mem_cons_of_mem _ member)
      exact ⟨entry :: entries, by simpa using ⟨allowed, others⟩, rfl⟩

/-- One call returns frames that fit, when any fifty entries of the kind the
engine holds and has told do. -/
theorem framesFit_step
    (hex : ∀ entry, Allowed entry → isHex64 entry.peerId = true)
    (fits : AnyFiftyFit Allowed) (stocked : Stocked Allowed engine)
    (distinct : engine.CacheDistinct) (call : Call) :
    FramesFit (call, (engineStep engine call).2) := by
  cases call with
  | linkUp opened nowMs order jitter =>
      intro peerId message member data
      simp only [engineStep, PexEngine.linkUp_eq, emitted,
        List.map_cons, List.map_nil, List.mem_cons, List.not_mem_nil,
        or_false, Prod.mk.injEq] at member
      rcases member with ⟨_, rfl⟩ | ⟨_, rfl⟩
      · cases data
      · exact snapshot_fits _
  | tick nowMs orders jitter =>
      intro peerId message member _
      obtain ⟨_, delta, due, rfl⟩ := (PexEngine.mem_tick _ _ _).mp member
      obtain ⟨_, _, same, _⟩ := LinkState.dueDelta_eq_some due
      have apart := nodup_deltaAgainst distinct orders peerId (nowMs / 1000)
      have round := (engine.link peerId).deltaAgainst_round
        (orders.told peerId)
        (engine.advertisableFor orders.known peerId (nowMs / 1000)).1
      simp only [← same] at apart round
      have told : ∀ id ∈ delta.2, ∃ entry, Allowed entry ∧
          entry.peerId = id := fun id dropped =>
        stocked.told peerId id (mem_deltaAgainst_dropped (same ▸ dropped)).1
      obtain ⟨gone, others, ids⟩ := exists_entries told
      rw [length_toJsonBytes_of_hex, ← ids, List.length_map]
      · apply fits delta.1 gone
        · intro entry listed
          rcases List.mem_append.mp listed with added | dropped
          · exact stocked.advertisableFor
              (mem_deltaAgainst_added (same ▸ added)).1
          · exact others entry dropped
        · rwa [List.map_append, ids]
        · rw [round.front]
          exact List.length_take_le _ _
        · rw [← List.length_map, ids, round.count]
          exact Nat.min_le_left _ _
      · intro id dropped
        rw [← ids] at dropped
        obtain ⟨entry, member, rfl⟩ := List.mem_map.mp dropped
        exact hex entry (others entry member)
  | _ =>
      intro peerId message member
      cases member

theorem framesFit_of_anyFiftyFit
    (hex : ∀ entry, Allowed entry → isHex64 entry.peerId = true)
    (fits : AnyFiftyFit Allowed) (cfg : PexConfig) (calls : List Call)
    (upserted : ∀ entry, .upsertKnown entry ∈ calls → Allowed entry) :
    ∀ event ∈ engineStep.trace (PexEngine.new cfg) calls,
      FramesFit event := by
  induction calls using List.reverseRecOn with
  | nil => simp
  | append_singleton calls call induction =>
      have earlier := fun entry member =>
        upserted entry (List.mem_append_left _ member)
      rw [Machine.trace_concat]
      intro event member
      rcases List.mem_append.mp member with old | new
      · exact induction earlier event old
      · rw [List.mem_singleton.mp new]
        exact framesFit_step hex fits (stocked_final cfg calls earlier)
          (PexEngine.cacheDistinct_final cfg calls) call

end Sufficient

/-! ## Entries of which some fifty do not fit -/

section Necessary

variable {engine : PexEngine} {entries : List PeerEntry} {partner : String}

/-- The calls that upsert some entries. -/
def learnCalls (entries : List PeerEntry) : List Call :=
  entries.map .upsertKnown

/-- The calls that remove the peers of some entries. -/
def forgetCalls (entries : List PeerEntry) : List Call :=
  entries.map fun entry => .removeKnown entry.peerId

/-- The first-hand set is made of these entries, of other peers than the two
of a link. -/
structure Holds (entries : List PeerEntry) (partner : String)
    (engine : PexEngine) : Prop where
  exact : ∀ entry : PeerEntry,
    engine.known.entries[entry.peerId]? = some entry ↔ entry ∈ entries
  distinct : (entries.map PeerEntry.peerId).Nodup
  foreign : ∀ entry ∈ entries,
    entry.peerId ≠ engine.cfg.localPeerId ∧ entry.peerId ≠ partner

theorem final_learnCalls (distinct : (entries.map PeerEntry.peerId).Nodup)
    (foreign : ∀ entry ∈ entries, entry.peerId ≠ engine.cfg.localPeerId) :
    let after := engineStep.final engine (learnCalls entries)
    after.link partner = engine.link partner ∧
      ∀ entry : PeerEntry,
        after.known.entries[entry.peerId]? = some entry ↔
          entry ∈ entries ∨ entry.peerId ∉ entries.map PeerEntry.peerId ∧
            engine.known.entries[entry.peerId]? = some entry := by
  intro after
  induction entries generalizing engine with
  | nil => exact ⟨rfl, fun entry => by simp [after, learnCalls]⟩
  | cons first entries induction =>
      obtain ⟨apart, distinct⟩ := List.nodup_cons.mp distinct
      obtain ⟨link, known⟩ := @induction
        (engineStep engine (.upsertKnown first)).1 distinct
        fun entry member => by
          rw [cfg_engineStep]
          exact foreign entry (List.mem_cons_of_mem _ member)
      refine ⟨link.trans (engine.link_upsertKnown first partner),
        fun entry => (known entry).trans ?_⟩
      rw [known_engineStep, KnownSet.after,
        if_neg (foreign first List.mem_cons_self), KnownSet.insert,
        Std.ExtTreeMap.getElem?_insert]
      by_cases same : first.peerId = entry.peerId
      · rw [same] at apart
        have other : entry ∉ entries := fun member =>
          apart (List.mem_map_of_mem member)
        simp [same, apart, other, eq_comm]
      · have other : entry ≠ first := fun equal =>
          same (congrArg PeerEntry.peerId equal).symm
        simp [same, other, Ne.symm same]

theorem final_forgetCalls :
    let after := engineStep.final engine (forgetCalls entries)
    after.link partner = engine.link partner ∧
      ∀ id : String, after.known.entries[id]? =
        if id ∈ entries.map PeerEntry.peerId then none
        else engine.known.entries[id]? := by
  intro after
  induction entries generalizing engine with
  | nil => exact ⟨rfl, fun id => by simp [after, forgetCalls]⟩
  | cons first entries induction =>
      obtain ⟨link, known⟩ := @induction
        (engineStep engine (.removeKnown first.peerId)).1
      refine ⟨link.trans (engine.link_removeKnown first.peerId partner),
        fun id => (known id).trans ?_⟩
      rw [known_engineStep, KnownSet.after, KnownSet.remove,
        Std.ExtTreeMap.getElem?_erase]
      by_cases same : first.peerId = id
      · simp [same]
      · simp [same, Ne.symm same]

omit [DefaultHasher] in
/-- What is advertised in the first half hour of the clock is what the
first-hand set holds. -/
theorem Holds.perm (holds : Holds entries partner engine)
    (current : engine.CacheCurrent) {nowSecs : Nat}
    (early : nowSecs ≤ pexMaxEntryAge) (order : IterationOrder String) :
    (engine.advertisableFor order partner nowSecs).1.Perm entries := by
  refine (List.perm_ext_iff_of_nodup
    (nodup_advertisableFor current order partner nowSecs).of_map
    holds.distinct.of_map).mpr fun entry => ?_
  rw [mem_advertisableFor_iff current]
  constructor
  · intro advertisable
    exact (holds.exact entry).mp advertisable.current
  · intro member
    obtain ⟨notLocal, notPartner⟩ := holds.foreign entry member
    exact ⟨(holds.exact entry).mpr member, notLocal, notPartner, by omega⟩

/-- An open link with the shortest interval and no jitter, whose last data
message is not later than a time. -/
structure OpenSince (sinceMs : Nat) (link : LinkState) : Prop where
  sent : link.snapshotSent = true
  own : link.selfIntervalSecs = 30
  declared : link.remoteDeclaredSecs = none
  last : link.lastDataSendMs.getD 0 ≤ sinceMs
  jitter : link.sendJitterMs = 0

omit [DefaultHasher] in
theorem OpenSince.due {link : LinkState} {sinceMs : Nat}
    (opened : OpenSince sinceMs link) :
    link.sendDue (sinceMs + 30000) = true := by
  have last := opened.last
  simp only [LinkState.sendDue, opened.own, opened.declared, opened.jitter,
    decide_eq_true_eq, show effectiveIntervalSecs 30 none = 30 from rfl]
  omega

theorem OpenSince.tick {sinceMs nowMs : Nat} (steady : engine.cfg.jitter = false)
    (opened : OpenSince sinceMs (engine.link partner))
    (later : sinceMs ≤ nowMs) (orders : TickOrders)
    (jitter : String → Jitter) :
    OpenSince nowMs ((engine.tick nowMs orders jitter).1.link partner) := by
  rw [PexEngine.link_tick, PexEngine.tickedLink]
  cases engine.dueDelta nowMs orders partner with
  | none =>
      exact ⟨opened.sent, opened.own, opened.declared,
        opened.last.trans later, opened.jitter⟩
  | some delta =>
      refine ⟨opened.sent, opened.own, opened.declared, le_refl nowMs, ?_⟩
      simp [LinkState.commitDelta, PexConfig.drawJitter, steady]

theorem told_first_tick {sinceMs : Nat} (current : engine.CacheCurrent)
    (holds : Holds entries partner engine) (few : entries.length ≤ 50)
    (untold : ∀ id : String, id ∉ (engine.link partner).told)
    (opened : OpenSince sinceMs (engine.link partner))
    (early : (sinceMs + 30000) / 1000 ≤ pexMaxEntryAge)
    (jitter : String → Jitter) (id : String) :
    id ∈ ((engine.tick (sinceMs + 30000) exampleOrders jitter).1.link
        partner).told ↔ id ∈ entries.map PeerEntry.peerId := by
  have due : engine.eligible partner
      (.tick (sinceMs + 30000) exampleOrders jitter) = true := by
    simp [PexEngine.eligible, LinkState.isDue, opened.sent, opened.due]
  have steady : Steady engine partner ((sinceMs + 30000) / 1000) engine
      (.tick (sinceMs + 30000) exampleOrders jitter) := by
    refine ⟨rfl, by simp [Call.inbound], ?_⟩
    intro nowMs orders drawn same _ entry
    obtain ⟨rfl, -, -⟩ := Call.tick.inj same
    exact Iff.rfl
  have undrained : Drained engine partner ((sinceMs + 30000) / 1000)
      .ascending 0 engine := ⟨rfl, rfl⟩
  have drained := Drained.step current current steady undrained
  rw [if_pos due] at drained
  have listed := holds.perm current early .ascending
  have caughtUp := drained.caught_up current
    ((List.length_filter_le _ _).trans (listed.length_eq.le.trans few))
    (by
      have none : (engine.link partner).told.keys = [] :=
        List.eq_nil_iff_forall_not_mem.mpr fun id member =>
          untold id (Std.ExtTreeMap.mem_keys.mp member)
      simp [PexEngine.staleIds, none]) id
  rw [FiniteMap.mem_iff_lookup, List.mem_map]
  constructor
  · rintro ⟨hash, lookup⟩
    obtain ⟨entry, advertisable, same, -⟩ := (caughtUp hash).mp lookup
    exact ⟨entry, (holds.exact entry).mp advertisable.current, same⟩
  · rintro ⟨entry, member, same⟩
    refine ⟨_, (caughtUp _).mpr ⟨entry, ?_, same, rfl⟩⟩
    exact (mem_advertisableFor_iff current).mp (listed.mem_iff.mpr member)

/-- When other peers have taken the place of all those a link was told, its
next delta adds all of them and drops all it was told. -/
theorem length_replacing_delta {gone : List PeerEntry}
    (current : engine.CacheCurrent) (holds : Holds entries partner engine)
    (few : entries.length ≤ 50) (fewGone : gone.length ≤ 50)
    (distinct : (gone.map PeerEntry.peerId).Nodup)
    (hex : ∀ entry ∈ gone, isHex64 entry.peerId = true)
    (told : ∀ id : String, id ∈ (engine.link partner).told ↔
      id ∈ gone.map PeerEntry.peerId)
    (apart : ∀ entry ∈ entries, entry.peerId ∉ gone.map PeerEntry.peerId)
    {nowSecs : Nat} (early : nowSecs ≤ pexMaxEntryAge)
    (toldOrder knownOrder : IterationOrder String) :
    let delta := (engine.link partner).deltaAgainst toldOrder
      (engine.advertisableFor knownOrder partner nowSecs).1
    (PexMessage.pexDelta delta.1 delta.2).toJsonBytes.length =
      deltaLength entries gone.length := by
  intro delta
  have listed := holds.perm current early knownOrder
  have untold : ∀ entry ∈ (engine.advertisableFor knownOrder partner
      nowSecs).1, entry.peerId ∉ (engine.link partner).told :=
    fun entry member => (told entry.peerId).not.mpr
      (apart entry (listed.mem_iff.mp member))
  have allPending : (engine.advertisableFor knownOrder partner
      nowSecs).1.filter (engine.link partner).isPending =
        (engine.advertisableFor knownOrder partner nowSecs).1 := by
    refine List.filter_eq_self.mpr fun entry member => ?_
    simp [LinkState.isPending,
      Std.ExtTreeMap.getElem?_eq_none (untold entry member)]
  have added : delta.1.Perm entries := by
    have whole : (engine.advertisableFor knownOrder partner
        nowSecs).1.length ≤ pexMaxAdded := listed.length_eq.le.trans few
    simp only [delta, LinkState.deltaAgainst, allPending]
    rwa [List.take_of_length_le whole]
  have allStale : (CatchUp.stale PeerEntry.peerId
      (engine.advertisableFor knownOrder partner nowSecs).1
        (engine.link partner).told).length = gone.length := by
    rw [← @List.length_map _ _ gone PeerEntry.peerId]
    refine List.Perm.length_eq ((List.perm_ext_iff_of_nodup
      CatchUp.nodup_stale distinct).mpr fun id => ?_)
    rw [CatchUp.mem_stale, told, and_iff_left_iff_imp]
    intro dropped listedId
    obtain ⟨entry, member, rfl⟩ := List.mem_map.mp listedId
    exact apart entry (listed.mem_iff.mp member) dropped
  have round := (engine.link partner).deltaAgainst_round toldOrder
    (engine.advertisableFor knownOrder partner nowSecs).1
  rw [length_toJsonBytes_of_hex, deltaLength_of_perm added, round.count,
    allStale, Nat.min_eq_right fewGone]
  intro id dropped
  obtain ⟨entry, member, rfl⟩ := List.mem_map.mp
    ((told id).mp (mem_deltaAgainst_dropped dropped).1)
  exact hex entry member

theorem openSince_linkUp (cfg : PexConfig) (interval : cfg.interval = 30)
    (steady : cfg.jitter = false) (order : IterationOrder String)
    (jitter : Jitter) :
    OpenSince 0 ((engineStep (PexEngine.new cfg)
      (.linkUp partner 0 order jitter)).1.link partner) := by
  simp only [engineStep, PexEngine.link_linkUp, if_true]
  refine ⟨rfl, interval, ?_, le_refl 0, ?_⟩
  · simp [PexEngine.openedLink, PexEngine.link_new, LinkState.new]
  · exact if_neg (by simp [PexEngine.new, steady])

/-- A run that tells a link some peers, and then learns others in their
place. -/
def replacingCalls (partner : String) (gone added : List PeerEntry) :
    List Call :=
  [.linkUp partner 0 .ascending .zero] ++ learnCalls gone ++
    [.tick 30000 exampleOrders fun _ => .zero] ++ forgetCalls gone ++
    learnCalls added

omit [DefaultHasher] in
theorem knownChanges_replacingCalls (localPeerId partner : String)
    {gone added : List PeerEntry} (fewGone : gone.length ≤ 50)
    (few : added.length ≤ 50) :
    knownChanges localPeerId (replacingCalls partner gone added) <
      2 ^ 64 := by
  refine List.countP_le_length.trans_lt ?_
  simp only [replacingCalls, learnCalls, forgetCalls, List.length_append,
    List.length_map, List.length_singleton]
  omega

theorem holds_learned (cfg : PexConfig) (interval : cfg.interval = 30)
    (steady : cfg.jitter = false)
    (distinct : (entries.map PeerEntry.peerId).Nodup)
    (foreign : ∀ entry ∈ entries,
      entry.peerId ≠ cfg.localPeerId ∧ entry.peerId ≠ partner) :
    let learned := engineStep.final (PexEngine.new cfg)
      ([.linkUp partner 0 .ascending .zero] ++ learnCalls entries)
    Holds entries partner learned ∧ OpenSince 0 (learned.link partner) ∧
      ∀ id : String, id ∉ (learned.link partner).told := by
  intro learned
  let opening : List Call := [.linkUp partner 0 .ascending .zero]
  let opened := engineStep.final (PexEngine.new cfg) opening
  have openedCfg : opened.cfg = cfg := cfg_final _ _
  have unknown (id : String) : opened.known.entries[id]? = none := by
    simp only [opened, opening, Machine.final_cons, Machine.final_nil,
      known_engineStep]
    exact Std.ExtTreeMap.getElem?_empty
  obtain ⟨link, known⟩ := @final_learnCalls _ opened entries partner distinct
    fun entry member => openedCfg ▸ (foreign entry member).1
  simp only [learned, Machine.final_append]
  refine ⟨⟨fun entry => ?_, distinct, fun entry member => ?_⟩, ?_,
    fun id told => ?_⟩
  · rw [known entry, unknown]
    simp
  · rw [cfg_final, openedCfg]
    exact foreign entry member
  · rw [link]
    exact openSince_linkUp cfg interval steady _ _
  · rw [link] at told
    -- nothing was upserted when the link was opened
    have stocked := @stocked_final _ (fun _ => False) cfg opening fun entry
      member => by simp [opening] at member
    obtain ⟨_, absurd, _⟩ := stocked.told partner id told
    exact absurd

theorem holds_exchanged {gone : List PeerEntry}
    (holds : Holds gone partner engine)
    (distinct : (entries.map PeerEntry.peerId).Nodup)
    (foreign : ∀ entry ∈ entries,
      entry.peerId ≠ engine.cfg.localPeerId ∧ entry.peerId ≠ partner) :
    let exchanged := engineStep.final engine
      (forgetCalls gone ++ learnCalls entries)
    Holds entries partner exchanged ∧
      exchanged.link partner = engine.link partner := by
  intro exchanged
  let forgotten := engineStep.final engine (forgetCalls gone)
  have forgottenCfg : forgotten.cfg = engine.cfg := cfg_final _ _
  obtain ⟨forgottenLink, forgottenKnown⟩ :=
    @final_forgetCalls _ engine gone partner
  obtain ⟨link, known⟩ :=
    @final_learnCalls _ forgotten entries partner distinct
      fun entry member => forgottenCfg ▸ (foreign entry member).1
  have left (entry : PeerEntry) :
      forgotten.known.entries[entry.peerId]? ≠ some entry := by
    rw [forgottenKnown]
    split
    · simp
    · rename_i other
      intro lookup
      exact other (List.mem_map_of_mem ((holds.exact entry).mp lookup))
  simp only [exchanged, Machine.final_append]
  refine ⟨⟨fun entry => ?_, distinct, fun entry member => ?_⟩,
    link.trans forgottenLink⟩
  · rw [known entry, or_iff_left fun other => left entry other.2]
  · rw [cfg_final, forgottenCfg]
    exact foreign entry member

/-- After such a run the link was told the first peers, holds the others, and
is due half a minute after the tick. -/
theorem replaced (cfg : PexConfig) (interval : cfg.interval = 30)
    (steady : cfg.jitter = false) {gone added : List PeerEntry}
    (distinct : ((added ++ gone).map PeerEntry.peerId).Nodup)
    (foreign : ∀ entry ∈ added ++ gone,
      entry.peerId ≠ cfg.localPeerId ∧ entry.peerId ≠ partner)
    (fewGone : gone.length ≤ 50) (few : added.length ≤ 50) :
    let reached := engineStep.final (PexEngine.new cfg)
      (replacingCalls partner gone added)
    Holds added partner reached ∧ OpenSince 30000 (reached.link partner) ∧
      ∀ id : String, id ∈ (reached.link partner).told ↔
        id ∈ gone.map PeerEntry.peerId := by
  intro reached
  rw [List.map_append, List.nodup_append] at distinct
  obtain ⟨distinctAdded, distinctGone, -⟩ := distinct
  let early : List Call :=
    [.linkUp partner 0 .ascending .zero] ++ learnCalls gone
  let tick : Call := .tick 30000 exampleOrders fun _ => .zero
  let learned := engineStep.final (PexEngine.new cfg) early
  let ticked := (engineStep learned tick).1
  have whole : replacingCalls partner gone added =
      early ++ tick :: (forgetCalls gone ++ learnCalls added) := by
    simp [replacingCalls, early, tick]
  have split : reached = engineStep.final ticked
      (forgetCalls gone ++ learnCalls added) := by
    simp only [reached, whole, Machine.final_append, Machine.final_cons]
    rfl
  obtain ⟨holds, since, untold⟩ := holds_learned cfg interval steady
    distinctGone fun entry member =>
      foreign entry (List.mem_append_right added member)
  have current : learned.CacheCurrent := by
    have changes := knownChanges_replacingCalls cfg.localPeerId partner
      fewGone few
    rw [whole] at changes
    exact cacheCurrent_final cfg early
      ((knownChanges_le_append cfg.localPeerId early _).trans_lt changes)
  have learnedCfg : learned.cfg = cfg := cfg_final _ _
  have tickedCfg : ticked.cfg = cfg := (cfg_engineStep _ _).trans learnedCfg
  have stillHolds : Holds gone partner ticked := by
    refine ⟨fun entry => ?_, distinctGone, ?_⟩
    · rw [known_engineStep]
      exact holds.exact entry
    · rw [tickedCfg, ← learnedCfg]
      exact holds.foreign
  obtain ⟨exchanged, link⟩ := holds_exchanged stillHolds distinctAdded
    fun entry member => tickedCfg ▸
      foreign entry (List.mem_append_left gone member)
  rw [split, link]
  refine ⟨exchanged, ?_, ?_⟩
  · refine since.tick ?_ (Nat.zero_le 30000) exampleOrders _
    rw [learnedCfg]
    exact steady
  · exact told_first_tick current holds fewGone untold since (by decide) _

/-- Where all runs return frames that fit, any fifty entries do. -/
theorem anyFiftyFit_of_framesFit {Allowed : PeerEntry → Prop}
    (cfg : PexConfig) (interval : cfg.interval = 30)
    (steady : cfg.jitter = false)
    (hex : ∀ entry, Allowed entry → isHex64 entry.peerId = true)
    (foreign : ∀ entry, Allowed entry →
      entry.peerId ≠ cfg.localPeerId ∧ entry.peerId ≠ partner)
    (fits : ∀ calls : List Call,
      (∀ entry, .upsertKnown entry ∈ calls → Allowed entry) →
        ∀ event ∈ engineStep.trace (PexEngine.new cfg) calls,
          FramesFit event) :
    AnyFiftyFit Allowed := by
  intro added gone allowed distinct few fewGone
  let calls := replacingCalls partner gone added
  let reached := engineStep.final (PexEngine.new cfg) calls
  let delta := (reached.link partner).deltaAgainst .ascending
    (reached.advertisableFor .ascending partner 60).1
  obtain ⟨holds, since, told⟩ := replaced cfg interval steady distinct
    (fun entry member => foreign entry (allowed entry member)) fewGone few
  have apart := (List.nodup_append.mp (List.map_append ▸ distinct))
  have length := length_replacing_delta
    (cacheCurrent_final cfg calls
      (knownChanges_replacingCalls cfg.localPeerId partner fewGone few))
    holds few fewGone apart.2.1
    (fun entry member => hex entry
      (allowed entry (List.mem_append_right _ member)))
    told
    (fun entry member dropped => apart.2.2 _ (List.mem_map_of_mem member) _
      dropped rfl)
    (by decide : 60 ≤ pexMaxEntryAge) .ascending .ascending
  rw [← length]
  by_cases empty : delta.1 = [] ∧ delta.2 = []
  · rw [empty.1, empty.2, PexMessage.length_toJsonBytes_delta]
    decide
  · have owed : reached.dueDelta 60000 exampleOrders partner = some delta :=
      LinkState.dueDelta_of_due since.sent since.due (not_and_or.mp empty)
    have last : (partner, PexMessage.pexDelta delta.1 delta.2) ∈
        (reached.tick 60000 exampleOrders fun _ => .zero).2 :=
      (PexEngine.mem_tick _ _ _).mpr
        ⟨PexEngine.mem_links_of_snapshotSent since.sent, delta, owed, rfl⟩
    let tick : Call := .tick 60000 exampleOrders fun _ => .zero
    have event : (tick, (engineStep reached tick).2) ∈
        engineStep.trace (PexEngine.new cfg) (calls ++ [tick]) := by
      rw [Machine.trace_concat]
      exact List.mem_append_right _ (List.mem_singleton.mpr rfl)
    refine fits (calls ++ [tick]) (fun entry upserted => ?_) _ event partner _
      last rfl
    refine allowed entry ?_
    simpa [calls, tick, replacingCalls, learnCalls, forgetCalls, or_comm]
      using upserted

end Necessary

/-- Which frames fit.  When every upserted entry is valid in some context and
any fifty of them fit a delta together with the ids of fifty others, all data
messages of the run encode within the frame.  For entries of a kind, valid at
one link, no weaker condition will do: all runs that upsert only such entries
return frames that fit exactly when any fifty of the kind do. -/
theorem framesFit_iff_anyFiftyFit :
    (∀ (cfg : PexConfig) (calls : List Call),
      (∀ entry, .upsertKnown entry ∈ calls →
        ∃ ctx, entry.validate ctx = .ok ()) →
      AnyFiftyFit (fun entry => .upsertKnown entry ∈ calls) →
        ∀ event ∈ engineStep.trace (PexEngine.new cfg) calls,
          FramesFit event) ∧
      ∀ (localPeerId partner networkId : String)
        (Allowed : PeerEntry → Prop),
        (∀ entry, Allowed entry → ∃ nowSecs,
          entry.validate ⟨partner, localPeerId, networkId, nowSecs⟩ =
            .ok ()) →
          ((∀ cfg : PexConfig, cfg.localPeerId = localPeerId →
              cfg.networkId = networkId → ∀ calls : List Call,
                (∀ entry, .upsertKnown entry ∈ calls → Allowed entry) →
                  ∀ event ∈ engineStep.trace (PexEngine.new cfg) calls,
                    FramesFit event) ↔
            AnyFiftyFit Allowed) := by
  refine ⟨fun cfg calls valid fits => ?_, ?_⟩
  · refine framesFit_of_anyFiftyFit (fun entry upserted => ?_) fits cfg calls
      fun entry upserted => upserted
    obtain ⟨ctx, kept⟩ := valid entry upserted
    exact ((entry.validate_eq_ok_iff ctx).mp kept).1.hexId
  · intro localPeerId partner networkId Allowed valid
    have wellFormed : ∀ entry, Allowed entry →
        entry.WellFormed partner localPeerId networkId := by
      intro entry allowed
      obtain ⟨nowSecs, kept⟩ := valid entry allowed
      exact ((entry.validate_eq_ok_iff _).mp kept).1
    constructor
    · intro fits
      let cfg : PexConfig :=
        { localPeerId := localPeerId
          networkId := networkId
          flags := []
          interval := 30
          jitter := false }
      exact anyFiftyFit_of_framesFit cfg rfl rfl
        (fun entry allowed => (wellFormed entry allowed).hexId)
        (fun entry allowed => ⟨(wellFormed entry allowed).notSender,
          (wellFormed entry allowed).notReceiver⟩)
        (fits cfg rfl rfl)
    · intro fits cfg _ _ calls upserted
      exact framesFit_of_anyFiftyFit
        (fun entry allowed => (wellFormed entry allowed).hexId) fits cfg calls
        upserted

/-- An entry with one address, whose host has so many characters. -/
def longEntry (digit : Char) (hostLength : Nat) : PeerEntry :=
  (PeerEntry.new (exampleId digit) "network" 1000 .direct).withAddress
    (.direct (String.ofList (List.replicate hostLength 'a')) 9444)

omit [DefaultHasher] in
theorem length_renderString_replicate (hostLength : Nat) :
    (Json.renderString
      (String.ofList (List.replicate hostLength 'a'))).length =
      hostLength + 2 := by
  have letter : (Json.escapeChar 'a').length = 1 := by decide +kernel
  have plain : ((List.replicate hostLength 'a').flatMap
      Json.escapeChar).length = hostLength := by
    simp [List.length_flatMap, letter]
  simp only [Json.renderString, String.toList_ofList, List.length_append,
    List.length_cons, List.length_nil, plain]
  omega

omit [DefaultHasher] in
theorem jsonLength_longEntry {digit : Char}
    (hex : isHex64 (exampleId digit) = true) (hostLength : Nat) :
    (longEntry digit hostLength).jsonLength = 198 + hostLength := by
  have id := Json.length_renderString_of_isHex64 hex
  have host := length_renderString_replicate hostLength
  have kind : (Json.renderString "direct").length = 8 := by decide +kernel
  have network : (Json.renderString "network").length = 9 := by decide +kernel
  have port : (JsonNumber.posInt 9444).render.length = 4 := by decide +kernel
  have seen : (JsonNumber.posInt 1000).render.length = 4 := by decide +kernel
  have names : (["peer_id", "addresses", "network_id", "last_seen", "via",
      "flags", "host", "port", "kind"].map fun name =>
        (Json.renderString name).length) =
      [9, 11, 12, 11, 5, 7, 6, 6, 6] := by
    decide +kernel
  simp only [List.map_cons, List.map_nil, List.cons.injEq, and_true] at names
  simp only [PeerEntry.jsonLength, PeerEntry.toJson, longEntry,
    PeerEntry.withAddress, PeerEntry.new, Address.direct, Address.toJson,
    AddressKind.asStr, Provenance.asStr, List.nil_append, List.map_cons,
    List.map_nil, Option.map_none, Option.toList_none, List.append_nil,
    Json.length_render_object, Json.length_render_array]
  simp only [Json.render, id, host, kind, network, port, seen, names,
    Json.bracketedLength, List.sum_cons, List.sum_nil, List.length_cons,
    List.length_nil]
  omega

omit [DefaultHasher] in
theorem longEntry_acceptable {digit : Char} {hostLength : Nat}
    (hex : isHex64 (exampleId digit) = true)
    (foreign : exampleId digit ≠ exampleId 'b' ∧
      exampleId digit ≠ exampleId 'a')
    (occupied : 0 < hostLength) (within : hostLength ≤ 200000) :
    (longEntry digit hostLength).validate
        ⟨exampleId 'b', exampleId 'a', "network", 1000⟩ = .ok () ∧
      (PexMessage.pexSnapshot
        [longEntry digit hostLength]).toJsonBytes.length ≤ pexMaxFrame := by
  have host : (String.ofList (List.replicate hostLength 'a')).isEmpty =
      false := by
    rw [Bool.eq_false_iff, ne_eq, String.isEmpty_iff]
    intro empty
    have blank := congrArg String.toList empty
    simp only [String.toList_ofList, String.toList_empty,
      List.replicate_eq_nil_iff] at blank
    omega
  constructor
  · refine ((longEntry digit hostLength).validate_eq_ok_iff _).mpr
      ⟨⟨hex, foreign.1, foreign.2, ?_, ?_, ?_, ?_, rfl, rfl, ?_⟩,
        Nat.le_add_right 1000 pexMaxEntryAge⟩
    · exact Nat.le_add_left 1 7
    · intro address member
      simp only [longEntry, PeerEntry.withAddress, PeerEntry.new,
        List.nil_append, List.mem_singleton] at member
      subst member
      simp [Address.isValid, Address.direct, AddressKind.isRegistered, host]
    · exact Nat.zero_le _
    · intro flag member
      cases member
    · intro claim carried
      cases carried
  · rw [PexMessage.length_toJsonBytes_snapshot]
    simp only [Json.bracketedLength, List.map_cons, List.map_nil,
      jsonLength_longEntry hex, List.sum_cons, List.sum_nil, List.length_cons,
      List.length_nil, pexMaxFrame]
    omega

omit [DefaultHasher] in
/-- Entries of at most 5174 bytes each always fit. -/
theorem anyFiftyFit_of_short {Allowed : PeerEntry → Prop}
    (short : ∀ entry, Allowed entry → entry.jsonLength ≤ 5174) :
    AnyFiftyFit Allowed := by
  intro added gone allowed _ few fewGone
  have sizes : (added.map PeerEntry.jsonLength).sum ≤ added.length * 5174 := by
    rw [← List.length_map PeerEntry.jsonLength, ← smul_eq_mul]
    refine List.sum_le_card_nsmul _ _ fun size member => ?_
    obtain ⟨entry, listed, rfl⟩ := List.mem_map.mp member
    exact short entry (allowed entry (List.mem_append_left _ listed))
  simp only [deltaLength, Json.bracketedLength, List.length_map,
    List.length_replicate, List.sum_replicate, smul_eq_mul, pexMaxFrame]
  omega

omit [DefaultHasher] in
/-- Entries with hosts of 4900 characters are short enough for the delta that
adds one and drops another. -/
theorem long_hosts_fit :
    let calls : List Call := [.upsertKnown (longEntry 'c' 4900),
      .linkUp (exampleId 'b') 1000000 .ascending .zero,
      .removeKnown (exampleId 'c'), .upsertKnown (longEntry 'd' 4900),
      .tick 1060000 exampleOrders fun _ => .zero]
    ∀ event ∈ (@engineStep sipHasher).trace
      (PexEngine.new (exampleConfig (exampleId 'a'))) calls,
      FramesFit event := by
  intro calls
  have upserted : ∀ entry, .upsertKnown entry ∈ calls →
      entry = longEntry 'c' 4900 ∨ entry = longEntry 'd' 4900 := by
    intro entry member
    simpa [calls] using member
  have digits : isHex64 (exampleId 'c') = true ∧
      isHex64 (exampleId 'd') = true := by
    decide +kernel
  have foreign : (exampleId 'c' ≠ exampleId 'b' ∧
      exampleId 'c' ≠ exampleId 'a') ∧ exampleId 'd' ≠ exampleId 'b' ∧
      exampleId 'd' ≠ exampleId 'a' := by
    decide +kernel
  refine (@framesFit_iff_anyFiftyFit sipHasher).1
    (exampleConfig (exampleId 'a')) calls (fun entry member => ?_)
    (anyFiftyFit_of_short fun entry member => ?_)
  · rcases upserted entry member with rfl | rfl
    · exact ⟨_, (longEntry_acceptable digits.1 foreign.1 (by decide)
        (by decide)).1⟩
    · exact ⟨_, (longEntry_acceptable digits.2 foreign.2 (by decide)
        (by decide)).1⟩
  · rcases upserted entry member with rfl | rfl
    · rw [jsonLength_longEntry digits.1]
      decide
    · rw [jsonLength_longEntry digits.2]
      decide

omit [DefaultHasher] in
theorem exceeds_of_two_long {added : List PeerEntry}
    (two : added.length = 2)
    (long : ∀ entry ∈ added, 140000 ≤ entry.jsonLength)
    (dropped : List String) :
    pexMaxFrame < (PexMessage.pexDelta added dropped).toJsonBytes.length := by
  obtain ⟨first, second, rfl⟩ := List.length_eq_two.mp two
  have firstLong := long first (by simp)
  have secondLong := long second (by simp)
  rw [PexMessage.length_toJsonBytes_delta]
  simp only [Json.bracketedLength, List.map_cons, List.map_nil, List.sum_cons,
    List.sum_nil, List.length_cons, List.length_nil, pexMaxFrame]
  omega

omit [DefaultHasher] in
/-- Two valid entries, each of which fits a snapshot alone, make a delta that
exceeds the frame. -/
theorem two_long_hosts_exceed_frame :
    let calls : List Call := [.linkUp (exampleId 'b') 1000000 .ascending .zero,
      .upsertKnown (longEntry 'c' 140000), .upsertKnown (longEntry 'd' 140000),
      .tick 1060000 exampleOrders fun _ => .zero]
    (∀ entry, .upsertKnown entry ∈ calls →
      entry.validate ⟨exampleId 'b', exampleId 'a', "network", 1000⟩ = .ok () ∧
        (PexMessage.pexSnapshot [entry]).toJsonBytes.length ≤ pexMaxFrame) ∧
      ¬∀ event ∈ (@engineStep sipHasher).trace
        (PexEngine.new (exampleConfig (exampleId 'a'))) calls,
        FramesFit event := by
  let _ := sipHasher
  let upserts : List Call := [.linkUp (exampleId 'b') 1000000 .ascending .zero,
    .upsertKnown (longEntry 'c' 140000), .upsertKnown (longEntry 'd' 140000)]
  let start := PexEngine.new (exampleConfig (exampleId 'a'))
  have digits : isHex64 (exampleId 'c') = true ∧
      isHex64 (exampleId 'd') = true := by
    decide +kernel
  have long : ∀ entry, .upsertKnown entry ∈ upserts →
      140000 ≤ entry.jsonLength := by
    intro entry member
    simp only [upserts, List.mem_cons, reduceCtorEq, Call.upsertKnown.injEq,
      List.not_mem_nil, or_false, false_or] at member
    rcases member with rfl | rfl
    · rw [jsonLength_longEntry digits.1]
      omega
    · rw [jsonLength_longEntry digits.2]
      omega
  have stocked : Stocked (fun entry => 140000 ≤ entry.jsonLength)
      (engineStep.final start upserts) :=
    stocked_final (exampleConfig (exampleId 'a')) upserts long
  have owed : ((engineStep.final start upserts).dueDelta 1060000 exampleOrders
      (exampleId 'b')).map (fun delta => delta.1.length) = some 2 := by
    decide +kernel
  obtain ⟨delta, due, two⟩ := Option.map_eq_some_iff.mp owed
  obtain ⟨sent, _, same, _⟩ := LinkState.dueDelta_eq_some due
  constructor
  · have foreign : (exampleId 'c' ≠ exampleId 'b' ∧
        exampleId 'c' ≠ exampleId 'a') ∧ exampleId 'd' ≠ exampleId 'b' ∧
        exampleId 'd' ≠ exampleId 'a' := by
      decide +kernel
    intro entry member
    simp only [List.mem_cons, reduceCtorEq, Call.upsertKnown.injEq,
      List.not_mem_nil, or_false, false_or] at member
    rcases member with rfl | rfl
    · exact longEntry_acceptable digits.1 foreign.1 (by decide) (by decide)
    · exact longEntry_acceptable digits.2 foreign.2 (by decide) (by decide)
  · intro fits
    have traced := engineStep.trace_concat start upserts
      (.tick 1060000 exampleOrders fun _ => .zero)
    simp only [upserts, List.cons_append, List.nil_append] at traced
    rw [traced] at fits
    have exceeded := exceeds_of_two_long two (fun entry member =>
      stocked.advertisableFor (mem_deltaAgainst_added (same ▸ member)).1)
        delta.2
    refine absurd (fits _ (List.mem_append_right _
      (List.mem_singleton.mpr rfl)) (exampleId 'b') _ ?_ rfl)
        (not_le.mpr exceeded)
    exact (PexEngine.mem_tick _ _ _).mpr
      ⟨PexEngine.mem_links_of_snapshotSent sent, delta, due, rfl⟩

end DigPex
