import DigPex.Concrete
import DigPex.Stock

/-!
# What a partner accepts of what it is sent

The sending side leaves out the two ends and what is too old, and nothing
else.  What the partner keeps of an emission is decided by the shape of the
entries that were handed in.
-/

namespace DigPex

/-- The shape of an entry that a third party of the network may be told. -/
structure PeerEntry.Presentable (entry : PeerEntry) (networkId : String) :
    Prop where
  hexId : isHex64 entry.peerId = true
  addressCount : entry.addresses.length ≤ pexMaxAddresses
  addressesValid : ∀ address ∈ entry.addresses, address.isValid = true
  flagCount : entry.flags.length ≤ pexMaxFlags
  flagLengths : ∀ flag ∈ entry.flags, flag.utf8ByteSize ≤ pexMaxFlagLen
  network : entry.networkId = networkId
  provenance : entry.via.isRegistered = true
  claim : ∀ claim, entry.payment = some claim → claim.withinCaps = true

theorem PeerEntry.wellFormed_iff {entry : PeerEntry}
    {receiverPeerId senderPeerId networkId : String} :
    entry.WellFormed receiverPeerId senderPeerId networkId ↔
      entry.peerId ≠ receiverPeerId ∧ entry.peerId ≠ senderPeerId ∧
        entry.Presentable networkId := by
  constructor
  · intro wellFormed
    exact ⟨wellFormed.notReceiver, wellFormed.notSender, wellFormed.hexId,
      wellFormed.addressCount, wellFormed.addressesValid,
      wellFormed.flagCount, wellFormed.flagLengths, wellFormed.network,
      wellFormed.provenance, wellFormed.claim⟩
  · rintro ⟨notReceiver, notSender, presentable⟩
    exact ⟨presentable.hexId, notReceiver, notSender,
      presentable.addressCount, presentable.addressesValid,
      presentable.flagCount, presentable.flagLengths, presentable.network,
      presentable.provenance, presentable.claim⟩

/-- The context in which a partner on the same network validates what an
engine sends it, at the clock of the sender. -/
def PexConfig.partnerCtx (cfg : PexConfig) (partner : String)
    (nowMs : Nat) : ValidateCtx :=
  { receiverPeerId := partner
    senderPeerId := cfg.localPeerId
    networkId := cfg.networkId
    nowSecs := nowMs / 1000 }

namespace PexEngine

/-- The cached list is about others, and fresh at the second it was built
for. -/
def CacheFiltered (engine : PexEngine) : Prop :=
  ∀ epoch nowSecs base,
    engine.advertisableCache = some (epoch, nowSecs, base) →
      ∀ entry ∈ base, entry.peerId ≠ engine.cfg.localPeerId ∧
        isFresh nowSecs entry = true

namespace CacheFiltered

variable {engine : PexEngine}

theorem advertisableCached (filtered : engine.CacheFiltered)
    {order : IterationOrder String} {nowSecs : Nat} {entry : PeerEntry}
    (member : entry ∈ (engine.advertisableCached order nowSecs).1) :
    entry.peerId ≠ engine.cfg.localPeerId ∧ isFresh nowSecs entry = true := by
  rcases mem_advertisableCached member with ⟨base, cached, member⟩ | member
  · exact filtered _ _ _ cached entry member
  · exact (mem_advertisableBase.mp member).2

variable [DefaultHasher]

theorem step (filtered : engine.CacheFiltered) (call : Call) :
    (engineStep engine call).1.CacheFiltered := by
  intro epoch nowSecs base cached entry member
  rw [cfg_engineStep]
  rcases advertisableCache_engineStep engine call with
    same | ⟨_, order, builtSecs, rebuilt⟩
  · rw [same] at cached
    exact filtered _ _ _ cached entry member
  · rw [rebuilt] at cached
    cases cached
    exact filtered.advertisableCached member

end CacheFiltered

variable [DefaultHasher]

theorem cacheFiltered_final (cfg : PexConfig) (calls : List Call) :
    (engineStep.final (PexEngine.new cfg) calls).CacheFiltered := by
  apply engineStep.final_invariant
  · intro epoch nowSecs base cached
    cases cached
  · intro engine call filtered
    exact filtered.step call

/-- An entry that a call returns for a link. -/
def Emits (engine : PexEngine) (call : Call) (partner : String)
    (entry : PeerEntry) : Prop :=
  ∃ message ∈ messagesFor partner (call, (engineStep engine call).2),
    entry ∈ message.entries

variable {engine : PexEngine} {call : Call} {partner : String}
  {entry : PeerEntry}

theorem Emits.listed (emitted : engine.Emits call partner entry) :
    ∃ order, entry ∈
      (engine.advertisableFor order partner (call.sendMs / 1000)).1 := by
  obtain ⟨message, returned, carried⟩ := emitted
  exact mem_advertisableFor_of_messagesFor returned carried

theorem Emits.validate_iff (emitted : engine.Emits call partner entry)
    (filtered : engine.CacheFiltered) :
    entry.validate (engine.cfg.partnerCtx partner call.sendMs) = .ok () ↔
      entry.Presentable engine.cfg.networkId := by
  obtain ⟨order, listed⟩ := emitted.listed
  obtain ⟨cached, notPartner⟩ := mem_advertisableFor.mp listed
  obtain ⟨notLocal, fresh⟩ := filtered.advertisableCached cached
  have recent := (isFresh_iff _ _).mp fresh
  rw [PeerEntry.validate_eq_ok_iff, PeerEntry.wellFormed_iff]
  constructor
  · rintro ⟨⟨_, _, presentable⟩, _⟩
    exact presentable
  · intro presentable
    exact ⟨⟨notPartner, notLocal, presentable⟩, recent⟩

end PexEngine

variable [DefaultHasher]

/-- An emitted entry was upserted, is about another peer than the sender, and
is kept by the partner exactly when it is presentable. -/
theorem emission_judged {cfg : PexConfig} {earlier : List Call}
    {call : Call} {partner : String} {entry : PeerEntry}
    (emitted : (engineStep.final (PexEngine.new cfg) earlier).Emits call
      partner entry) :
    .upsertKnown entry ∈ earlier ∧ entry.peerId ≠ cfg.localPeerId ∧
      (entry.validate (cfg.partnerCtx partner call.sendMs) = .ok () ↔
        entry.Presentable cfg.networkId) := by
  have filtered := PexEngine.cacheFiltered_final cfg earlier
  have stocked : Stocked (fun entry => .upsertKnown entry ∈ earlier)
      (engineStep.final (PexEngine.new cfg) earlier) :=
    stocked_final cfg earlier fun _ member => member
  obtain ⟨order, listed⟩ := emitted.listed
  have upserted := stocked.advertisableFor listed
  have notLocal := (filtered.advertisableCached
    (PexEngine.mem_advertisableFor.mp listed).1).1
  have kept := emitted.validate_iff filtered
  rw [cfg_final] at notLocal kept
  exact ⟨upserted, notLocal, kept⟩

/-- What a partner accepts.  In every run, the partner keeps an emitted entry,
at the same instant, exactly when it is presentable on the network of the
sender.  In a run in which every upserted entry about another peer than the
sender is presentable, it keeps every emitted entry. -/
theorem emissions_accepted_iff (cfg : PexConfig) (calls : List Call) :
    engineStep.Along (fun engine call => ∀ partner entry,
        engine.Emits call partner entry →
          (entry.validate (cfg.partnerCtx partner call.sendMs) = .ok () ↔
            entry.Presentable cfg.networkId))
        (PexEngine.new cfg) calls ∧
      ((∀ entry, .upsertKnown entry ∈ calls →
          entry.peerId ≠ cfg.localPeerId →
            entry.Presentable cfg.networkId) →
        engineStep.Along (fun engine call => ∀ partner entry,
          engine.Emits call partner entry →
            entry.validate (cfg.partnerCtx partner call.sendMs) = .ok ())
          (PexEngine.new cfg) calls) := by
  constructor
  · apply (engineStep.along_iff _ _).mpr
    intro earlier call later _ partner entry emitted
    exact (emission_judged emitted).2.2
  · intro presentable
    apply (engineStep.along_iff _ _).mpr
    rintro earlier call later rfl partner entry emitted
    obtain ⟨upserted, notLocal, kept⟩ := emission_judged emitted
    apply kept.mpr
    exact presentable entry (List.mem_append_left _ upserted) notLocal

omit [DefaultHasher] in
theorem presentable_exampleEntry {digit : Char} {lastSeen port : Nat}
    (hexId : isHex64 (exampleId digit) = true) (dialable : port ≠ 0) :
    (exampleEntry digit lastSeen port).Presentable "network" := by
  refine ⟨hexId, ?_, ?_, ?_, ?_, rfl, rfl, ?_⟩ <;>
    simp [exampleEntry, PeerEntry.new, PeerEntry.withAddress, Address.direct,
      Address.isValid, AddressKind.isRegistered, pexMaxAddresses, pexMaxFlags,
      dialable]

omit [DefaultHasher] in
/-- A snapshot and a delta of presentable entries are kept. -/
theorem emissions_accepted_presentable :
    let cfg := exampleConfig (exampleId 'a')
    let first := exampleEntry 'c' 1000 9444
    let second := exampleEntry 'd' 1060 9444
    let calls : List Call := [.upsertKnown first,
      .linkUp (exampleId 'b') 1000000 .ascending .zero,
      .upsertKnown second,
      .tick 1060000 exampleOrders fun _ => .zero]
    let trace := (@engineStep sipHasher).trace (PexEngine.new cfg) calls
    trace.map (fun event => (messagesFor (exampleId 'b') event).flatMap
        PexMessage.entries) = [[], [first], [], [second]] ∧
      (@engineStep sipHasher).Along (fun engine call => ∀ partner entry,
        @PexEngine.Emits sipHasher engine call partner entry →
          entry.validate (cfg.partnerCtx partner call.sendMs) = .ok ())
        (PexEngine.new cfg) calls := by
  intro cfg first second calls trace
  refine ⟨by decide +kernel, ?_⟩
  apply (@emissions_accepted_iff sipHasher cfg calls).2
  intro entry member _
  simp only [calls, List.mem_cons, List.not_mem_nil, reduceCtorEq,
    Call.upsertKnown.injEq, or_false, false_or] at member
  rcases member with rfl | rfl
  · exact presentable_exampleEntry (by decide +kernel) (by decide)
  · exact presentable_exampleEntry (by decide +kernel) (by decide)

omit [DefaultHasher] in
/-- An entry one address over the cap is emitted as it was handed in, and the
partner skips it. -/
theorem ninth_address_emitted :
    let cfg := exampleConfig (exampleId 'a')
    let crowded := { exampleEntry 'c' 1000 9444 with
      addresses := List.replicate 9 (.direct "10.0.0.1" 9444) }
    let opening := Call.linkUp (exampleId 'b') 1000000 .ascending .zero
    let engine := (@engineStep sipHasher).final (PexEngine.new cfg)
      [.upsertKnown crowded]
    @PexEngine.Emits sipHasher engine opening (exampleId 'b') crowded ∧
      crowded.validate (cfg.partnerCtx (exampleId 'b') opening.sendMs) =
        .error .tooManyAddresses := by
  intro cfg crowded opening engine
  refine ⟨⟨.pexSnapshot [crowded], ?_, List.mem_singleton_self _⟩, ?_⟩
  · decide +kernel
  · decide +kernel

end DigPex
