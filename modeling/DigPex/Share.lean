import DigPex.Account
import DigPex.Inflow

/-!
# One link's share of the hints

A candidate gives its link one hint and takes at most one from another: the
hint it replaces, or the one that is evicted for it.  So how much of the hint
table one link can take over is bounded by what it can pour in.
-/

namespace DigPex

/-- The peers whose hint came from a wanted source. -/
def hintedBy (wanted : String → Bool)
    (hints : Std.ExtTreeMap String ReceivedHint) : Finset String :=
  (hints.filter fun _ hint => wanted hint.source).keys.toFinset

theorem foldl_le {State Item : Type} (measure : State → Nat)
    (step : State → Item → State) (unit : Nat)
    (bound : ∀ state item, measure (step state item) ≤ measure state + unit)
    (state : State) (items : List Item) :
    measure (items.foldl step state) ≤
      measure state + unit * items.length := by
  induction items generalizing state with
  | nil => exact le_rfl
  | cons item items induction =>
      have now := bound state item
      have later := induction (step state item)
      rw [List.foldl_cons, List.length_cons, Nat.mul_succ]
      omega

section Hints

variable {wanted : String → Bool} {source : String}
  {hints : Std.ExtTreeMap String ReceivedHint}

theorem mem_hintedBy {id : String} :
    id ∈ hintedBy wanted hints ↔
      ∃ hint, hints[id]? = some hint ∧ wanted hint.source = true := by
  rw [hintedBy, List.mem_toFinset, Std.ExtTreeMap.mem_keys,
    Std.ExtTreeMap.mem_iff_isSome_getElem?, Std.ExtTreeMap.getElem?_filter]
  cases hints[id]? <;> simp

/-! ## One event -/

theorem hintedBy_noteCandidate (candidate : PeerEntry) :
    hintedBy wanted (noteCandidate source hints candidate) ⊆
      if wanted source then
        insert candidate.peerId (hintedBy wanted hints)
      else hintedBy wanted hints := by
  intro id member
  obtain ⟨hint, lookup, same⟩ := mem_hintedBy.mp member
  rcases FiniteMap.getElem?_of_insertCapped _ lookup with
    ⟨rfl, rfl⟩ | ⟨_, old⟩
  · rw [if_pos same]
    exact Finset.mem_insert_self _ _
  · have before : id ∈ hintedBy wanted hints :=
      mem_hintedBy.mpr ⟨hint, old, same⟩
    split
    · exact Finset.mem_insert_of_mem before
    · exact before

theorem card_lost_noteCandidate (candidate : PeerEntry) :
    (hintedBy wanted hints \
      hintedBy wanted (noteCandidate source hints candidate)).card ≤ 1 := by
  let victim := (FiniteMap.evicted ReceivedHint.lastSeen pexMaxHints hints
    candidate.peerId).getD candidate.peerId
  suffices lost : hintedBy wanted hints \
      hintedBy wanted (noteCandidate source hints candidate) ⊆ {victim} from
    (Finset.card_le_card lost).trans (Finset.card_singleton victim).le
  intro id member
  obtain ⟨before, after⟩ := Finset.mem_sdiff.mp member
  obtain ⟨hint, lookup, same⟩ := mem_hintedBy.mp before
  have present : id ∈ hints := FiniteMap.mem_iff_lookup.mpr ⟨hint, lookup⟩
  rw [Finset.mem_singleton]
  by_cases own : id = candidate.peerId
  · have listed : hints.contains candidate.peerId = true :=
      own ▸ Std.ExtTreeMap.mem_iff_contains.mp present
    simp [victim, FiniteMap.evicted, own, listed]
  · rcases FiniteMap.mem_insertCapped_or_evicted ReceivedHint.lastSeen present
        pexMaxHints candidate.peerId
        { source := source
          lastSeen := candidate.lastSeen } with still | evicted
    · obtain ⟨found, kept⟩ := FiniteMap.mem_iff_lookup.mp still
      rcases FiniteMap.getElem?_of_insertCapped _ kept with
        ⟨new, _⟩ | ⟨_, old⟩
      · exact absurd new own
      · obtain rfl : hint = found := Option.some.inj (lookup.symm.trans old)
        exact absurd (mem_hintedBy.mpr ⟨hint, kept, same⟩) after
    · simp [victim, evicted]

theorem hintedBy_noteDropped (id : String) :
    hintedBy wanted (noteDropped source hints id) ⊆ hintedBy wanted hints ∧
      (wanted source = false → hintedBy wanted hints ⊆
        hintedBy wanted (noteDropped source hints id)) := by
  unfold noteDropped
  split
  · rename_i current
    obtain ⟨hint, lookup, own⟩ := (Option.any_eq_true _ _).mp current
    obtain rfl : hint.source = source := by simpa using own
    constructor
    · intro other member
      obtain ⟨found, kept, same⟩ := mem_hintedBy.mp member
      exact mem_hintedBy.mpr ⟨found, by grind, same⟩
    · intro unwanted other member
      obtain ⟨found, kept, same⟩ := mem_hintedBy.mp member
      refine mem_hintedBy.mpr ⟨found, ?_, same⟩
      rw [Std.ExtTreeMap.getElem?_erase, if_neg]
      · exact kept
      · intro equal
        obtain rfl : id = other := by simpa using equal
        obtain rfl : hint = found := Option.some.inj (lookup.symm.trans kept)
        rw [same] at unwanted
        cases unwanted
  · exact ⟨subset_rfl, fun _ => subset_rfl⟩

theorem getElem?_filter_eq_some {keep : ReceivedHint → Bool} {id : String}
    {hint : ReceivedHint} :
    (hints.filter fun _ hint => keep hint)[id]? = some hint ↔
      hints[id]? = some hint ∧ keep hint = true := by
  grind

theorem hintedBy_filter (closed : String) :
    hintedBy wanted (hints.filter fun _ hint => hint.source ≠ closed) ⊆
        hintedBy wanted hints ∧
      (wanted closed = false → hintedBy wanted hints ⊆
        hintedBy wanted
          (hints.filter fun _ hint => hint.source ≠ closed)) := by
  constructor
  · intro id member
    obtain ⟨hint, kept, same⟩ := mem_hintedBy.mp member
    exact mem_hintedBy.mpr
      ⟨hint, (getElem?_filter_eq_some.mp kept).1, same⟩
  · intro unwanted id member
    obtain ⟨hint, lookup, same⟩ := mem_hintedBy.mp member
    refine mem_hintedBy.mpr
      ⟨hint, getElem?_filter_eq_some.mpr ⟨lookup, ?_⟩, same⟩
    rw [decide_eq_true_eq]
    rintro rfl
    rw [same] at unwanted
    cases unwanted

/-- What only candidates add to, one unit each, is bounded by the candidates
of the events of an answer. -/
theorem foldl_noteHints_le
    (measure : Std.ExtTreeMap String ReceivedHint → Nat) (unit : Nat)
    (adopted : ∀ hints candidate,
      measure (noteCandidate source hints candidate) ≤ measure hints + unit)
    (dropped : ∀ hints id,
      measure (noteDropped source hints id) ≤ measure hints)
    (muted : ∀ hints : Std.ExtTreeMap String ReceivedHint,
      measure (hints.filter fun _ hint => hint.source ≠ source) ≤
        measure hints)
    (hints : Std.ExtTreeMap String ReceivedHint) (events : List PexEvent) :
    measure (events.foldl (noteHints source) hints) ≤
      measure hints + unit * (events.flatMap PexEvent.surfaced).length := by
  induction events generalizing hints with
  | nil => exact le_rfl
  | cons event events induction =>
      have later := induction (noteHints source hints event)
      have now : measure (noteHints source hints event) ≤
          measure hints + unit * event.surfaced.length := by
        cases event with
        | candidates peers => exact foldl_le measure _ unit adopted hints peers
        | dropped peerIds =>
            have none := foldl_le measure _ 0 dropped hints peerIds
            rw [Nat.zero_mul] at none
            exact none
        | violation code mute =>
            cases mute
            · exact le_rfl
            · exact muted hints
      rw [List.foldl_cons, List.flatMap_cons, List.length_append, Nat.mul_add]
      omega

theorem card_foldl_noteHints (events : List PexEvent) :
    (hintedBy wanted (events.foldl (noteHints source) hints)).card ≤
      (hintedBy wanted hints).card +
        (wanted source).toNat *
          (events.flatMap PexEvent.surfaced).length := by
  refine foldl_noteHints_le (fun hints => (hintedBy wanted hints).card) _
    ?_ ?_ ?_ hints events
  · intro hints candidate
    refine (Finset.card_le_card (hintedBy_noteCandidate candidate)).trans ?_
    cases wanted source
    · exact le_rfl
    · exact Finset.card_insert_le _ _
  · exact fun hints id => Finset.card_le_card (hintedBy_noteDropped id).1
  · exact fun hints => Finset.card_le_card (hintedBy_filter source).1

/-- The events of an answer take at most one hint from the other sources for
each candidate. -/
theorem card_lost_foldl_noteHints (unwanted : wanted source = false)
    (events : List PexEvent) :
    (hintedBy wanted hints \
        hintedBy wanted (events.foldl (noteHints source) hints)).card ≤
      (events.flatMap PexEvent.surfaced).length := by
  have apart : ∀ before after : Std.ExtTreeMap String ReceivedHint,
      (hintedBy wanted hints \ hintedBy wanted after).card ≤
        (hintedBy wanted hints \ hintedBy wanted before).card +
          (hintedBy wanted before \ hintedBy wanted after).card :=
    fun before after => (Finset.card_le_card (sdiff_triangle _ _ _)).trans
      (Finset.card_union_le _ _)
  have kept : ∀ before after : Std.ExtTreeMap String ReceivedHint,
      hintedBy wanted before ⊆ hintedBy wanted after →
        (hintedBy wanted hints \ hintedBy wanted after).card ≤
          (hintedBy wanted hints \ hintedBy wanted before).card :=
    fun before after within =>
      Finset.card_le_card (Finset.sdiff_subset_sdiff subset_rfl within)
  have bound := foldl_noteHints_le
    (fun later => (hintedBy wanted hints \ hintedBy wanted later).card) 1
    (fun later candidate => (apart later _).trans
      (Nat.add_le_add_left (card_lost_noteCandidate candidate) _))
    (fun later id => kept _ _ ((hintedBy_noteDropped id).2 unwanted))
    (fun later => kept _ _ ((hintedBy_filter source).2 unwanted)) hints events
  rw [sdiff_self, Finset.bot_eq_empty, Finset.card_empty, Nat.zero_add,
    Nat.one_mul] at bound
  exact bound

end Hints

/-! ## Runs -/

/-- How many hints came from a link. -/
def PexEngine.share (engine : PexEngine) (peerId : String) : Nat :=
  (hintedBy (fun source => source = peerId) engine.hints).card

/-- How many hints of other links a call takes when it is a message of a
link. -/
def displaced (peerId : String) (engine : PexEngine) : Call → Nat
  | .onMessage source message nowMs =>
      if source = peerId then
        (hintedBy (fun other => other ≠ peerId) engine.hints \
          hintedBy (fun other => other ≠ peerId)
            (engine.onMessage source message nowMs).1.hints).card
      else
        0
  | _ => 0

/-- The candidates an event surfaces from a link. -/
def brought (peerId : String) (event : Call × Response) : Nat :=
  ((answerTo peerId event).elim [] Response.surfaced).length

variable [DefaultHasher] {engine : PexEngine} {peerId : String}

theorem share_engineStep (call : Call) :
    (engineStep engine call).1.share peerId ≤
      engine.share peerId +
        brought peerId (call, (engineStep engine call).2) := by
  have hints : (engineStep engine call).1.hints = _ :=
    congrArg Account.hints (account_engineStep engine call)
  unfold PexEngine.share
  rw [hints]
  cases call with
  | onMessage source message nowMs =>
      have gained := @card_foldl_noteHints
        (fun other => other = peerId) source engine.hints
        (engine.onMessage source message nowMs).2.events
      refine gained.trans (Nat.add_le_add_left ?_ _)
      by_cases own : source = peerId
      · simp [own, brought, answerTo, engineStep, Response.surfaced,
          PexOutcome.surfaced]
      · simp [own]
  | recordViolation source code nowMs =>
      have gained := @card_foldl_noteHints
        (fun other => other = peerId) source engine.hints
        (engine.recordViolation source code nowMs).2.events
      refine gained.trans (Nat.add_le_add_left ?_ _)
      simp [PexEngine.recordViolation_eq, PexEngine.violationOutcome,
        PexEvent.surfaced]
  | linkDown closed => exact Finset.card_le_card (hintedBy_filter closed).1
  | _ => exact Nat.le_add_right _ _

theorem displaced_le (call : Call) :
    displaced peerId engine call ≤
      brought peerId (call, (engineStep engine call).2) := by
  cases call with
  | onMessage source message nowMs =>
      simp only [displaced]
      split
      · rename_i own
        rw [engine.hints_onMessage]
        refine (card_lost_foldl_noteHints (by simp [own]) _).trans ?_
        simp [own, brought, answerTo, engineStep, Response.surfaced,
          PexOutcome.surfaced]
      · exact Nat.zero_le _
  | _ => exact Nat.zero_le _

/-- What the messages of a link surface bounds what it gains and what it takes
from the others. -/
theorem share_final (start : PexEngine) (peerId : String)
    (calls : List Call) :
    let surfaced := tally Response.surfaced peerId
      (engineStep.trace start calls)
    (engineStep.final start calls).share peerId ≤
        start.share peerId + surfaced ∧
      ((engineStep.observed (displaced peerId)).outputs start calls).sum ≤
        surfaced := by
  induction calls using List.reverseRecOn with
  | nil => exact ⟨le_rfl, le_rfl⟩
  | append_singleton calls call induction =>
      obtain ⟨gained, lost⟩ := induction
      have gains := @share_engineStep _ (engineStep.final start calls) peerId
        call
      have loses := @displaced_le _ (engineStep.final start calls) peerId call
      rw [Machine.final_concat, Machine.trace_concat, tally_concat,
        Machine.outputs_observed_concat, List.sum_append, List.sum_singleton]
      simp only [brought] at gains loses
      dsimp only
      omega

/-- One link takes over the hints slowly.  Over any part of a run within one
lifetime of a link, and however the clock values of its messages lie in a
span, the link gains at most 200 hints and 50 for each arrival floor that fits
the span, and takes at most as many from the other links, whether by fresher
entries or by eviction; and it starts with none if it was not up. -/
theorem share_bounded (cfg : PexConfig) (earlier later : List Call)
    (peerId : String) (startMs endMs : Nat)
    (within : ∀ call ∈ later, Within peerId startMs endMs call) :
    let start := engineStep.final (.new cfg) earlier
    let reached := engineStep.final start later
    let rounds :=
      (endMs - startMs) / (reached.link peerId).direction.floorMs
    reached.share peerId ≤ start.share peerId + 200 + 50 * rounds ∧
      ((engineStep.observed (displaced peerId)).outputs start later).sum ≤
        200 + 50 * rounds ∧
      (start.links[peerId]? = none → start.share peerId = 0) := by
  intro start reached rounds
  have memory := (ReceiverMemory.start cfg).run earlier
  obtain ⟨arrived, arrivals, candidates, _⟩ :=
    (inflow_final memory within).arrived
  have fits : arrived ≤ rounds + 1 := arrivals.le
  obtain ⟨gained, lost⟩ := share_final start peerId later
  have bound : tally Response.surfaced peerId
      (engineStep.trace start later) ≤ 200 + 50 * rounds := by
    refine le_trans candidates ?_
    omega
  refine ⟨?_, lost.trans bound, fun absent => ?_⟩
  · rw [Nat.add_assoc]
    exact gained.trans (Nat.add_le_add_left bound _)
  · refine Finset.card_eq_zero.mpr (Finset.eq_empty_of_forall_notMem ?_)
    intro id member
    obtain ⟨hint, lookup, own⟩ := mem_hintedBy.mp member
    obtain rfl : hint.source = peerId := by simpa using own
    have live := (memory.hint id hint lookup).sourceLive
    rw [Std.ExtTreeMap.mem_iff_isSome_getElem?, absent] at live
    cases live

omit [DefaultHasher] in
/-- A link that comes up later takes the hint of another link with a fresher
entry. -/
theorem share_bounded_fresher :
    let cfg := exampleConfig (exampleId 'a')
    let opening := PexMessage.pexHandshake 1 "network" 60 []
    let earlier : List Call :=
      [.onMessage (exampleId 'c') opening 1000000,
        .onMessage (exampleId 'c')
          (.pexSnapshot [exampleEntry 'd' 900 9444]) 1000000]
    let later : List Call :=
      [.onMessage (exampleId 'b') opening 1000000,
        .onMessage (exampleId 'b') (.pexSnapshot
          [exampleEntry 'd' 950 9444, exampleEntry 'e' 900 9444]) 1000000]
    let start := (@engineStep sipHasher).final (.new cfg) earlier
    let reached := (@engineStep sipHasher).final start later
    let rounds := (1060000 - 1000000) /
      (reached.link (exampleId 'b')).direction.floorMs
    reached.share (exampleId 'b') ≤
        start.share (exampleId 'b') + 200 + 50 * rounds ∧
      (((@engineStep sipHasher).observed
        (displaced (exampleId 'b'))).outputs start later).sum ≤
          200 + 50 * rounds ∧
      (start.links[exampleId 'b']? = none →
        start.share (exampleId 'b') = 0) := by
  intro cfg opening earlier later start reached rounds
  exact @share_bounded sipHasher cfg earlier later (exampleId 'b') 1000000
    1060000 (by decide)

end DigPex
