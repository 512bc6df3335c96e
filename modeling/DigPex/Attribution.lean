import DigPex.Concrete
import DigPex.HintReasons

/-!
# Hints are attributable to their sources

The source of a hint has told the id, and its map holds the id until the link
withdraws it, is silenced, or the cap of the map forces it out.  The first two
take the hint away as well; the cap does not.
-/

namespace DigPex

namespace Hearsay

/-- The cap has forced an id out of the map of a link, and the link has not
told it again since. -/
def ForcedOut (reports : List Report) (link id : String) : Prop :=
  ∃ early newcomer late, reports = early ++ .tell link newcomer :: late ∧
    FiniteMap.GivesWay (fun lastSeen : Nat => lastSeen)
      pexMaxReceivedPerLink ((hear.final empty early).received link)
      newcomer.peerId id ∧
    ∀ candidate, .tell link candidate ∈ late → candidate.peerId ≠ id

/-- The map of a link holds an id, or the cap has forced it out. -/
def Accounted (reports : List Report) (link id : String) : Prop :=
  id ∈ (hear.final empty reports).received link ∨
    ForcedOut reports link id

variable {reports : List Report} {link id : String}

theorem ForcedOut.concat (forced : ForcedOut reports link id)
    {report : Report}
    (silent : ∀ candidate, report = .tell link candidate →
      candidate.peerId ≠ id) :
    ForcedOut (reports ++ [report]) link id := by
  obtain ⟨early, newcomer, late, rfl, gives, last⟩ := forced
  refine ⟨early, newcomer, late ++ [report], by simp, gives, ?_⟩
  intro candidate member
  rcases List.mem_append.mp member with member | member
  · exact last candidate member
  · exact silent candidate (List.mem_singleton.mp member).symm

theorem Accounted.tell (accounted : Accounted reports link id)
    (source : String) (candidate : PeerEntry) :
    Accounted (reports ++ [.tell source candidate]) link id := by
  have bounded := (bounded_final .empty reports).received link
  by_cases own : link = source
  · subst own
    have received : (hear.final empty
          (reports ++ [.tell link candidate])).received link =
        FiniteMap.insertCapped (fun lastSeen : Nat => lastSeen)
          pexMaxReceivedPerLink
          ((hear.final empty reports).received link) candidate.peerId
          candidate.lastSeen := by
      rw [Machine.final_concat, hear_tell]
      dsimp only
      rw [setReceived_received, if_pos rfl]
      rfl
    by_cases same : candidate.peerId = id
    · refine .inl ?_
      rw [received, Std.ExtTreeMap.mem_iff_isSome_getElem?, ← same,
        FiniteMap.getElem?_insertCapped_self]
      rfl
    · rcases accounted with present | forced
      · rcases FiniteMap.mem_insertCapped_or_evicted
            (fun lastSeen : Nat => lastSeen) present pexMaxReceivedPerLink
            candidate.peerId candidate.lastSeen with kept | evicted
        · apply Or.inl
          rwa [received]
        · exact .inr ⟨reports, candidate, [], rfl,
            FiniteMap.givesWay_of_evicted _ bounded evicted, nofun⟩
      · refine .inr (forced.concat ?_)
        rintro other ⟨⟩
        exact same
  · rcases accounted with present | forced
    · refine .inl ?_
      rw [Machine.final_concat, hear_tell]
      dsimp only
      rwa [setReceived_received, if_neg own]
    · refine .inr (forced.concat ?_)
      rintro other ⟨⟩
      exact absurd rfl own

theorem Accounted.tells (accounted : Accounted reports link id)
    {told : List Report}
    (telling : ∀ report ∈ told, ∃ source candidate,
      report = .tell source candidate) :
    Accounted (reports ++ told) link id := by
  induction told generalizing reports with
  | nil => rwa [List.append_nil]
  | cons report told induction =>
      obtain ⟨source, candidate, rfl⟩ := telling report List.mem_cons_self
      rw [List.append_cons]
      exact induction (accounted.tell source candidate)
        fun report member => telling report (List.mem_cons_of_mem _ member)

theorem Accounted.withdraw (accounted : Accounted reports link id)
    {source withdrawn : String}
    (other : source = link → withdrawn = id →
      id ∉ (hear.final empty reports).received link) :
    Accounted (reports ++ [.withdraw source withdrawn]) link id := by
  rcases accounted with present | forced
  · refine .inl ?_
    rw [Machine.final_concat, received_withdraw]
    split
    · rename_i own
      subst own
      have different : withdrawn ≠ id :=
        fun same => other rfl same present
      grind
    · exact present
  · exact .inr (forced.concat nofun)

theorem Accounted.silence (accounted : Accounted reports link id)
    {source : String} (other : source ≠ link) :
    Accounted (reports ++ [.silence source]) link id := by
  rcases accounted with present | forced
  · refine .inl ?_
    rw [Machine.final_concat]
    rwa [received_silence, if_neg (Ne.symm other)]
  · exact .inr (forced.concat nofun)

theorem accounted_hint (reports : List Report) {id : String}
    {hint : ReceivedHint}
    (current : (hear.final empty reports).hints[id]? = some hint) :
    Accounted reports hint.source id := by
  induction reports using List.reverseRecOn generalizing hint with
  | nil => simp [empty] at current
  | append_singleton reports report induction =>
      rw [Machine.final_concat] at current
      cases report with
      | tell source candidate =>
          rw [hear_tell] at current
          dsimp only at current
          split at current
          · rcases FiniteMap.getElem?_of_insertCapped _ current with
              ⟨rfl, rfl⟩ | ⟨_, old⟩
            · refine .inl ?_
              rw [Machine.final_concat, hear_tell]
              dsimp only
              rw [setReceived_received, if_pos rfl,
                Std.ExtTreeMap.mem_iff_isSome_getElem?,
                FiniteMap.getElem?_insertCapped_self]
              rfl
            · exact (induction old).tell source candidate
          · exact (induction current).tell source candidate
      | withdraw source withdrawn =>
          rw [hints_withdraw] at current
          split at current
          · have different : withdrawn ≠ id := by
              rintro rfl
              simp at current
            exact (induction (by grind)).withdraw
              fun _ same => absurd same different
          · rename_i kept
            apply (induction current).withdraw
            rintro rfl rfl present
            exact kept ⟨present, hint, current, rfl⟩
      | silence source =>
          rw [hints_silence] at current
          obtain ⟨old, other⟩ := Option.filter_eq_some_iff.mp current
          exact (induction old).silence (Ne.symm (of_decide_eq_true other))

/-! ## Withdrawals of the source -/

variable {memory : Hearsay} {source : String}

theorem owned_of_tells {told : List Report}
    (telling : ∀ report ∈ told, ∃ candidate,
      report = .tell source candidate)
    (owned : ∀ hint, memory.hints[id]? = some hint → hint.source = source) :
    ∀ hint, (hear.final memory told).hints[id]? = some hint →
      hint.source = source := by
  induction told generalizing memory with
  | nil => exact owned
  | cons report told induction =>
      obtain ⟨candidate, rfl⟩ := telling report List.mem_cons_self
      apply induction
      · exact fun next member => telling next (List.mem_cons_of_mem _ member)
      · intro hint lookup
        rw [hear_tell] at lookup
        dsimp only at lookup
        split at lookup
        · rcases FiniteMap.getElem?_of_insertCapped _ lookup with
            ⟨_, rfl⟩ | ⟨_, old⟩
          · rfl
          · exact owned hint old
        · exact owned hint lookup

theorem no_hint_of_withdrawals (gone : memory.hints[id]? = none)
    (dropped : List String) :
    (hear.final memory (dropped.map (.withdraw source))).hints[id]? =
      none := by
  induction dropped generalizing memory with
  | nil => exact gone
  | cons first dropped induction =>
      apply induction
      rw [hints_withdraw]
      split
      · grind
      · exact gone

theorem hint_withdrawn {dropped : List String} (listed : id ∈ dropped)
    (told : id ∈ memory.received source)
    (owned : ∀ hint, memory.hints[id]? = some hint → hint.source = source) :
    (hear.final memory (dropped.map (.withdraw source))).hints[id]? =
      none := by
  induction dropped generalizing memory with
  | nil => cases listed
  | cons first dropped induction =>
      rw [List.map_cons, Machine.final_cons]
      by_cases same : first = id
      · subst same
        apply no_hint_of_withdrawals
        rw [hints_withdraw]
        cases lookup : memory.hints[first]? with
        | none => split <;> grind
        | some hint =>
            rw [if_pos ⟨told, hint, rfl, owned hint lookup⟩]
            simp
      · apply induction
        · exact (List.mem_cons.mp listed).resolve_left (Ne.symm same)
        · rw [received_withdraw, if_pos rfl]
          grind
        · intro hint lookup
          rw [hints_withdraw] at lookup
          apply owned
          split at lookup
          · grind
          · exact lookup

end Hearsay

/-- The ids an event says are no longer listed. -/
def PexEvent.unlisted : PexEvent → List String
  | .dropped peerIds => peerIds
  | _ => []

def PexOutcome.unlisted (outcome : PexOutcome) : List String :=
  outcome.events.flatMap PexEvent.unlisted

def Response.unlisted : Response → List String
  | .outcome answer => answer.unlisted
  | _ => []

namespace PexEngine

variable {engine : PexEngine} {source : String} {nowMs : Nat}
  {added : List PeerEntry} {dropped : List String}

theorem unlisted_ingestDropped (engine : PexEngine) :
    (engine.ingestDropped source dropped).2.unlisted =
      ((ingestDroppedId source).outputs engine dropped).reduceOption := by
  simp only [ingestDropped]
  split
  · rename_i empty
    exact (List.isEmpty_iff.mp empty).symm
  · simp [PexOutcome.unlisted, PexEvent.unlisted]

theorem mem_unlisted {id : String} (listed : id ∈ dropped)
    (told : id ∈ engine.hearsay.received source) :
    id ∈ ((ingestDroppedId source).outputs engine dropped).reduceOption := by
  rw [List.reduceOption_mem_iff]
  induction dropped generalizing engine with
  | nil => cases listed
  | cons first dropped induction =>
      rw [Machine.outputs_cons, List.mem_cons]
      by_cases same : first = id
      · subst same
        exact .inl (congrArg Prod.snd (ingestDroppedId_of_told told)).symm
      · refine .inr (induction ?_ ?_)
        · exact (List.mem_cons.mp listed).resolve_left (Ne.symm same)
        · rw [← hear_ingestDroppedId, Hearsay.received_withdraw, if_pos rfl]
          grind

theorem hearsay_ingested (engine : PexEngine) (message : PexMessage) :
    ((engine.setLink source ((engine.link source).advance message
        nowMs)).ingestAdded source added nowMs).1.hearsay =
      Hearsay.hear.final engine.hearsay
        (engine.tells source (nowMs / 1000) added) := by
  have start : (engine.setLink source ((engine.link source).advance message
      nowMs)).hearsay = engine.hearsay :=
    engine.hearsay_setLink_of_received source
      ((engine.link source).advance_kept message nowMs).1
  have told := (@hear_ingestEntries (engine.setLink source
    ((engine.link source).advance message nowMs)) source (nowMs / 1000)
      added).1
  rw [start] at told
  exact told.symm

/-- An accepted delta clears the hint of an id it drops and reports it, if
after its entries the map of the hint's source holds the id. -/
theorem accept_drops {id : String} (listed : id ∈ dropped)
    (told : id ∈ (Hearsay.hear.final engine.hearsay
      (engine.tells source (nowMs / 1000) added)).received source)
    (owned : ∀ hint, engine.hints[id]? = some hint → hint.source = source) :
    let answered := engine.accept source (.pexDelta added dropped) nowMs
    answered.1.hints[id]? = none ∧ id ∈ answered.2.unlisted := by
  intro answered
  constructor
  · have heard := (@hear_accept engine source (.pexDelta added dropped)
      nowMs).1
    rw [messageReports, Machine.final_append] at heard
    have gone := Hearsay.hint_withdrawn listed told
      (Hearsay.owned_of_tells (fun report member => by
        obtain ⟨entry, _, rfl⟩ := List.mem_map.mp member
        exact ⟨_, rfl⟩) owned)
    rw [heard] at gone
    exact gone
  · have between := @hearsay_ingested source nowMs added engine
      (.pexDelta added dropped)
    rw [← between] at told
    have reported := mem_unlisted listed told
    rw [← unlisted_ingestDropped] at reported
    simp only [answered, accept, PexOutcome.unlisted, List.flatMap_append,
      List.mem_append]
    exact .inr reported

end PexEngine

section Runs

variable [DefaultHasher]

/-- Hints are attributable to their sources up to the cap.  In every reachable
state the source's map holds the id of a hint, or the cap has forced the id out
since the source last told it; so an accepted delta of the source that drops
the id clears the hint and reports the id, or the id has been so forced out by
then. -/
theorem hints_attributable (cfg : PexConfig) (calls : List Call) :
    let engine := engineStep.final (PexEngine.new cfg) calls
    (∀ (id : String) (hint : ReceivedHint), engine.hints[id]? = some hint →
      id ∈ (engine.link hint.source).received ∨
        Hearsay.ForcedOut (heard cfg calls) hint.source id) ∧
    ∀ (source : String) (added : List PeerEntry) (dropped : List String)
        (nowMs : Nat) (id : String) (hint : ReceivedHint),
      engine.Accepts source (.pexDelta added dropped) nowMs →
        engine.hints[id]? = some hint → hint.source = source →
          id ∈ dropped →
            let answered := engineStep engine
              (.onMessage source (.pexDelta added dropped) nowMs)
            answered.1.hints[id]? = none ∧ id ∈ answered.2.unlisted ∨
              Hearsay.ForcedOut
                (heard cfg calls ++
                  engine.tells source (nowMs / 1000) added)
                source id := by
  intro engine
  have memory : Hearsay.hear.final .empty (heard cfg calls) =
      engine.hearsay := hear_heard cfg calls
  have accounted : ∀ (id : String) (hint : ReceivedHint),
      engine.hints[id]? = some hint →
        Hearsay.Accounted (heard cfg calls) hint.source id := by
    intro id hint current
    apply Hearsay.accounted_hint
    rw [memory]
    exact current
  constructor
  · intro id hint current
    rcases accounted id hint current with present | forced
    · rw [memory] at present
      exact .inl present
    · exact .inr forced
  · rintro source added dropped nowMs id hint accepted current rfl listed
      answered
    have told : ∀ report ∈ engine.tells hint.source (nowMs / 1000) added,
        ∃ candidate, report = .tell hint.source candidate := by
      intro report member
      obtain ⟨entry, _, rfl⟩ := List.mem_map.mp member
      exact ⟨_, rfl⟩
    have atDrop := (accounted id hint current).tells
      fun report member => ⟨hint.source, told report member⟩
    rcases atDrop with present | forced
    · rw [Machine.final_append, memory] at present
      have owned : ∀ other, engine.hints[id]? = some other →
          other.source = hint.source := by
        intro other same
        rw [current] at same
        rw [Option.some.inj same]
      have drops := PexEngine.accept_drops listed present owned
      apply Or.inl
      simp only [answered, engineStep,
        PexEngine.onMessage_of_accepts accepted]
      exact drops
    · exact .inr forced

end Runs

/-! ## A link that tells more than its map holds -/

theorem Hearsay.hints_of_told (source : String)
    {candidates : List PeerEntry} (room : candidates.length ≤ pexMaxHints) :
    let memory := hear.final empty (candidates.map (.tell source))
    memory.hints.size ≤ candidates.length ∧
      ∀ candidate ∈ candidates, candidate.peerId ∈ memory.hints := by
  induction candidates using List.reverseRecOn with
  | nil => simp [empty]
  | append_singleton candidates last induction =>
      rw [List.length_append, List.length_singleton] at room
      obtain ⟨small, told⟩ := induction (by omega)
      have full : (hear.final empty
          (candidates.map (.tell source))).hints.size < pexMaxHints := by
        omega
      rw [List.map_append, List.map_singleton, Machine.final_concat, hear_tell]
      dsimp only
      rw [FiniteMap.insertCapped_of_lt ReceivedHint.lastSeen full]
      split
      · constructor
        · rw [List.length_append, List.length_singleton]
          exact Std.ExtTreeMap.size_insert_le.trans (by omega)
        · intro candidate member
          rcases List.mem_append.mp member with earlier | same
          · have present := told candidate earlier
            grind
          · rw [List.mem_singleton.mp same]
            simp
      · rename_i staler
        refine ⟨by simp; omega, ?_⟩
        intro candidate member
        rcases List.mem_append.mp member with earlier | same
        · exact told candidate earlier
        · rw [List.mem_singleton.mp same]
          unfold isFresher at staler
          by_contra absent
          have none : (hear.final empty
              (candidates.map (.tell source))).hints[last.peerId]? = none := by
            grind
          simp [none] at staler

/-- More candidates than the map of a link holds, told within the room for
hints, leave a hint whose id the map does not hold. -/
theorem Hearsay.hint_without_record (source : String)
    {candidates : List PeerEntry}
    (distinct : (candidates.map PeerEntry.peerId).Nodup)
    (many : pexMaxReceivedPerLink < candidates.length)
    (room : candidates.length ≤ pexMaxHints) :
    let memory := hear.final empty (candidates.map (.tell source))
    ∃ id hint, memory.hints[id]? = some hint ∧ hint.source = source ∧
      id ∉ memory.received source := by
  intro memory
  obtain ⟨_, told⟩ := hints_of_told source room
  have bounded := (bounded_final .empty
    (candidates.map (Report.tell source))).received source
  have missing : ∃ candidate ∈ candidates,
      candidate.peerId ∉ memory.received source := by
    by_contra all
    push Not at all
    have within : (candidates.map PeerEntry.peerId).toFinset ⊆
        (memory.received source).keys.toFinset := by
      intro id member
      obtain ⟨candidate, listed, rfl⟩ :=
        List.mem_map.mp (List.mem_toFinset.mp member)
      rw [FiniteMap.mem_keys_toFinset]
      exact all candidate listed
    have counted := Finset.card_le_card within
    rw [List.toFinset_card_of_nodup distinct, FiniteMap.card_keys,
      List.length_map] at counted
    exact absurd (counted.trans bounded) (by omega)
  obtain ⟨candidate, listed, absent⟩ := missing
  obtain ⟨hint, lookup⟩ :=
    FiniteMap.mem_iff_lookup.mp (told candidate listed)
  refine ⟨candidate.peerId, hint, lookup, ?_, absent⟩
  refine owned_of_tells ?_ ?_ hint lookup
  · intro report member
    obtain ⟨other, _, rfl⟩ := List.mem_map.mp member
    exact ⟨other, rfl⟩
  · simp [empty]

/-- The id that writes a number in 64 binary digits. -/
def binaryId (number : Nat) : String :=
  String.ofList ((List.range 64).map fun digit =>
    if number.testBit digit then '1' else '0')

theorem mem_binaryId {number : Nat} {character : Char}
    (member : character ∈ (binaryId number).toList) :
    character = '0' ∨ character = '1' := by
  rw [binaryId, String.toList_ofList] at member
  obtain ⟨digit, _, rfl⟩ := List.mem_map.mp member
  split
  · exact .inr rfl
  · exact .inl rfl

theorem isHex64_binaryId (number : Nat) :
    isHex64 (binaryId number) = true := by
  have size : (binaryId number).utf8ByteSize = 64 := by
    have single : ∀ character ∈ (binaryId number).toList,
        (String.utf8EncodeChar character).length = 1 := by
      intro character member
      rcases mem_binaryId member with rfl | rfl <;> rfl
    have length : (binaryId number).toList.length = 64 := by
      simp [binaryId]
    rw [← length_utf8, utf8, List.length_flatMap,
      List.map_congr_left single, List.map_const', length]
    rfl
  rw [isHex64, size, Bool.and_eq_true, List.all_eq_true]
  refine ⟨rfl, ?_⟩
  intro character member
  rcases mem_binaryId member with rfl | rfl <;> rfl

theorem binaryId_injective {left right : Nat} (leftSmall : left < 2 ^ 64)
    (rightSmall : right < 2 ^ 64) (same : binaryId left = binaryId right) :
    left = right := by
  have lists := List.map_inj_left.mp (String.ofList_injective same)
  apply Nat.eq_of_testBit_eq
  intro digit
  by_cases low : digit < 64
  · have bits := lists digit (List.mem_range.mpr low)
    revert bits
    cases left.testBit digit <;> cases right.testBit digit <;> decide
  · have wide : 2 ^ 64 ≤ 2 ^ digit := Nat.pow_le_pow_right (by decide)
      (by omega)
    rw [Nat.testBit_lt_two_pow (leftSmall.trans_le wide),
      Nat.testBit_lt_two_pow (rightSmall.trans_le wide)]

/-- The fifty entries of a delta of a crowd; their timestamps are clamped to
the receiver's clock. -/
def crowdEntries (delta : Nat) : List PeerEntry :=
  (List.range 50).map fun index =>
    PeerEntry.new (binaryId (50 * delta + index)) "network" 1000000 .direct

/-- A link that opens and then sends deltas of fifty new entries a minute. -/
def crowd : Nat → List Call
  | 0 =>
      [.onMessage (exampleId 'b') (.pexHandshake 1 "network" 60 []) 0,
        .onMessage (exampleId 'b') (.pexSnapshot []) 0]
  | deltas + 1 =>
      crowd deltas ++
        [.onMessage (exampleId 'b') (.pexDelta (crowdEntries deltas) [])
          (60000 * (deltas + 1))]

/-- The candidates a crowd tells. -/
def crowdCandidates : Nat → List PeerEntry
  | 0 => []
  | deltas + 1 =>
      crowdCandidates deltas ++
        (crowdEntries deltas).map (·.clamped (60 * (deltas + 1)))

theorem crowdCandidates_ids (deltas : Nat) :
    (crowdCandidates deltas).map PeerEntry.peerId =
      (List.range (50 * deltas)).map binaryId := by
  induction deltas with
  | zero => rfl
  | succ deltas induction =>
      have next : 50 * (deltas + 1) = 50 * deltas + 50 := by omega
      rw [crowdCandidates, List.map_append, induction, next, List.range_add,
        List.map_append]
      simp [crowdEntries, Function.comp_def, PeerEntry.new]

theorem keeps_crowdEntries {engine : PexEngine}
    (cfg : engine.cfg = exampleConfig (exampleId 'a')) {nowSecs : Nat}
    (soon : nowSecs ≤ 1000000) {delta : Nat} {entry : PeerEntry}
    (member : entry ∈ crowdEntries delta) :
    engine.Keeps (exampleId 'b') nowSecs entry := by
  obtain ⟨index, _, rfl⟩ := List.mem_map.mp member
  have other : ∀ digit : Char, digit ≠ '0' → digit ≠ '1' →
      binaryId (50 * delta + index) ≠ exampleId digit := by
    intro digit notZero notOne same
    have first : digit ∈ (binaryId (50 * delta + index)).toList := by
      simp [same, exampleId]
    rcases mem_binaryId first with zero | one
    · exact notZero zero
    · exact notOne one
  refine (PeerEntry.validate_eq_ok_iff _ _).mpr ⟨?_, ?_⟩
  · constructor
    · exact isHex64_binaryId _
    · simp only [PexEngine.validateCtx, cfg]
      exact other 'a' (by decide) (by decide)
    · exact other 'b' (by decide) (by decide)
    all_goals simp [PeerEntry.new, PexEngine.validateCtx, cfg, exampleConfig,
      Provenance.isRegistered]
  · simp only [PexEngine.validateCtx, PeerEntry.new]
    omega

section Crowd

variable [DefaultHasher]

theorem crowd_opened :
    ((engineStep.final (PexEngine.new (exampleConfig (exampleId 'a')))
        (crowd 0)).link (exampleId 'b')).direction =
        { phase := .streaming
          remoteDeclaredSecs := some 60
          lastArrivalMs := some 0
          strikes := 0
          muted := false } ∧
      heard (exampleConfig (exampleId 'a')) (crowd 0) = [] := by
  let cfg := exampleConfig (exampleId 'a')
  let hello := Call.onMessage (exampleId 'b')
    (.pexHandshake 1 "network" 60 []) 0
  let start := PexEngine.new cfg
  have greeted : start.Accepts (exampleId 'b')
      (.pexHandshake 1 "network" 60 []) 0 := by
    unfold PexEngine.Accepts
    rw [PexEngine.link_new]
    rfl
  have direction := PexEngine.direction_of_accepts greeted
  rw [PexEngine.link_new] at direction
  have opened : (engineStep start hello).1.Accepts (exampleId 'b')
      (.pexSnapshot []) 0 := by
    unfold PexEngine.Accepts
    rw [direction]
    rfl
  constructor
  · have streaming := PexEngine.direction_of_accepts opened
    rw [direction] at streaming
    exact streaming
  · have first := PexEngine.reportsOf_of_accepts greeted
    have second := PexEngine.reportsOf_of_accepts opened
    have reports : heard cfg (crowd 0) =
        start.reportsOf hello ++
          (engineStep start hello).1.reportsOf
            (.onMessage (exampleId 'b') (.pexSnapshot []) 0) := by
      simp [heard, crowd, Machine.observed, start, hello]
    rw [reports, first, second]
    rfl

theorem crowd_heard (deltas : Nat) (soon : 60 * deltas ≤ 1000000) :
    ((engineStep.final (PexEngine.new (exampleConfig (exampleId 'a')))
        (crowd deltas)).link (exampleId 'b')).direction =
        { phase := .streaming
          remoteDeclaredSecs := some 60
          lastArrivalMs := some (60000 * deltas)
          strikes := 0
          muted := false } ∧
      heard (exampleConfig (exampleId 'a')) (crowd deltas) =
        (crowdCandidates deltas).map (.tell (exampleId 'b')) := by
  induction deltas with
  | zero => exact crowd_opened
  | succ deltas induction =>
      obtain ⟨direction, told⟩ := induction (by omega)
      let engine := engineStep.final (PexEngine.new
        (exampleConfig (exampleId 'a'))) (crowd deltas)
      have config : engine.cfg = exampleConfig (exampleId 'a') :=
        cfg_final _ _
      have accepted : engine.Accepts (exampleId 'b')
          (.pexDelta (crowdEntries deltas) []) (60000 * (deltas + 1)) := by
        unfold PexEngine.Accepts
        rw [direction, Direction.judge_eq_accepted_iff]
        refine ⟨rfl, rfl, ?_, ?_, by simp, by simp⟩
        · rintro last ⟨⟩
          simp only [Option.getD_some]
          have floor : arrivalFloorMs 60 = 55000 := by decide
          omega
        · simp [crowdEntries, pexMaxAdded]
      have secs : 60000 * (deltas + 1) / 1000 = 60 * (deltas + 1) := by omega
      have tells : engine.tells (exampleId 'b') (60 * (deltas + 1))
            (crowdEntries deltas) =
          ((crowdEntries deltas).map (·.clamped (60 * (deltas + 1)))).map
            (.tell (exampleId 'b')) := by
        rw [PexEngine.tells, List.filter_eq_self.mpr, List.map_map]
        · rfl
        · intro entry member
          exact decide_eq_true (keeps_crowdEntries config soon member)
      constructor
      · rw [crowd, Machine.final_concat,
          PexEngine.direction_of_accepts accepted, direction]
        rfl
      · rw [crowd, heard_concat, told, PexEngine.reportsOf_of_accepts accepted,
          PexEngine.messageReports, secs, tells, crowdCandidates,
          List.map_append, List.map_nil, List.append_nil]

/-- A crowd that tells more ids than the map of its link holds leaves a hint
without a record. -/
theorem crowd_without_record (deltas : Nat)
    (many : pexMaxReceivedPerLink < 50 * deltas)
    (room : 50 * deltas ≤ pexMaxHints) :
    ¬∀ (id : String) (hint : ReceivedHint),
      (engineStep.final (PexEngine.new (exampleConfig (exampleId 'a')))
          (crowd deltas)).hints[id]? = some hint →
        id ∈ ((engineStep.final (PexEngine.new
          (exampleConfig (exampleId 'a'))) (crowd deltas)).link
            hint.source).received := by
  intro attributable
  have soon : 60 * deltas ≤ 1000000 := by
    have cap : pexMaxHints = 16384 := rfl
    omega
  have memory := hear_heard (exampleConfig (exampleId 'a')) (crowd deltas)
  rw [(crowd_heard deltas soon).2] at memory
  have ids := crowdCandidates_ids deltas
  have count : (crowdCandidates deltas).length = 50 * deltas := by
    have length := congrArg List.length ids
    simpa using length
  have distinct : ((crowdCandidates deltas).map PeerEntry.peerId).Nodup := by
    rw [ids]
    refine List.Nodup.map_on ?_ List.nodup_range
    intro left leftMember right rightMember same
    have cap : pexMaxHints = 16384 := rfl
    rw [List.mem_range] at leftMember rightMember
    exact binaryId_injective (by omega) (by omega) same
  obtain ⟨id, hint, current, sourced, absent⟩ :=
    Hearsay.hint_without_record (exampleId 'b') distinct
      (by rwa [count]) (by rwa [count])
  rw [memory] at current absent
  have present := attributable id hint current
  rw [sourced] at present
  exact absent present

end Crowd

/-- The cap separates a hint from its source.  After 82 deltas the crowd has
told 4100 ids, all of them have their hints, and the map of its link holds no
more than 4096. -/
theorem crowd_outgrows_record :
    ¬∀ (id : String) (hint : ReceivedHint),
      ((@engineStep sipHasher).final
          (PexEngine.new (exampleConfig (exampleId 'a')))
          (crowd 82)).hints[id]? = some hint →
        id ∈ (((@engineStep sipHasher).final
          (PexEngine.new (exampleConfig (exampleId 'a'))) (crowd 82)).link
            hint.source).received := by
  apply @crowd_without_record sipHasher 82
  · decide
  · decide

end DigPex
