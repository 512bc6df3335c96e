import DigPex.Concrete
import DigPex.ReceiverMemory
import DigPex.Stock
import DigPex.Surfacing

/-!
# Which advertised updates the receiver surfaces

A sender advertises an entry again when its content changed, whatever its
timestamp; a receiver surfaces an entry only when its timestamp is newer than
the current hint's.  So an update is surfaced exactly when no report that
stands in the hint table is as fresh, and which reports stand there is decided
by the message and the hints before the call.
-/

namespace DigPex

namespace PexEngine

/-- A valid entry whose current hint before the call, if there is one, comes
from the link itself. -/
structure OwnUpdate (engine : PexEngine) (peerId : String) (nowSecs : Nat)
    (entry : PeerEntry) : Prop where
  kept : engine.Keeps peerId nowSecs entry
  owned : ∀ hint, engine.hints[entry.peerId]? = some hint →
    hint.source = peerId

/-- An entry of a message that comes, itself or as an equal candidate, to no
report for its peer as fresh as it: neither its hint before the call nor an
earlier valid entry of the message is, or else another peer's entry has taken
the place of that report in the full table since. -/
def Unmatched (engine : PexEngine) (peerId : String) (nowSecs : Nat)
    (entries : List PeerEntry) (entry : PeerEntry) : Prop :=
  ∃ earlier turn later, entries = earlier ++ turn :: later ∧
    turn.clamped nowSecs = entry.clamped nowSecs ∧
    ¬FiniteMap.Lasts ReceivedHint.lastSeen pexMaxHints engine.hints
      entry.peerId (entry.clamped nowSecs).lastSeen
      (engine.offers peerId nowSecs earlier)

theorem keeps_clamped {engine : PexEngine} {peerId : String}
    {nowSecs : Nat} {entry : PeerEntry} :
    engine.Keeps peerId nowSecs (entry.clamped nowSecs) ↔
      engine.Keeps peerId nowSecs entry := by
  have fresh : nowSecs ≤ min entry.lastSeen nowSecs + pexMaxEntryAge ↔
      nowSecs ≤ entry.lastSeen + pexMaxEntryAge := by
    omega
  have formed : (entry.clamped nowSecs).WellFormed engine.cfg.localPeerId
        peerId engine.cfg.networkId ↔
      entry.WellFormed engine.cfg.localPeerId peerId
        engine.cfg.networkId := by
    unfold PeerEntry.clamped
    split
    · exact ⟨fun formed => { formed with }, fun formed => { formed with }⟩
    · exact Iff.rfl
  simp only [Keeps, PeerEntry.validate_eq_ok_iff, PeerEntry.clamped_lastSeen]
  exact and_congr formed fresh

/-- In a list that mentions no peer twice, an entry is unmatched when its
hint is staler or an earlier entry has taken the place of the hint. -/
theorem unmatched_iff_of_distinct {engine : PexEngine} {peerId : String}
    {nowSecs : Nat} {entries earlier later : List PeerEntry}
    {entry : PeerEntry} (split : entries = earlier ++ entry :: later)
    (distinct : (entries.map PeerEntry.peerId).Nodup) :
    engine.Unmatched peerId nowSecs entries entry ↔
      (∀ hint, engine.hints[entry.peerId]? = some hint →
        hint.lastSeen < (entry.clamped nowSecs).lastSeen) ∨
      ∃ before newcomer after, engine.offers peerId nowSecs earlier =
          before ++ newcomer :: after ∧
        FiniteMap.Displaces ReceivedHint.lastSeen pexMaxHints engine.hints
          before newcomer.1 entry.peerId := by
  subst split
  rw [List.map_append, List.map_cons] at distinct
  obtain ⟨_, rest, apart⟩ := List.nodup_append.mp distinct
  have absent : entry.peerId ∉ earlier.map PeerEntry.peerId :=
    fun member => apart _ member _ (List.mem_cons_self ..) rfl
  have beyond : entry.peerId ∉ later.map PeerEntry.peerId :=
    (List.nodup_cons.mp rest).1
  have unmentioned : entry.peerId ∉
      (engine.offers peerId nowSecs earlier).map Prod.fst := by
    intro member
    obtain ⟨other, listed, same⟩ := by
      simpa only [offers, List.map_map, List.mem_map] using member
    exact absent (List.mem_map.mpr
      ⟨other, List.mem_of_mem_filter listed, same⟩)
  have only : engine.Unmatched peerId nowSecs (earlier ++ entry :: later)
        entry ↔
      ¬FiniteMap.Lasts ReceivedHint.lastSeen pexMaxHints engine.hints
        entry.peerId (entry.clamped nowSecs).lastSeen
        (engine.offers peerId nowSecs earlier) := by
    constructor
    · rintro ⟨front, turn, back, split, same, stale⟩
      have samePeer : turn.peerId = entry.peerId := by
        rw [← PeerEntry.clamped_peerId, same, PeerEntry.clamped_peerId]
      have ids := congrArg (List.map PeerEntry.peerId) split
      simp only [List.map_append, List.map_cons, samePeer] at ids
      have position := (List.append_cons_inj_of_notMem absent beyond).mp ids
      have length : earlier.length = front.length := by
        simpa using congrArg List.length position.1
      rw [(List.append_inj split length).1]
      exact stale
    · intro stale
      exact ⟨earlier, entry, later, rfl, rfl, stale⟩
  rw [only, FiniteMap.lasts_iff_of_unmentioned unmentioned, not_and_or]
  refine or_congr ?_ ?_
  · simp
  · simp

end PexEngine

variable [DefaultHasher]

/-- Which updates are surfaced.  In a reachable state, a message is accepted
on a link.  A valid entry of it, whose hint, if any, comes from the link, is
surfaced exactly when no report as fresh stands for its peer.  When the
message is the delta of another engine, in which no peer occurs twice, this is
when the hint before the call is strictly staler than the entry clamped to the
receiver's clock, or an earlier entry of the delta has taken its place in the
full table. -/
theorem ownUpdate_surfaced_iff (cfg : PexConfig) (calls : List Call)
    (peerId : String) (message : PexMessage) (nowMs : Nat) :
    let engine := engineStep.final (PexEngine.new cfg) calls
    let answered := engine.onMessage peerId message nowMs
    (engine.link peerId).muted = false →
      (∀ code mute, .violation code mute ∉ answered.2.events) →
        (∀ entry ∈ message.entries,
          engine.OwnUpdate peerId (nowMs / 1000) entry →
            (entry.clamped (nowMs / 1000) ∈ answered.2.surfaced ↔
              engine.Unmatched peerId (nowMs / 1000) message.entries
                entry)) ∧
          ∀ (senderCfg : PexConfig) (senderCalls : List Call)
            (sentMs : Nat) (orders : TickOrders) (jitter : String → Jitter)
            (receiverId : String),
            (receiverId, message) ∈ ((engineStep.final
              (PexEngine.new senderCfg) senderCalls).tick sentMs orders
                jitter).2 →
              ∀ earlier entry later,
                message.entries = earlier ++ entry :: later →
                  engine.OwnUpdate peerId (nowMs / 1000) entry →
                    (entry.clamped (nowMs / 1000) ∈ answered.2.surfaced ↔
                      (∀ hint, engine.hints[entry.peerId]? = some hint →
                        hint.lastSeen <
                          (entry.clamped (nowMs / 1000)).lastSeen) ∨
                      ∃ before newcomer after,
                        engine.offers peerId (nowMs / 1000) earlier =
                          before ++ newcomer :: after ∧
                        FiniteMap.Displaces ReceivedHint.lastSeen
                          pexMaxHints engine.hints before newcomer.1
                          entry.peerId) := by
  intro engine answered unmuted faultless
  have accepted := PexEngine.judge_accepted_of_outcome unmuted faultless
  have bounded : engine.hints.size ≤ pexMaxHints :=
    ((ReceiverMemory.start cfg).run calls).bounded
  have general : ∀ entry ∈ message.entries,
      engine.OwnUpdate peerId (nowMs / 1000) entry →
        (entry.clamped (nowMs / 1000) ∈ answered.2.surfaced ↔
          engine.Unmatched peerId (nowMs / 1000) message.entries entry) := by
    intro entry member update
    have step : answered = engine.accept peerId message nowMs := by
      simp only [answered, PexEngine.onMessage_eq, engine, accepted,
        PexEngine.conclude]
    rw [step, PexEngine.mem_surfaced_accept bounded,
      PexEngine.Unmatched, PeerEntry.clamped_peerId]
    refine exists_congr fun earlier => exists_congr fun turn =>
      exists_congr fun later => and_congr_right fun _ => ?_
    constructor
    · intro surfaced
      exact surfaced.2
    · intro unmatched
      obtain ⟨same, stale⟩ := unmatched
      refine ⟨PexEngine.keeps_clamped.mp ?_, same, stale⟩
      rw [same]
      exact PexEngine.keeps_clamped.mpr update.kept
  refine ⟨general, ?_⟩
  intro senderCfg senderCalls sentMs orders jitter receiverId sent earlier
    entry later split update
  have distinct : (message.entries.map PeerEntry.peerId).Nodup := by
    obtain ⟨_, delta, due, rfl⟩ := (PexEngine.mem_tick _ _ _).mp sent
    obtain ⟨_, _, rfl, _⟩ := LinkState.dueDelta_eq_some due
    exact nodup_deltaAgainst_added
      ((PexEngine.cacheDistinct_final senderCfg
        senderCalls).advertisableFor orders.known receiverId _)
  rw [general entry (by rw [split]; simp) update]
  exact PexEngine.unmatched_iff_of_distinct split distinct

/-- The calls of a receiver whose sender `a` told it one entry. -/
def exampleTold : List Call := [
  .onMessage (exampleId 'a') (.pexHandshake 1 "network" 60 []) 1000000,
  .onMessage (exampleId 'a') (.pexSnapshot [exampleEntry 'c' 1000 9444])
    1000000]

/-- The receiver `b` after the snapshot of `a`. -/
def exampleOpened : PexEngine :=
  (@engineStep sipHasher).final (PexEngine.new (exampleConfig (exampleId 'b')))
    exampleTold

omit [DefaultHasher] in
/-- A changed entry under a fresher timestamp is surfaced, next to a new one
in the same delta. -/
theorem fresher_update_surfaced :
    let told := exampleEntry 'c' 1000 9444
    let changed := exampleEntry 'c' 1060 9445
    let new := exampleEntry 'd' 1060 9444
    let sender := (@engineStep sipHasher).final
      (PexEngine.new (exampleConfig (exampleId 'a')))
      [.upsertKnown told, .linkUp (exampleId 'b') 1000000 .ascending .zero,
        .upsertKnown changed, .upsertKnown new]
    let message := PexMessage.pexDelta [changed, new] []
    (@PexEngine.tick sipHasher sender 1060000 exampleOrders
        fun _ => .zero).2 = [(exampleId 'b', message)] ∧
      ∀ entry ∈ [changed, new], entry ∈
        (exampleOpened.onMessage (exampleId 'a') message 1060000).2.surfaced
        := by
  intro told changed new sender message
  have sent : (@PexEngine.tick sipHasher sender 1060000 exampleOrders
      fun _ => .zero).2 = [(exampleId 'b', message)] := by
    decide +kernel
  have events : (exampleOpened.onMessage (exampleId 'a') message
      1060000).2.events = [.candidates [changed, new]] := by
    decide +kernel
  have hints : exampleOpened.hints[changed.peerId]? =
        some ⟨exampleId 'a', 1000⟩ ∧
      exampleOpened.hints[new.peerId]? = none := by
    decide +kernel
  have kept : exampleOpened.Keeps (exampleId 'a') (1060000 / 1000) changed ∧
      exampleOpened.Keeps (exampleId 'a') (1060000 / 1000) new := by
    decide +kernel
  have unmuted : (exampleOpened.link (exampleId 'a')).muted = false := by
    decide +kernel
  have faultless : ∀ code mute, .violation code mute ∉
      (exampleOpened.onMessage (exampleId 'a') message 1060000).2.events := by
    simp [events]
  obtain ⟨_, between⟩ := @ownUpdate_surfaced_iff sipHasher
    (exampleConfig (exampleId 'b')) exampleTold (exampleId 'a') message
    1060000 unmuted faultless
  have turns := between (exampleConfig (exampleId 'a')) _ 1060000
    exampleOrders (fun _ => .zero) (exampleId 'b')
    (by rw [sent]; exact List.mem_singleton_self _)
  refine ⟨sent, ?_⟩
  simp only [List.forall_mem_cons]
  refine ⟨?_, ?_, by simp⟩
  · refine (turns [] changed [new] rfl
      ⟨kept.1, fun hint lookup => ?_⟩).mpr (.inl fun hint lookup => ?_)
    · rw [Option.some.inj (lookup.symm.trans hints.1)]
    · rw [Option.some.inj (lookup.symm.trans hints.1)]
      decide
  · refine (turns [changed] new [] rfl
      ⟨kept.2, fun hint lookup => ?_⟩).mpr (.inl fun hint lookup => ?_)
    · cases lookup.symm.trans hints.2
    · cases lookup.symm.trans hints.2

omit [DefaultHasher] in
/-- A lost update.  The sender `a` tells `b` an entry, changes its address
under the same timestamp and advertises the change, because the fingerprint
changed; `b` accepts the delta, finds the entry valid and itself told by `a`
alone, and surfaces nothing. -/
theorem same_second_update_lost :
    let told := exampleEntry 'c' 1000 9444
    let changed := exampleEntry 'c' 1000 9445
    let started :=
      (PexEngine.new (exampleConfig (exampleId 'a'))).upsertKnown told
    let sender := @PexEngine.linkUp sipHasher started (exampleId 'b')
      1000000 .ascending .zero
    let ticked := @PexEngine.tick sipHasher (sender.1.upsertKnown changed)
      1060000 exampleOrders fun _ => .zero
    let answered := exampleOpened.onMessage (exampleId 'a')
      (.pexDelta [changed] []) 1060000
    sender.2 = [.pexHandshake 1 "network" 60 [], .pexSnapshot [told]] ∧
      ticked.2 = [(exampleId 'b', .pexDelta [changed] [])] ∧
      exampleOpened.hints[told.peerId]? = some ⟨exampleId 'a', 1000⟩ ∧
      exampleOpened.Keeps (exampleId 'a') 1060 changed ∧
      answered.2 = {} := by
  decide +kernel

end DigPex
