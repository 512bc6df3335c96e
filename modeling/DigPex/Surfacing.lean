import DigPex.Library.Places
import DigPex.Steps

/-!
# What an accepted message surfaces

The valid entries of a message are offers to the hint table, in order, and an
entry is surfaced when its offer is taken.  So whether it is can be told from
the message and the hints before the call.
-/

namespace DigPex

def PexEvent.surfaced : PexEvent → List PeerEntry
  | .candidates entries => entries
  | _ => []

/-- The entries an outcome surfaces. -/
def PexOutcome.surfaced (outcome : PexOutcome) : List PeerEntry :=
  outcome.events.flatMap PexEvent.surfaced

namespace PexEngine

theorem surfaced_ingestAdded (engine : PexEngine) (peerId : String)
    (entries : List PeerEntry) (nowMs : Nat) :
    (engine.ingestAdded peerId entries nowMs).2.surfaced =
      ((ingestEntry peerId (nowMs / 1000)).outputs engine
        entries).reduceOption := by
  simp only [ingestAdded]
  split
  · rename_i empty
    simpa [PexOutcome.surfaced] using (List.isEmpty_iff.mp empty).symm
  · simp [PexOutcome.surfaced, PexEvent.surfaced]

theorem surfaced_ingestDropped (engine : PexEngine) (peerId : String)
    (dropped : List String) :
    (engine.ingestDropped peerId dropped).2.surfaced = [] := by
  simp only [ingestDropped]
  split <;> simp [PexOutcome.surfaced, PexEvent.surfaced]

theorem surfaced_accept (engine : PexEngine) (peerId : String)
    (message : PexMessage) (nowMs : Nat) :
    (engine.accept peerId message nowMs).2.surfaced =
      ((ingestEntry peerId (nowMs / 1000)).outputs
        (engine.setLink peerId ((engine.link peerId).advance message nowMs))
        message.entries).reduceOption := by
  cases message with
  | pexError code text => rfl
  | pexHandshake version networkId declared flags => rfl
  | pexSnapshot peers => exact surfaced_ingestAdded _ _ _ _
  | pexDelta added dropped =>
      have ingested := surfaced_ingestAdded (engine.setLink peerId
        ((engine.link peerId).advance (.pexDelta added dropped) nowMs))
        peerId added nowMs
      have cleared := fun state : PexEngine =>
        state.surfaced_ingestDropped peerId dropped
      simp only [PexOutcome.surfaced] at ingested cleared
      simp only [accept, PexOutcome.surfaced, List.flatMap_append, ingested,
        cleared, List.append_nil]
      rfl

/-- The hints that the valid entries of a list are offered as. -/
def offers (engine : PexEngine) (peerId : String) (nowSecs : Nat)
    (entries : List PeerEntry) : List (String × ReceivedHint) :=
  (entries.filter fun entry => engine.Keeps peerId nowSecs entry).map
    fun entry => (entry.peerId,
      { source := peerId
        lastSeen := (entry.clamped nowSecs).lastSeen })

variable {engine : PexEngine} {peerId : String} {nowSecs nowMs : Nat}

theorem hints_ingestEntries (entries : List PeerEntry) :
    ((ingestEntry peerId nowSecs).final engine entries).hints =
      (FiniteMap.offer ReceivedHint.lastSeen pexMaxHints).final engine.hints
        (engine.offers peerId nowSecs entries) := by
  induction entries generalizing engine with
  | nil => rfl
  | cons entry entries induction =>
      have frame := ingestEntry_frame engine peerId nowSecs entry
      have later : (ingestEntry peerId nowSecs engine entry).1.offers peerId
          nowSecs entries = engine.offers peerId nowSecs entries := by
        simp only [offers, frame.keeps_iff]
      rw [Machine.final_cons, induction, later]
      by_cases kept : engine.Keeps peerId nowSecs entry
      · have first : engine.offers peerId nowSecs (entry :: entries) =
            (entry.peerId, ⟨peerId, (entry.clamped nowSecs).lastSeen⟩) ::
              engine.offers peerId nowSecs entries := by
          simp [offers, kept]
        rw [first, Machine.final_cons, ingestEntry_of_keeps kept,
          FiniteMap.offer]
        have fresher : engine.isFresher (entry.clamped nowSecs) =
            (engine.hints[entry.peerId]?).all fun hint =>
              hint.lastSeen < (entry.clamped nowSecs).lastSeen := by
          rw [isFresher, PeerEntry.clamped_peerId]
          cases engine.hints[entry.peerId]? <;> rfl
        rw [fresher]
        split
        · simp only [adoptHint, attributeTo, setLink_hints,
            PeerEntry.clamped_peerId]
        · rfl
      · have first : engine.offers peerId nowSecs (entry :: entries) =
            engine.offers peerId nowSecs entries := by
          simp [offers, kept]
        rw [first, ingestEntry_of_not_keeps kept]

theorem ingestEntry_surfaces_iff {entry candidate : PeerEntry}
    (kept : engine.Keeps peerId nowSecs entry) :
    (ingestEntry peerId nowSecs engine entry).2 = some candidate ↔
      entry.clamped nowSecs = candidate ∧
        ¬∃ hint, engine.hints[candidate.peerId]? = some hint ∧
          candidate.lastSeen ≤ hint.lastSeen := by
  have fresher : engine.isFresher (entry.clamped nowSecs) = true ↔
      ¬∃ hint, engine.hints[(entry.clamped nowSecs).peerId]? = some hint ∧
        (entry.clamped nowSecs).lastSeen ≤ hint.lastSeen := by
    unfold isFresher
    cases engine.hints[(entry.clamped nowSecs).peerId]? <;> simp
  rw [ingestEntry_of_keeps kept]
  split
  · rename_i adopted
    constructor
    · rintro ⟨⟩
      exact ⟨rfl, fresher.mp adopted⟩
    · rintro ⟨rfl, _⟩
      rfl
  · rename_i stale
    constructor
    · rintro ⟨⟩
    · rintro ⟨rfl, unmatched⟩
      exact absurd (fresher.mpr unmatched) stale

/-- An accepted message surfaces a candidate exactly when, at one of the turns
of its entries, the entry is valid and becomes that candidate, and no hint for
the peer lasts until then that is as fresh. -/
theorem mem_surfaced_accept {message : PexMessage} {candidate : PeerEntry}
    (bounded : engine.hints.size ≤ pexMaxHints) :
    candidate ∈ (engine.accept peerId message nowMs).2.surfaced ↔
      ∃ earlier entry later, message.entries = earlier ++ entry :: later ∧
        engine.Keeps peerId (nowMs / 1000) entry ∧
        entry.clamped (nowMs / 1000) = candidate ∧
        ¬FiniteMap.Lasts ReceivedHint.lastSeen pexMaxHints engine.hints
          candidate.peerId candidate.lastSeen
          (engine.offers peerId (nowMs / 1000) earlier) := by
  let start :=
    engine.setLink peerId ((engine.link peerId).advance message nowMs)
  rw [surfaced_accept, List.reduceOption_mem_iff, Machine.mem_outputs]
  refine exists_congr fun earlier => exists_congr fun entry =>
    exists_congr fun later => and_congr_right fun _ => ?_
  let turn := (ingestEntry peerId (nowMs / 1000)).final start earlier
  have frame : IngestFrame peerId start turn :=
    ingestAdded_frame start peerId earlier nowMs
  have hints : turn.hints = (FiniteMap.offer ReceivedHint.lastSeen
      pexMaxHints).final engine.hints
        (engine.offers peerId (nowMs / 1000) earlier) :=
    hints_ingestEntries earlier
  rw [FiniteMap.lasts_iff (by decide) bounded, ← hints]
  by_cases kept : engine.Keeps peerId (nowMs / 1000) entry
  · exact (ingestEntry_surfaces_iff ((frame.keeps_iff entry).mpr kept)).trans
      (and_iff_right kept).symm
  · have skipped : ¬turn.Keeps peerId (nowMs / 1000) entry :=
      mt (frame.keeps_iff entry).mp kept
    rw [ingestEntry_of_not_keeps skipped]
    simp [kept]

end PexEngine

end DigPex
