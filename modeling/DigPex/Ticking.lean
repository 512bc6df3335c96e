import DigPex.Advertising

/-!
# What one tick does to every link

The loop of `tick` visits every link once, and its iterations share only the
cached base list.  So a tick is a pointwise change: each link is replaced by
`tickedLink` of the engine before the tick, and the messages are the due
deltas of that same engine in link order.
-/

namespace DigPex

variable [DefaultHasher]

/-- The delta a link sends at a tick, if it is due and not empty. -/
def LinkState.dueDelta (link : LinkState)
    (toldOrder : IterationOrder String) (advertisable : List PeerEntry)
    (nowMs : Nat) : Option (List PeerEntry × List String) :=
  if link.snapshotSent && link.sendDue nowMs then
    let delta := link.deltaAgainst toldOrder advertisable
    if delta.1.isEmpty && delta.2.isEmpty then none else some delta
  else
    none

theorem LinkState.dueDelta_eq_some {link : LinkState}
    {toldOrder : IterationOrder String} {advertisable : List PeerEntry}
    {nowMs : Nat} {delta : List PeerEntry × List String}
    (due : link.dueDelta toldOrder advertisable nowMs = some delta) :
    link.snapshotSent = true ∧ link.sendDue nowMs = true ∧
      delta = link.deltaAgainst toldOrder advertisable ∧
      (delta.1 ≠ [] ∨ delta.2 ≠ []) := by
  unfold dueDelta at due
  split at due
  · rename_i ready
    simp only [Bool.and_eq_true] at ready
    dsimp only at due
    split at due
    · cases due
    · rename_i occupied
      cases due
      refine ⟨ready.1, ready.2, rfl, ?_⟩
      simp only [List.isEmpty_iff, Bool.and_eq_true] at occupied
      tauto
  · cases due

theorem LinkState.dueDelta_of_due {link : LinkState}
    {toldOrder : IterationOrder String} {advertisable : List PeerEntry}
    {nowMs : Nat} (sent : link.snapshotSent = true)
    (due : link.sendDue nowMs = true)
    (nonempty : (link.deltaAgainst toldOrder advertisable).1 ≠ [] ∨
      (link.deltaAgainst toldOrder advertisable).2 ≠ []) :
    link.dueDelta toldOrder advertisable nowMs =
      some (link.deltaAgainst toldOrder advertisable) := by
  have occupied : ¬((link.deltaAgainst toldOrder advertisable).1.isEmpty &&
      (link.deltaAgainst toldOrder advertisable).2.isEmpty) = true := by
    simp only [List.isEmpty_iff, Bool.and_eq_true]
    tauto
  unfold dueDelta
  rw [if_pos (by simp [sent, due])]
  exact if_neg occupied

namespace PexEngine

/-- The delta the engine owes a link at a tick. -/
def dueDelta (engine : PexEngine) (nowMs : Nat) (orders : TickOrders)
    (peerId : String) : Option (List PeerEntry × List String) :=
  (engine.link peerId).dueDelta (orders.told peerId)
    (engine.advertisableFor orders.known peerId (nowMs / 1000)).1 nowMs

/-- The record of a link after a tick. -/
def tickedLink (engine : PexEngine) (nowMs : Nat) (orders : TickOrders)
    (jitter : String → Jitter) (peerId : String) : LinkState :=
  let link := engine.link peerId
  match engine.dueDelta nowMs orders peerId with
  | none => link
  | some delta =>
      link.commitDelta delta.1 delta.2 nowMs
        (engine.cfg.drawJitter (jitter peerId)
          (effectiveIntervalSecs link.selfIntervalSecs
            link.remoteDeclaredSecs))

/-- What an outgoing call keeps: everything but link records, and the base
list of the second it happens in. -/
structure SendFrame (order : IterationOrder String) (nowSecs : Nat)
    (before after : PexEngine) : Prop where
  cfg : after.cfg = before.cfg
  known : after.known = before.known
  hints : after.hints = before.hints
  knownEpoch : after.knownEpoch = before.knownEpoch
  cache : after.advertisableCache = before.advertisableCache ∨
    after.advertisableCache = some (before.knownEpoch, nowSecs,
      (before.advertisableCached order nowSecs).1)

namespace SendFrame

variable {order : IterationOrder String} {nowSecs : Nat}
  {before middle after : PexEngine}

omit [DefaultHasher]

theorem refl (engine : PexEngine) : SendFrame order nowSecs engine engine :=
  ⟨rfl, rfl, rfl, rfl, .inl rfl⟩

theorem advertisableCached_fst (frame : SendFrame order nowSecs before after) :
    (after.advertisableCached order nowSecs).1 =
      (before.advertisableCached order nowSecs).1 := by
  rcases frame.cache with same | rebuilt
  · exact PexEngine.advertisableCached_fst_congr frame.cfg frame.known
      frame.knownEpoch same order nowSecs
  · rw [← frame.knownEpoch] at rebuilt
    exact advertisableCached_fst_of_cached rebuilt order

theorem trans (first : SendFrame order nowSecs before middle)
    (second : SendFrame order nowSecs middle after) :
    SendFrame order nowSecs before after := by
  refine ⟨second.cfg.trans first.cfg, second.known.trans first.known,
    second.hints.trans first.hints,
    second.knownEpoch.trans first.knownEpoch, ?_⟩
  rcases second.cache with same | rebuilt
  · rw [same]
    exact first.cache
  · rw [first.knownEpoch, first.advertisableCached_fst] at rebuilt
    exact .inr rebuilt

theorem setLink (frame : SendFrame order nowSecs before after)
    (peerId : String) (link : LinkState) :
    SendFrame order nowSecs before (after.setLink peerId link) :=
  ⟨frame.cfg, frame.known, frame.hints, frame.knownEpoch, frame.cache⟩

theorem cached (engine : PexEngine) :
    SendFrame order nowSecs engine
      (engine.advertisableCached order nowSecs).2 := by
  rw [advertisableCached_snd]
  exact ⟨rfl, rfl, rfl, rfl, .inr rfl⟩

end SendFrame

omit [DefaultHasher] in
@[simp] theorem links_advertisableCached (engine : PexEngine)
    (order : IterationOrder String) (nowSecs : Nat) :
    (engine.advertisableCached order nowSecs).2.links = engine.links := by
  rw [advertisableCached_snd]

variable {nowMs : Nat} {orders : TickOrders} {jitter : String → Jitter}

theorem dueDelta_congr {left right : PexEngine} {peerId : String}
    (frame : SendFrame orders.known (nowMs / 1000) left right)
    (lookup : right.links[peerId]? = left.links[peerId]?) :
    right.dueDelta nowMs orders peerId =
      left.dueDelta nowMs orders peerId := by
  simp only [dueDelta, advertisableFor, link_congr lookup frame.cfg,
    frame.advertisableCached_fst]

theorem tickedLink_congr {left right : PexEngine} {peerId : String}
    (frame : SendFrame orders.known (nowMs / 1000) left right)
    (lookup : right.links[peerId]? = left.links[peerId]?) :
    right.tickedLink nowMs orders jitter peerId =
      left.tickedLink nowMs orders jitter peerId := by
  simp only [tickedLink, dueDelta_congr frame lookup,
    link_congr lookup frame.cfg, frame.cfg]

variable (nowMs orders jitter)

theorem tickLink_spec (engine : PexEngine) (peerId : String)
    (present : peerId ∈ engine.links) :
    let next := tickLink nowMs orders jitter engine peerId
    SendFrame orders.known (nowMs / 1000) engine next.1 ∧
      (∀ other : String, next.1.links[other]? =
        if peerId = other then
          some (engine.tickedLink nowMs orders jitter peerId)
        else engine.links[other]?) ∧
      next.2 = (engine.dueDelta nowMs orders peerId).map
        fun delta => (peerId, .pexDelta delta.1 delta.2) := by
  have lookup := getElem?_eq_some_link present
  have unchanged : ∀ other : String, engine.links[other]? =
      if peerId = other then some (engine.link peerId)
      else engine.links[other]? := by
    intro other
    split
    · rename_i same
      rw [← same, lookup]
    · rfl
  dsimp only
  unfold tickLink
  dsimp only
  by_cases ready : (engine.link peerId).snapshotSent = true ∧
      (engine.link peerId).sendDue nowMs = true
  · rw [if_neg (by simp [ready])]
    split
    · rename_i empty
      have none : engine.dueDelta nowMs orders peerId = none := by
        simp only [dueDelta, LinkState.dueDelta, ready, Bool.and_self, if_true]
        exact if_pos empty
      refine ⟨.cached engine, ?_, by simp [none]⟩
      simpa [tickedLink, none, buildDelta] using unchanged
    · rename_i occupied
      have due : engine.dueDelta nowMs orders peerId =
          some (engine.buildDelta orders.known (orders.told peerId) peerId
            (nowMs / 1000)).1 := by
        simp only [dueDelta, LinkState.dueDelta, ready, Bool.and_self, if_true]
        exact if_neg occupied
      refine ⟨(SendFrame.cached engine).setLink _ _, ?_, by simp [due]⟩
      intro other
      simp [tickedLink, due, buildDelta]
  · have none : engine.dueDelta nowMs orders peerId = none := by
      simp only [dueDelta, LinkState.dueDelta]
      exact if_neg (by simpa using ready)
    rw [if_pos (by
      rw [not_and_or, Bool.not_eq_true, Bool.not_eq_true] at ready
      simpa using ready)]
    exact ⟨.refl engine, by simpa [tickedLink, none] using unchanged,
      by simp [none]⟩

theorem getElem?_tickLink_of_ne {engine : PexEngine} {peerId other : String}
    (present : peerId ∈ engine.links) (apart : peerId ≠ other) :
    (tickLink nowMs orders jitter engine peerId).1.links[other]? =
      engine.links[other]? := by
  rw [(tickLink_spec nowMs orders jitter engine peerId present).2.1,
    if_neg apart]

theorem mem_tickLink_of_ne {engine : PexEngine} {peerId other : String}
    (present : peerId ∈ engine.links) (apart : peerId ≠ other) :
    other ∈ (tickLink nowMs orders jitter engine peerId).1.links ↔
      other ∈ engine.links := by
  rw [Std.ExtTreeMap.mem_iff_isSome_getElem?,
    getElem?_tickLink_of_ne nowMs orders jitter present apart,
    ← Std.ExtTreeMap.mem_iff_isSome_getElem?]

/-- The loop over distinct links that exist: each is visited in the state it
had before the loop. -/
theorem tickLoop_spec (peerIds : List String) (distinct : peerIds.Nodup)
    (engine : PexEngine) (present : ∀ id ∈ peerIds, id ∈ engine.links) :
    let loop := tickLink nowMs orders jitter
    SendFrame orders.known (nowMs / 1000) engine
        (loop.final engine peerIds) ∧
      (∀ other : String, (loop.final engine peerIds).links[other]? =
        if other ∈ peerIds then
          some (engine.tickedLink nowMs orders jitter other)
        else engine.links[other]?) ∧
      loop.outputs engine peerIds = peerIds.map fun peerId =>
        (engine.dueDelta nowMs orders peerId).map
          fun delta => (peerId, .pexDelta delta.1 delta.2) := by
  induction peerIds generalizing engine with
  | nil => exact ⟨.refl engine, by simp, rfl⟩
  | cons peerId peerIds induction =>
      obtain ⟨fresh, distinct⟩ := List.nodup_cons.mp distinct
      have here := present peerId List.mem_cons_self
      obtain ⟨frame, links, output⟩ := tickLink_spec nowMs orders jitter
        engine peerId here
      have apart : ∀ id ∈ peerIds, peerId ≠ id := by
        rintro id member rfl
        exact fresh member
      have untouched := fun id member =>
        getElem?_tickLink_of_ne nowMs orders jitter here (apart id member)
      obtain ⟨laterFrame, laterLinks, laterOutputs⟩ := induction distinct
        (tickLink nowMs orders jitter engine peerId).1 fun id member =>
          (mem_tickLink_of_ne nowMs orders jitter here (apart id member)).mpr
            (present id (List.mem_cons_of_mem _ member))
      refine ⟨frame.trans laterFrame, ?_, ?_⟩
      · intro other
        rw [Machine.final_cons, laterLinks]
        by_cases later : other ∈ peerIds
        · rw [if_pos later, if_pos (by simp [later]),
            tickedLink_congr frame (untouched other later)]
        · rw [if_neg later, links]
          by_cases same : peerId = other
          · subst same
            simp
          · rw [if_neg same, if_neg (by
              simp only [List.mem_cons, not_or]
              exact ⟨Ne.symm same, later⟩)]
      · rw [Machine.outputs_cons, output, laterOutputs, List.map_cons]
        congr 1
        apply List.map_congr_left
        intro id member
        rw [dueDelta_congr frame (untouched id member)]

omit [DefaultHasher] in
theorem mem_arrange_links (engine : PexEngine)
    (order : IterationOrder String) {id : String} :
    id ∈ order.arrange engine.links.keys ↔ id ∈ engine.links := by
  rw [order.mem_arrange, Std.ExtTreeMap.mem_keys]

/-- The loop as `tick` runs it: over the links that exist, in any order. -/
theorem tick_spec (engine : PexEngine) :
    let ticked := engine.tick nowMs orders jitter
    SendFrame orders.known (nowMs / 1000) engine ticked.1 ∧
      (∀ other : String, ticked.1.links[other]? =
        if other ∈ engine.links then
          some (engine.tickedLink nowMs orders jitter other)
        else engine.links[other]?) ∧
      ticked.2 =
        (orders.links.arrange engine.links.keys).filterMap fun peerId =>
          (engine.dueDelta nowMs orders peerId).map
            fun delta => (peerId, .pexDelta delta.1 delta.2) := by
  obtain ⟨frame, links, outputs⟩ := tickLoop_spec nowMs orders jitter
    (orders.links.arrange engine.links.keys)
    ((orders.links.perm _).nodup_iff.mpr Std.ExtTreeMap.nodup_keys) engine
    (fun _ member => (mem_arrange_links engine _).mp member)
  simp only [mem_arrange_links] at links
  refine ⟨frame, links, ?_⟩
  rw [tick, outputs, List.reduceOption, List.filterMap_map]
  rfl

theorem tick_frame (engine : PexEngine) :
    SendFrame orders.known (nowMs / 1000) engine
      (engine.tick nowMs orders jitter).1 :=
  (tick_spec nowMs orders jitter engine).1

theorem mem_links_tick (engine : PexEngine) (peerId : String) :
    peerId ∈ (engine.tick nowMs orders jitter).1.links ↔
      peerId ∈ engine.links := by
  have links := (tick_spec nowMs orders jitter engine).2.1 peerId
  split at links <;> grind

theorem link_tick (engine : PexEngine) (peerId : String) :
    (engine.tick nowMs orders jitter).1.link peerId =
      engine.tickedLink nowMs orders jitter peerId := by
  have links := (tick_spec nowMs orders jitter engine).2.1 peerId
  split at links
  · exact link_eq_of_getElem? links
  · rename_i absent
    have fresh := link_of_absent absent
    have none : engine.dueDelta nowMs orders peerId = none := by
      simp [dueDelta, LinkState.dueDelta, fresh, LinkState.new]
    rw [link_congr links (tick_frame nowMs orders jitter engine).cfg]
    simp [tickedLink, none]

theorem mem_tick {engine : PexEngine} {peerId : String}
    {message : PexMessage} :
    (peerId, message) ∈ (engine.tick nowMs orders jitter).2 ↔
      peerId ∈ engine.links ∧
        ∃ delta, engine.dueDelta nowMs orders peerId = some delta ∧
          message = .pexDelta delta.1 delta.2 := by
  rw [(tick_spec nowMs orders jitter engine).2.2]
  simp only [List.mem_filterMap, mem_arrange_links, Option.map_eq_some_iff,
    Prod.mk.injEq]
  constructor
  · rintro ⟨id, present, delta, due, rfl, rfl⟩
    exact ⟨present, delta, due, rfl⟩
  · rintro ⟨present, delta, due, rfl⟩
    exact ⟨peerId, present, delta, due, rfl, rfl⟩

end PexEngine

end DigPex
