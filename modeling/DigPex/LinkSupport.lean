import DigPex.Engine

/-!
# Reading and writing link records

The small lemmas about `link`, `setLink` and `ensureLink` that later proofs
use instead of unfolding the engine.
-/

namespace DigPex

namespace PexEngine

variable (engine : PexEngine)

@[simp] theorem setLink_cfg (peerId : String) (link : LinkState) :
    (engine.setLink peerId link).cfg = engine.cfg :=
  rfl

@[simp] theorem setLink_known (peerId : String) (link : LinkState) :
    (engine.setLink peerId link).known = engine.known :=
  rfl

@[simp] theorem setLink_hints (peerId : String) (link : LinkState) :
    (engine.setLink peerId link).hints = engine.hints :=
  rfl

@[simp] theorem setLink_knownEpoch (peerId : String) (link : LinkState) :
    (engine.setLink peerId link).knownEpoch = engine.knownEpoch :=
  rfl

@[simp] theorem setLink_advertisableCache (peerId : String)
    (link : LinkState) :
    (engine.setLink peerId link).advertisableCache =
      engine.advertisableCache :=
  rfl

@[simp] theorem getElem?_setLink (peerId other : String)
    (link : LinkState) :
    (engine.setLink peerId link).links[other]? =
      if peerId = other then some link else engine.links[other]? := by
  simp [setLink, Std.ExtTreeMap.getElem?_insert]

@[simp] theorem mem_setLink (peerId other : String) (link : LinkState) :
    other ∈ (engine.setLink peerId link).links ↔
      peerId = other ∨ other ∈ engine.links := by
  simp [setLink]

theorem link_eq_getD (peerId : String) :
    engine.link peerId =
      (engine.links[peerId]?).getD (LinkState.new engine.cfg.interval) :=
  Std.ExtTreeMap.getD_eq_getD_getElem?

theorem link_eq_of_getElem? {engine : PexEngine} {peerId : String}
    {link : LinkState} (lookup : engine.links[peerId]? = some link) :
    engine.link peerId = link := by
  simp [link_eq_getD, lookup]

theorem getElem?_eq_some_link {engine : PexEngine} {peerId : String}
    (present : peerId ∈ engine.links) :
    engine.links[peerId]? = some (engine.link peerId) := by
  rw [link_eq_getD]
  grind

theorem link_of_absent {engine : PexEngine} {peerId : String}
    (absent : peerId ∉ engine.links) :
    engine.link peerId = LinkState.new engine.cfg.interval := by
  rw [link_eq_getD]
  grind

theorem mem_links_of_snapshotSent {engine : PexEngine} {peerId : String}
    (sent : (engine.link peerId).snapshotSent = true) :
    peerId ∈ engine.links := by
  by_contra absent
  rw [link_of_absent absent] at sent
  cases sent

@[simp] theorem link_new (cfg : PexConfig) (peerId : String) :
    (PexEngine.new cfg).link peerId = LinkState.new cfg.interval :=
  link_of_absent (by simp [PexEngine.new])

theorem link_congr {left right : PexEngine} {peerId : String}
    (lookup : left.links[peerId]? = right.links[peerId]?)
    (cfg : left.cfg = right.cfg) :
    left.link peerId = right.link peerId := by
  rw [link_eq_getD, link_eq_getD, lookup, cfg]

@[simp] theorem link_setLink_self (peerId : String) (link : LinkState) :
    (engine.setLink peerId link).link peerId = link :=
  link_eq_of_getElem? (by rw [getElem?_setLink, if_pos rfl])

theorem link_setLink (peerId other : String) (link : LinkState) :
    (engine.setLink peerId link).link other =
      if peerId = other then link else engine.link other := by
  split
  · rename_i same
    subst same
    simp
  · rename_i different
    exact link_congr (by simp [different]) rfl

@[simp] theorem link_setLink_of_ne {peerId other : String}
    (different : peerId ≠ other) (link : LinkState) :
    (engine.setLink peerId link).link other = engine.link other := by
  simp [link_setLink, different]

@[simp] theorem setLink_setLink (peerId : String)
    (first second : LinkState) :
    (engine.setLink peerId first).setLink peerId second =
      engine.setLink peerId second := by
  unfold setLink
  congr 1
  apply Std.ExtTreeMap.ext_getElem?
  grind

theorem setLink_link_of_mem {engine : PexEngine} {peerId : String}
    (present : peerId ∈ engine.links) :
    engine.setLink peerId (engine.link peerId) = engine := by
  have lookup := getElem?_eq_some_link present
  have same : engine.links.insert peerId (engine.link peerId) =
      engine.links := by
    apply Std.ExtTreeMap.ext_getElem?
    grind
  simp [setLink, same]

@[simp] theorem ensureLink_of_mem {engine : PexEngine} {peerId : String}
    (present : peerId ∈ engine.links) : engine.ensureLink peerId = engine :=
  setLink_link_of_mem present

@[simp] theorem ensureLink_cfg (peerId : String) :
    (engine.ensureLink peerId).cfg = engine.cfg :=
  rfl

@[simp] theorem ensureLink_hints (peerId : String) :
    (engine.ensureLink peerId).hints = engine.hints :=
  rfl

@[simp] theorem link_ensureLink (peerId other : String) :
    (engine.ensureLink peerId).link other = engine.link other := by
  rw [ensureLink, link_setLink]
  split
  · rename_i same
    rw [same]
  · rfl

@[simp] theorem mem_ensureLink (peerId other : String) :
    other ∈ (engine.ensureLink peerId).links ↔
      peerId = other ∨ other ∈ engine.links := by
  simp [ensureLink]

@[simp] theorem setLink_ensureLink (peerId : String) (link : LinkState) :
    (engine.ensureLink peerId).setLink peerId link =
      engine.setLink peerId link := by
  simp [ensureLink]

end PexEngine

end DigPex
