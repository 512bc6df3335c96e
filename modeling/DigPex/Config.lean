import DigPex.Backoff

/-!
# Configurations and their builders

A configuration is made by `PexConfig.new` and adjusted by builders, of which
one clamps the declared interval.  For such a configuration the interval in
force has a closed form, and without jitter the draws of a run do not matter.
-/

namespace DigPex

namespace PexConfig

/-- The default interval, no flags, with jitter. -/
def new (localPeerId networkId : String) : PexConfig :=
  { localPeerId := localPeerId
    networkId := networkId
    flags := []
    interval := pexDefaultInterval
    jitter := true }

def withFlags (cfg : PexConfig) (flags : List String) : PexConfig :=
  { cfg with flags := flags }

/-- The declared interval is clamped. -/
def withInterval (cfg : PexConfig) (secs : Nat) : PexConfig :=
  { cfg with interval := clampInterval secs }

def withJitter (cfg : PexConfig) (jitter : Bool) : PexConfig :=
  { cfg with jitter := jitter }

/-- The configurations that the builders make. -/
inductive Built : PexConfig → Prop
  | new (localPeerId networkId : String) : Built (new localPeerId networkId)
  | flags {cfg : PexConfig} (flags : List String) (built : Built cfg) :
      Built (cfg.withFlags flags)
  | interval {cfg : PexConfig} (secs : Nat) (built : Built cfg) :
      Built (cfg.withInterval secs)
  | jitter {cfg : PexConfig} (jitter : Bool) (built : Built cfg) :
      Built (cfg.withJitter jitter)

theorem Built.legal {cfg : PexConfig} (built : Built cfg) :
    pexMinInterval ≤ cfg.interval ∧ cfg.interval ≤ pexMaxInterval := by
  induction built with
  | new localPeerId networkId =>
      simp [PexConfig.new, pexDefaultInterval, pexMinInterval, pexMaxInterval]
  | flags flags built induction => exact induction
  | interval secs built induction =>
      simp only [withInterval, clampInterval, pexMinInterval, pexMaxInterval]
      omega
  | jitter jitter built induction => exact induction

theorem drawJitter_off {cfg : PexConfig} (off : cfg.jitter = false)
    (jitter : Jitter) (effectiveSecs : Nat) :
    cfg.drawJitter jitter effectiveSecs = 0 := by
  rw [drawJitter, off]
  rfl

end PexConfig

/-! ## Without jitter -/

/-- A call with draws that never delay. -/
def Call.undrawn : Call → Call
  | .linkUp peerId nowMs order _ => .linkUp peerId nowMs order .zero
  | .tick nowMs orders _ => .tick nowMs orders fun _ => .zero
  | call => call

section Draws

variable [DefaultHasher] {engine : PexEngine}

theorem tickLink_undrawn (off : engine.cfg.jitter = false) (nowMs : Nat)
    (orders : TickOrders) (jitter : String → Jitter) (peerId : String) :
    PexEngine.tickLink nowMs orders (fun _ => .zero) engine peerId =
        PexEngine.tickLink nowMs orders jitter engine peerId ∧
      (PexEngine.tickLink nowMs orders jitter engine peerId).1.cfg =
        engine.cfg := by
  unfold PexEngine.tickLink
  simp only [PexConfig.drawJitter_off off, true_and]
  split
  · rfl
  · split <;> simp [PexEngine.buildDelta, PexEngine.advertisableFor,
      PexEngine.advertisableCached_snd, PexEngine.setLink]

theorem tickLoop_undrawn (off : engine.cfg.jitter = false) (nowMs : Nat)
    (orders : TickOrders) (jitter : String → Jitter)
    (peerIds : List String) :
    let loop := PexEngine.tickLink nowMs orders jitter
    let undrawn := PexEngine.tickLink nowMs orders fun _ => .zero
    undrawn.final engine peerIds = loop.final engine peerIds ∧
      undrawn.outputs engine peerIds = loop.outputs engine peerIds := by
  intro loop undrawn
  induction peerIds generalizing engine with
  | nil =>
      -- By the lemmas, as `rfl` would compare the two machines first.
      simp only [Machine.final_nil, Machine.outputs_nil, and_self]
  | cons peerId peerIds induction =>
      obtain ⟨same, cfg⟩ : undrawn engine peerId = loop engine peerId ∧ _ :=
        tickLink_undrawn off nowMs orders jitter peerId
      obtain ⟨final, outputs⟩ := induction (by rw [cfg, off])
      rw [Machine.final_cons, Machine.final_cons, Machine.outputs_cons,
        Machine.outputs_cons, same]
      exact ⟨final, congrArg _ outputs⟩

theorem engineStep_undrawn (off : engine.cfg.jitter = false) (call : Call) :
    engineStep engine call.undrawn = engineStep engine call := by
  cases call with
  | linkUp peerId nowMs order jitter =>
      simp only [Call.undrawn, engineStep, PexEngine.linkUp,
        PexConfig.drawJitter_off off]
  | tick nowMs orders jitter =>
      obtain ⟨final, outputs⟩ := tickLoop_undrawn off nowMs orders jitter
        (orders.links.arrange engine.links.keys)
      simp only [Call.undrawn, engineStep, PexEngine.tick, final, outputs]
  | _ => rfl

theorem run_undrawn (off : engine.cfg.jitter = false) (calls : List Call) :
    engineStep.final engine (calls.map Call.undrawn) =
        engineStep.final engine calls ∧
      engineStep.outputs engine (calls.map Call.undrawn) =
        engineStep.outputs engine calls := by
  induction calls generalizing engine with
  | nil => exact ⟨rfl, rfl⟩
  | cons call calls induction =>
      have kept := cfg_engineStep engine call
      obtain ⟨final, outputs⟩ := induction (by rw [kept, off])
      rw [List.map_cons, Machine.final_cons, Machine.final_cons,
        Machine.outputs_cons, Machine.outputs_cons, engineStep_undrawn off]
      exact ⟨final, congrArg _ outputs⟩

/-- Without jitter the draws do not matter.  Two runs of an engine whose
configuration has jitter switched off, of calls that differ in their draws
only, return the same and end in the same state. -/
theorem jitter_off (cfg : PexConfig) (left right : List Call)
    (alike : left.map Call.undrawn = right.map Call.undrawn) :
    let engine := PexEngine.new (cfg.withJitter false)
    engineStep.outputs engine left = engineStep.outputs engine right ∧
      engineStep.final engine left = engineStep.final engine right := by
  intro engine
  obtain ⟨leftFinal, leftOutputs⟩ :=
    @run_undrawn _ engine rfl left
  obtain ⟨rightFinal, rightOutputs⟩ :=
    @run_undrawn _ engine rfl right
  rw [← leftFinal, ← leftOutputs, alike]
  exact ⟨rightOutputs, rightFinal⟩

omit [DefaultHasher] in
/-- Draws of a tenth of the interval do nothing without jitter. -/
theorem jitter_off_drawn :
    let cfg := exampleConfig (exampleId 'a')
    let slow : Jitter :=
      { draw := fun effectiveSecs => effectiveSecs * 100
        bounded := fun _ => le_rfl }
    let drawn : List Call :=
      [.upsertKnown (exampleEntry 'c' 1000 9444),
        .linkUp (exampleId 'b') 1000000 .ascending slow,
        .upsertKnown (exampleEntry 'd' 1000 9444),
        .tick 1060000 exampleOrders fun _ => slow]
    let undrawn := drawn.map Call.undrawn
    let engine := PexEngine.new (cfg.withJitter false)
    (@engineStep sipHasher).outputs engine drawn =
        (@engineStep sipHasher).outputs engine undrawn ∧
      (@engineStep sipHasher).final engine drawn =
        (@engineStep sipHasher).final engine undrawn := by
  intro cfg slow drawn undrawn engine
  exact @jitter_off sipHasher cfg drawn undrawn rfl

end Draws

/-! ## The interval in force -/

theorem iterate_backedOff_of_legal {secs : Nat}
    (legal : pexMinInterval ≤ secs ∧ secs ≤ pexMaxInterval) (count : Nat) :
    backedOffInterval^[count] secs = min 3600 (2 ^ count * secs) := by
  simp only [pexMinInterval, pexMaxInterval] at legal
  induction count with
  | zero =>
      rw [Function.iterate_zero_apply, Nat.pow_zero, Nat.one_mul]
      omega
  | succ count induction =>
      have positive := Nat.one_le_two_pow (n := count)
      have grown : secs ≤ 2 ^ count * secs := Nat.le_mul_of_pos_left _ positive
      rw [Function.iterate_succ_apply', induction, Nat.pow_succ,
        Nat.mul_comm _ 2, Nat.mul_assoc]
      generalize 2 ^ count * secs = product at *
      simp only [backedOffInterval, clampInterval, pexMinInterval,
        pexMaxInterval]
      omega

/-- The interval in force in closed form.  With a configuration made by the
builders, in every run with a clock that never goes back and a link that is
opened once a lifetime, the interval of a link is the configured one doubled
for every back-off of the lifetime, up to the maximum, and its effective
interval is the greater of that and what the remote declared. -/
theorem interval_closed_form [DefaultHasher] (cfg : PexConfig)
    (built : cfg.Built) (peerId : String) (calls : List Call)
    (once : OpensOnce peerId calls)
    (ordered : (calls.filterMap Call.clockMs).Pairwise (· ≤ ·)) :
    let link := (engineStep.final (PexEngine.new cfg) calls).link peerId
    let count := Pacing.slowDowns (pacingLog cfg peerId calls)
    let declared :=
      (Monitor.afterCalls cfg.networkId peerId calls).declared
    link.selfIntervalSecs = min 3600 (2 ^ count * cfg.interval) ∧
      link.effectiveSecs = max (min 3600 (2 ^ count * cfg.interval))
        ((declared.map clampInterval).getD 0) := by
  intro link count declared
  have kept := pacingKept_final cfg peerId calls once ordered
  have own : link.selfIntervalSecs = min 3600 (2 ^ count * cfg.interval) := by
    rw [← iterate_backedOff_of_legal built.legal]
    exact kept.interval.trans kept.paced.inForce_eq
  refine ⟨own, ?_⟩
  have legal := built.legal
  simp only [pexMinInterval, pexMaxInterval] at legal
  have grown : cfg.interval ≤ 2 ^ count * cfg.interval :=
    Nat.le_mul_of_pos_left _ (Nat.one_le_two_pow (n := count))
  have floor : 30 ≤ min 3600 (2 ^ count * cfg.interval) := by omega
  have clamped : clampInterval (min 3600 (2 ^ count * cfg.interval)) =
      min 3600 (2 ^ count * cfg.interval) := by
    simp only [clampInterval, pexMinInterval, pexMaxInterval]
    omega
  have effective : link.effectiveSecs = intervalInForce
      link.selfIntervalSecs declared := effectiveSecs_final cfg calls peerId
  rw [effective, own, intervalInForce, clamped]
  exact max_eq_right (floor.trans (le_max_left _ _))

/-- Two back-offs of a built configuration that asked for ten seconds. -/
theorem interval_closed_form_clamped :
    let peerId := exampleId 'b'
    let spoofed (nowMs : Nat) : Call :=
      .onMessage peerId (.pexError 3 "") nowMs
    let calls : List Call := [.linkUp peerId 1000000 .ascending .zero,
      spoofed 1010000, .upsertKnown (exampleEntry 'c' 1000 9444),
      .tick 1060000 exampleOrders fun _ => .zero, spoofed 1080000]
    let cfg := (PexConfig.new (exampleId 'a') "network").withInterval 10
    let link := ((@engineStep sipHasher).final (.new cfg) calls).link peerId
    link.selfIntervalSecs = 120 ∧ link.effectiveSecs = 120 := by
  intro peerId spoofed calls cfg link
  have built : cfg.Built := .interval 10 (.new (exampleId 'a') "network")
  obtain ⟨own, effective⟩ := @interval_closed_form sipHasher cfg built peerId
    calls (by decide +kernel) (by decide +kernel)
  have count : Pacing.slowDowns (@pacingLog sipHasher cfg peerId calls) =
      2 := by
    decide +kernel
  rw [count] at own effective
  exact ⟨own, effective⟩

end DigPex
