import DigPex.Cadence

/-!
# One opening per lifetime

Registering a link returns a handshake and a snapshot whether or not the link
was opened before.  So what a lifetime of a link carries is one opening and
its deltas exactly as long as the host registers the link once in it.
-/

namespace DigPex

/-- What the link was sent since it last went down, each message with the time
of its call. -/
def lifetimeSent (peerId : String) (events : List (Call × Response)) :
    List (Nat × PexMessage) :=
  events.foldl (fun sent event =>
    if event.1.inbound peerId = some .down then []
    else
      sent ++ (messagesFor peerId event).map fun message =>
        (event.1.sendMs, message)) []

/-- Nothing, or a handshake, the snapshot right behind it, and then deltas
only. -/
def OneOpening (tags : List String) : Prop :=
  tags = [] ∨ ∃ deltas,
    tags = "pex_handshake" :: "pex_snapshot" ::
      List.replicate deltas "pex_delta"

/-- Messages sent at some times, as the calls of their receiver. -/
def deliveries (sender : String) (arrival : Nat → Nat)
    (sent : List (Nat × PexMessage)) : List Call :=
  sent.map fun message =>
    .onMessage sender message.2 (arrival message.1)

/-- No handshake comes again and no snapshot comes second. -/
def NotRepeated (receiver : PexEngine) : Call → Prop
  | .onMessage sender (.pexHandshake ..) _ =>
      (receiver.link sender).phase = .awaitingHandshake
  | .onMessage sender (.pexSnapshot _) _ =>
      (receiver.link sender).phase ≠ .streaming
  | _ => True

variable [DefaultHasher]

/-- What was sent in the lifetime up to some calls is one opening, and a fresh
receiver of it, of any configuration and with any clock, meets no handshake
again and no second snapshot. -/
def OpensWell (cfg : PexConfig) (peerId : String) (calls : List Call) :
    Prop :=
  let sent := lifetimeSent peerId (engineStep.trace (.new cfg) calls)
  OneOpening (sent.map fun message => message.2.typeTag) ∧
    ∀ (receiver : PexConfig) (sender : String) (arrival : Nat → Nat),
      engineStep.Along NotRepeated (.new receiver)
        (deliveries sender arrival sent)

theorem lifetimeSent_concat (cfg : PexConfig) (peerId : String)
    (calls : List Call) (call : Call) :
    lifetimeSent peerId (engineStep.trace (.new cfg) (calls ++ [call])) =
      if call.inbound peerId = some .down then []
      else
        lifetimeSent peerId (engineStep.trace (.new cfg) calls) ++
          (messagesFor peerId (call, (engineStep
            (engineStep.final (.new cfg) calls) call).2)).map
              fun message => (call.sendMs, message) := by
  rw [Machine.trace_concat, lifetimeSent, List.foldl_append]
  rfl

omit [DefaultHasher] in
theorem lifetime_concat (peerId : String) (calls : List Call) (call : Call) :
    (lifetime peerId).final false (calls ++ [call]) =
      if call.inbound peerId = some .down then false
      else (lifetime peerId).final false calls || call.opens peerId := by
  rw [Machine.final_concat]
  cases call with
  | linkDown closed =>
      by_cases same : closed = peerId <;>
        simp [lifetime, Call.inbound, Call.opens, same]
  | onMessage source message nowMs =>
      by_cases same : source = peerId <;>
        simp [lifetime, Call.inbound, Call.opens, same]
  | recordViolation source code nowMs =>
      by_cases same : source = peerId <;>
        simp [lifetime, Call.inbound, Call.opens, same]
  | _ => simp [lifetime, Call.inbound]

theorem messagesFor_of_opens (engine : PexEngine) {call : Call}
    {peerId : String} (opens : call.opens peerId = true) :
    ∃ peers, messagesFor peerId (call, (engineStep engine call).2) =
      [engine.handshake, .pexSnapshot peers] := by
  cases call with
  | linkUp opened nowMs order jitter =>
      have same : opened = peerId := by simpa [Call.opens] using opens
      refine ⟨engine.openingPeers peerId nowMs order, ?_⟩
      rw [messagesFor_engineStep]
      exact if_pos same
  | _ => cases opens

/-- Any other call returns at most a delta, and only on a link that sent its
snapshot. -/
theorem messagesFor_of_not_opens (engine : PexEngine) {call : Call}
    {peerId : String} (opens : call.opens peerId = false) :
    messagesFor peerId (call, (engineStep engine call).2) = [] ∨
      (engine.link peerId).snapshotSent = true ∧ ∃ added dropped,
        messagesFor peerId (call, (engineStep engine call).2) =
          [.pexDelta added dropped] := by
  cases call with
  | linkUp opened nowMs order jitter =>
      have other : opened ≠ peerId := by simpa [Call.opens] using opens
      rw [messagesFor_engineStep]
      exact .inl (if_neg other)
  | tick nowMs orders jitter =>
      rw [messagesFor_engineStep]
      cases due : engine.dueDelta nowMs orders peerId with
      | none => simp [due]
      | some delta =>
          obtain ⟨sent, _⟩ := LinkState.dueDelta_eq_some due
          exact .inr ⟨sent, delta.1, delta.2, by simp [due]⟩
  | _ => exact .inl rfl

omit [DefaultHasher] in
theorem not_opens_of_inbound {call : Call} {peerId : String}
    {event : Inbound} (inbound : call.inbound peerId = some event) :
    call.opens peerId = false := by
  cases call with
  | linkUp opened nowMs order jitter => cases inbound
  | _ => rfl

/-- A handshake, a snapshot at the same time, and then deltas. -/
def Opening (sent : List (Nat × PexMessage)) : Prop :=
  ∃ nowMs version network interval flags peers deltas,
    sent = (nowMs, .pexHandshake version network interval flags) ::
      (nowMs, .pexSnapshot peers) :: deltas ∧
    ∀ delta ∈ deltas, ∃ added dropped, delta.2 = .pexDelta added dropped

/-- A link that is opened once a lifetime was sent nothing before it was
opened and one opening after it. -/
theorem lifetimeSent_of_opensOnce (cfg : PexConfig) {peerId : String}
    {calls : List Call} (once : OpensOnce peerId calls) :
    if (lifetime peerId).final false calls then
      Opening (lifetimeSent peerId (engineStep.trace (.new cfg) calls))
    else lifetimeSent peerId (engineStep.trace (.new cfg) calls) = [] := by
  induction calls using List.reverseRecOn with
  | nil => rfl
  | append_singleton calls call induction =>
      obtain ⟨earlier, here⟩ := (Machine.along_append _ false calls _).mp once
      have before := induction earlier
      rw [lifetimeSent_concat, lifetime_concat]
      by_cases down : call.inbound peerId = some .down
      · simp [down]
      · simp only [down, if_false]
        cases opens : call.opens peerId with
        | true =>
            rw [here.1 opens] at before
            obtain ⟨peers, messages⟩ := messagesFor_of_opens
              (engineStep.final (.new cfg) calls) opens
            simp only [Bool.or_true, if_true, messages]
            rw [before]
            exact ⟨call.sendMs, _, _, _, _, peers, [], rfl,
              fun _ member => by cases member⟩
        | false =>
            rw [Bool.or_false]
            rcases messagesFor_of_not_opens
              (engineStep.final (.new cfg) calls) opens with
              none | ⟨sent, added, dropped, messages⟩
            · simpa [none] using before
            · rw [snapshotSent_final] at sent
              rw [if_pos sent] at before ⊢
              obtain ⟨nowMs, version, network, interval, flags, peers,
                deltas, opening, only⟩ := before
              refine ⟨nowMs, version, network, interval, flags, peers,
                deltas ++ [(call.sendMs, .pexDelta added dropped)], ?_, ?_⟩
              · rw [opening, messages]
                rfl
              · intro delta member
                rcases List.mem_append.mp member with old | new
                · exact only delta old
                · rw [List.mem_singleton.mp new]
                  exact ⟨added, dropped, rfl⟩

omit [DefaultHasher] in
theorem Opening.oneOpening {sent : List (Nat × PexMessage)}
    (opening : Opening sent) :
    OneOpening (sent.map fun message => message.2.typeTag) := by
  obtain ⟨nowMs, version, network, interval, flags, peers, deltas, rfl,
    only⟩ := opening
  refine .inr ⟨deltas.length, ?_⟩
  have tags : deltas.map (fun message => message.2.typeTag) =
      List.replicate deltas.length "pex_delta" := by
    apply List.eq_replicate_iff.mpr
    refine ⟨List.length_map _, ?_⟩
    intro tag member
    obtain ⟨delta, listed, rfl⟩ := List.mem_map.mp member
    obtain ⟨added, dropped, isDelta⟩ := only delta listed
    rw [isDelta]
    rfl
  rw [List.map_cons, List.map_cons, tags]
  rfl

omit [DefaultHasher] in
theorem Direction.receive_handshake_phase {direction : Direction}
    (before : direction.phase ≠ .streaming) (own : String)
    (version : Nat) (network : String) (interval : Nat) (flags : List String)
    (nowMs : Nat) :
    (direction.receive own
      (.message (.pexHandshake version network interval flags)
        nowMs)).phase ≠ .streaming := by
  simp only [receive]
  cases direction.judge own (.pexHandshake version network interval flags)
    nowMs with
  | accepted => simp [conclude, advance]
  | _ => exact before

/-- A fresh receiver of one opening meets its handshake and its snapshot for
the first time. -/
theorem Opening.notRepeated {sent : List (Nat × PexMessage)}
    (opening : Opening sent) (receiver : PexConfig) (sender : String)
    (arrival : Nat → Nat) :
    engineStep.Along NotRepeated (.new receiver)
      (deliveries sender arrival sent) := by
  obtain ⟨nowMs, version, network, interval, flags, peers, deltas, rfl,
    only⟩ := opening
  have fresh : ((PexEngine.new receiver).link sender).phase =
      .awaitingHandshake := by
    rw [PexEngine.link_new]
    rfl
  refine ⟨fresh, ?_, ?_⟩
  · have direction := direction_engineStep (.new receiver)
      (.onMessage sender (.pexHandshake version network interval flags)
        (arrival nowMs)) sender
    rw [Call.inbound, if_pos rfl] at direction
    have phase := congrArg Direction.phase direction
    show Direction.phase (LinkState.direction _) ≠ _
    rw [phase]
    apply Direction.receive_handshake_phase
    rw [show ((PexEngine.new receiver).link sender).direction.phase = _ from
      fresh]
    simp
  · apply (Machine.along_iff _ _ _).mpr
    intro earlier call later split
    have listed : call ∈ deliveries sender arrival deltas := by
      simp only [deliveries]
      rw [split]
      simp
    obtain ⟨delta, member, rfl⟩ := List.mem_map.mp listed
    obtain ⟨added, dropped, isDelta⟩ := only delta member
    rw [isDelta]
    trivial

theorem snapshot_mem_lifetimeSent (cfg : PexConfig) {peerId : String}
    {calls : List Call} (opened : (lifetime peerId).final false calls = true) :
    "pex_snapshot" ∈
      (lifetimeSent peerId (engineStep.trace (.new cfg) calls)).map
        fun message => message.2.typeTag := by
  induction calls using List.reverseRecOn with
  | nil => cases opened
  | append_singleton calls call induction =>
      rw [lifetime_concat] at opened
      rw [lifetimeSent_concat]
      by_cases down : call.inbound peerId = some .down
      · simp [down] at opened
      · simp only [down, if_false, Bool.or_eq_true] at opened ⊢
        rw [List.map_append, List.mem_append]
        rcases opened with before | opens
        · exact .inl (induction before)
        · obtain ⟨peers, messages⟩ := messagesFor_of_opens
            (engineStep.final (.new cfg) calls) opens
          right
          rw [messages]
          simp [PexMessage.typeTag]

omit [DefaultHasher] in
theorem OneOpening.count_snapshot_le {tags : List String}
    (opening : OneOpening tags) : tags.count "pex_snapshot" ≤ 1 := by
  rcases opening with rfl | ⟨deltas, rfl⟩
  · simp
  · simp [List.count_replicate]

/-- Exactly one opening per lifetime.  In every lifetime of a link the engine
returns for it at most one handshake, the snapshot right behind it and then
deltas only, so that a fresh receiver meets neither a second time, exactly
when the link is registered at most once in each of its lifetimes. -/
theorem one_opening (cfg : PexConfig) (peerId : String)
    (calls : List Call) :
    (∀ earlier, earlier <+: calls → OpensWell cfg peerId earlier) ↔
      OpensOnce peerId calls := by
  constructor
  · intro opensWell
    apply (Machine.along_iff _ _ _).mpr
    rintro earlier call later rfl opens
    by_contra opened
    simp only [Bool.not_eq_false] at opened
    obtain ⟨opening, _⟩ := opensWell (earlier ++ [call]) (by simp)
    have once := opening.count_snapshot_le
    have before := List.count_pos_iff.mpr
      (snapshot_mem_lifetimeSent cfg opened)
    obtain ⟨peers, messages⟩ := messagesFor_of_opens
      (engineStep.final (.new cfg) earlier) opens
    have up : call.inbound peerId ≠ some .down := by
      intro down
      rw [not_opens_of_inbound down] at opens
      cases opens
    have again : "pex_snapshot" ∈
        (messagesFor peerId (call, (engineStep
          (engineStep.final (.new cfg) earlier) call).2)).map
            PexMessage.typeTag := by
      rw [messages]
      simp [PexMessage.typeTag]
    have second := List.count_pos_iff.mpr again
    rw [lifetimeSent_concat, if_neg up, List.map_append, List.map_map,
      List.count_append] at once
    have tags : (fun message => message.2.typeTag) ∘
        (fun message => (call.sendMs, message)) = PexMessage.typeTag := rfl
    rw [tags] at once
    omega
  · rintro once earlier ⟨later, rfl⟩
    have earlierOnce := ((Machine.along_append _ false earlier later).mp
      once).1
    have sent := lifetimeSent_of_opensOnce cfg earlierOnce
    cases opened : (lifetime peerId).final false earlier with
    | true =>
        rw [opened, if_pos rfl] at sent
        exact ⟨sent.oneOpening, sent.notRepeated⟩
    | false =>
        rw [opened, if_neg Bool.false_ne_true] at sent
        rw [OpensWell, sent]
        exact ⟨.inl rfl, fun _ _ _ => trivial⟩

omit [DefaultHasher] in
/-- Registering a live link again sends a second handshake and a second
snapshot. -/
theorem second_opening :
    let calls : List Call := [
      .linkUp (exampleId 'b') 1000000 .ascending .zero,
      .linkUp (exampleId 'b') 1060000 .ascending .zero]
    ¬@OpensWell sipHasher (exampleConfig (exampleId 'a')) (exampleId 'b')
      calls := by
  intro calls opensWell
  have once := opensWell.1.count_snapshot_le
  revert once
  decide +kernel

end DigPex
