import AntAodv.Network.Calls
import AntAodv.Network.History
import Mathlib.Algebra.Order.Field.Rat

/-!
# The phase of an ant

Whether an ant is on its way out or back is read off the direction of its common
header, which a channel may set to up.  An ant keeps its phase exactly as long as
it keeps its direction.
-/

namespace AntAodv

variable {K : Type}

/-- The packet with the direction a channel sets. -/
def Packet.goingUp (p : Packet K) : Packet K :=
  { p with cmn := { p.cmn with direction := .up } }

/-- A medium that delivers packets unchanged or with the direction up, whatever their
`ttl`. -/
def Medium.MayTurnUp (medium : Medium K) : Prop :=
  ∀ sent p, medium.delivers sent p →
    ∃ ttl, p = sent.withTtl ttl ∨ p = (sent.withTtl ttl).goingUp

/-- The event delivers a packet with the direction it was sent with. -/
def Net.KeepsDirection (net : Net K) : Event K → Prop
  | .deliver index p _ _ =>
      ∀ sent, net.flight[index]? = some sent → p.cmn.direction = sent.cmn.direction
  | _ => True

/-- The operations of a call that takes the packet for a forward ant: it is memorized
and then sent on, or turned round at its destination. -/
structure TreatedForward (p : Packet K) (ops : List (Op K)) : Prop where
  memorized : ops.head? = some .memorize
  next : ∀ op, ops[1]? = some op →
    op = if p.ip.daddr = p.ant.pktDst then .createBackwardAntPkt else .forwardAntPkt
  never : .updateTable ∉ ops

/-- The operations of a call that takes the packet for a backward ant. -/
structure TreatedBackward (ops : List (Op K)) : Prop where
  updated : ops.head? = some .updateTable
  never : ∀ op ∈ ops, op ≠ .memorize ∧ op ≠ .forwardAntPkt ∧ op ≠ .createBackwardAntPkt

variable [Arithmetic K] [LinearOrder K]

/-- After the run `trace`, an event treats the packet it delivers as the phase of the
ant demands: as a forward ant if it has not been at its destination, and as a
backward ant if it was turned round. -/
structure PhaseKept (sim : Sim) (trace : List (Net K × Event K)) (net : Net K)
    (event : Event K) (p : Packet K) : Prop where
  outward : (∀ q ∈ deliveries p.cmn.uid trace, q.ip.daddr ≠ q.ant.pktDst) →
    TreatedForward p (net.ops sim event)
  homeward : (∃ first earlier q, (first, earlier) ∈ trace ∧ earlier.delivered = some q ∧
      q.cmn.uid = p.cmn.uid ∧ .createBackwardAntPkt ∈ first.ops sim earlier) →
    TreatedBackward (net.ops sim event)

variable {sim : Sim} {medium : Medium K} {net net' : Net K} {event : Event K}
  {trace : List (Net K × Event K)} {c c' : Call K} {p : Packet K} {failure : Failure K}

/-- A packet that keeps its direction is delivered unchanged. -/
theorem Net.KeepsDirection.unchanged (keeps : net.KeepsDirection event)
    (mayTurn : medium.MayTurnUp) (enabled : net.Enabled sim medium event) :
    net.Unchanged event := by
  cases event with
  | deliver index p draws junk =>
      obtain ⟨⟨sent, inFlight, delivered⟩, _⟩ := enabled
      obtain ⟨ttl, rfl | rfl⟩ := mayTurn sent p delivered
      · exact ⟨sent, ttl, inFlight, rfl⟩
      · have direction : Dir.up = sent.cmn.direction := keeps sent inFlight
        exact ⟨sent, ttl, inFlight, by simp [Packet.goingUp, Packet.withTtl, direction]⟩
  | _ => trivial

theorem Medium.MayTurnUp.unaltered (mayTurn : medium.MayTurnUp) (params : NsAddr → Params K) :
    Unaltered sim medium ((network sim medium params).restrict Net.KeepsDirection) :=
  fun _ _ _ step => ⟨step.1.1, step.2.unchanged mayTurn step.1.1, step.1.2⟩

theorem Received.treatedForward (received : Received sim c p c') (quiet : c.log = [])
    (forward : ForwardAnt sim p) : TreatedForward p c'.log := by
  cases received with
  | turned _ arrived =>
      exact ⟨by simp [quiet], fun op second => by simpa [quiet, arrived, eq_comm] using second,
        by simp [quiet]⟩
  | ended _ underway | forwarded _ underway =>
      exact ⟨by simp [quiet], fun op second => by simpa [quiet, underway, eq_comm] using second,
        by simp [quiet]⟩
  | home backward | returned backward => exact absurd backward forward.not_backward

theorem Refused.treatedForward (refused : Refused sim c p failure) (quiet : c.log = []) :
    TreatedForward p failure.log := by
  cases refused with
  | full => exact ⟨by simp [quiet], by simp [quiet], by simp [quiet]⟩
  | noDraw _ underway =>
      exact ⟨by simp [quiet], fun op second => by simpa [quiet, underway, eq_comm] using second,
        by simp [quiet]⟩

theorem Received.treatedBackward (received : Received sim c p c') (quiet : c.log = [])
    (backward : BackwardAnt sim p) : TreatedBackward c'.log := by
  cases received with
  | turned forward | ended forward | forwarded forward =>
      exact absurd backward forward.not_backward
  | home | returned =>
      refine ⟨by simp [quiet, Call.tableUpdated], ?_⟩
      simp only [Call.tableUpdated, quiet, List.nil_append, List.cons_append, List.mem_cons,
        List.mem_append, List.mem_map, List.not_mem_nil, or_false]
      rintro op (rfl | ⟨_, _, rfl⟩ | rest)
      · simp
      · simp
      · rcases rest with rfl | rfl <;> simp

/-- Delivered unchanged, an ant is treated as what it is. -/
theorem Net.WellFormed.treated (wellFormed : net.WellFormed sim)
    (unchanged : net.Unchanged event) (delivered : event.delivered = some p) :
    (ForwardAnt sim p ∧ TreatedForward p (net.ops sim event)) ∨
      BackwardAnt sim p ∧ TreatedBackward (net.ops sim event) := by
  cases event with
  | deliver index q draws junk =>
      cases delivered
      have kinds := wellFormed.deliver_cases unchanged
      have caller : (Event.deliver index p draws junk).caller = some p.ip.daddr := rfl
      rcases wellFormed.invoke_cases unchanged caller with
        ⟨_, _, _, other, _⟩ | ⟨_, _, _, _, same, _, ⟨c, received, ops⟩ | ⟨failure, refused, ops⟩⟩
      · cases other
      · cases same
        rw [ops]
        rcases kinds with forward | backward
        · apply Or.inl
          exact ⟨forward, received.treatedForward rfl forward⟩
        · apply Or.inr
          exact ⟨backward, received.treatedBackward rfl backward⟩
      · cases same
        rw [ops]
        have forward : ForwardAnt sim p := by cases refused <;> assumption
        apply Or.inl
        exact ⟨forward, refused.treatedForward rfl⟩
  | _ => cases delivered

/-- A call for a foreign ant that goes up begins with `update_table`, whatever its
outcome. -/
theorem Call.recv_up_head (held : c.held = some p) (foreign : p.ip.saddr ≠ c.agent.addr)
    (ant : Ant sim p) (direction : p.cmn.direction = .up) (quiet : c.log = []) :
    (∀ c', c.recv sim = .ok c' → c'.log.head? = some .updateTable) ∧
      ∀ failure, c.recv sim = .error failure → failure.log.head? = some .updateTable := by
  rw [c.recv_up held foreign ant direction]
  rcases Call.updateTable_cases sim held ant.bounded' with
    ⟨_, next, dests, updated⟩ | ⟨_, index, failed⟩
  · have still : (c.tableUpdated sim next dests).held = some p := held
    have begins : (c.tableUpdated sim next dests).log.head? = some .updateTable := by
      simp [Call.tableUpdated, quiet]
    rw [updated, ok_bind, ok_bind]
    split
    · rw [show (c.tableUpdated sim next dests).free = _ from Call.release_ok still .freed]
      refine ⟨?_, by simp⟩
      rintro _ ⟨⟩
      rw [List.head?_append, begins]
      rfl
    · rcases Call.backwardAntPkt_cases still ant.bounded' ant.distinct with
        ⟨_, prev, sentBack⟩ | ⟨_, index, failed⟩
      · rw [sentBack]
        refine ⟨?_, by simp⟩
        rintro _ ⟨⟩
        rw [List.head?_append, begins]
        rfl
      · rw [failed]
        refine ⟨by simp, ?_⟩
        rintro _ ⟨⟩
        rw [List.head?_append, begins]
        rfl
  · rw [failed]
    simp [quiet]

theorem Net.ops_head_of_up (sim : Sim) (index : ℕ) (draws : List K) (junk : NsAddr)
    (own : (net.agent p.ip.daddr).addr = p.ip.daddr) (foreign : p.ip.saddr ≠ p.ip.daddr)
    (ant : Ant sim p) (direction : p.cmn.direction = .up) :
    (net.ops sim (.deliver index p draws junk)).head? = some .updateTable := by
  have begins := Call.recv_up_head (c := net.call p.ip.daddr (some p) [] draws junk) rfl
    (by rw [show (net.call p.ip.daddr (some p) [] draws junk).agent.addr = p.ip.daddr from own]
        exact foreign) ant direction rfl
  rw [Net.ops, Net.invoke]
  cases outcome : (net.call p.ip.daddr (some p) [] draws junk).recv sim with
  | ok c => exact begins.1 c outcome
  | error failure => exact begins.2 failure outcome

omit [Arithmetic K] [LinearOrder K] in
theorem exists_of_mem_deliveries {uid : ℕ} {q : Packet K} (delivered : q ∈ deliveries uid trace) :
    ∃ first earlier, (first, earlier) ∈ trace ∧ earlier.delivered = some q ∧ q.cmn.uid = uid := by
  simp only [deliveries, List.mem_filter, List.mem_filterMap, decide_eq_true_eq] at delivered
  obtain ⟨⟨⟨first, earlier⟩, occurred, isDelivered⟩, same⟩ := delivered
  exact ⟨first, earlier, occurred, isDelivered, same⟩

/-- As long as every ant was delivered with the direction it was sent with, the next
one is treated as its phase demands exactly when it is, too. -/
theorem phaseKept_iff_keepsDirection (mayTurn : medium.MayTurnUp) {params : NsAddr → Params K}
    (run : ((network sim medium params).restrict Net.KeepsDirection).Run (Net.initial params)
      trace net)
    (enabled : net.Enabled sim medium event) (delivered : event.delivered = some p) :
    PhaseKept sim trace net event p ↔ net.KeepsDirection event := by
  obtain ⟨wellFormed, history⟩ := (mayTurn.unaltered params).history run
  constructor
  · intro kept
    cases event with
    | deliver index q draws junk =>
        cases delivered
        intro sent inFlight
        obtain ⟨⟨other, found, delivers⟩, _⟩ := enabled
        cases Option.some.inj (inFlight.symm.trans found)
        obtain ⟨ttl, rfl | rfl⟩ := mayTurn sent _ delivers
        · rfl
        · have isSent := List.mem_of_getElem? inFlight
          rcases wellFormed.ants sent isSent with forward | backward
          · -- an ant on its way out is taken for a backward ant
            have treated := kept.outward fun earlier isEarlier => by
              obtain ⟨first, before, occurred, isDelivered, same⟩ :=
                exists_of_mem_deliveries isEarlier
              exact (history.outward sent isSent forward first before earlier occurred
                isDelivered same).underway
            have begins := Net.ops_head_of_up sim index draws junk (p := (sent.withTtl ttl).goingUp)
              (wellFormed.addr _) forward.hop.symm
              ⟨forward.ptype, forward.sport, forward.dport, forward.length, forward.bounded,
                forward.distinct, forward.visited⟩ rfl
            exact absurd (treated.memorized.symm.trans begins) (by simp)
          · exact backward.direction.symm
    | _ => cases delivered
  · intro keeps
    have unchanged := keeps.unchanged mayTurn enabled
    have treated := wellFormed.treated unchanged delivered
    obtain ⟨ttl, inFlight⟩ := unchanged.inFlight delivered
    rcases treated with ⟨forward, treated⟩ | ⟨backward, treated⟩
    · refine ⟨fun _ => treated, ?_⟩
      rintro ⟨first, earlier, q, occurred, isDelivered, isSame, turned⟩
      exact absurd turned (history.outward _ inFlight (forward.withTtl ttl) first earlier q occurred
        isDelivered isSame).forwarded
    · refine ⟨fun unreached => ?_, fun _ => treated⟩
      obtain ⟨first, earlier, q, occurred, isDelivered, isSame, arrived, _⟩ :=
        history.homeward _ inFlight (backward.withTtl ttl)
      refine absurd arrived (unreached q ?_)
      rw [show p.cmn.uid = q.cmn.uid from isSame.symm]
      exact mem_deliveries occurred isDelivered

/-- A channel that delivers every packet unchanged or with the direction up. -/
def Medium.channel (K : Type) : Medium K :=
  ⟨fun sent p => p = sent ∨ p = sent.goingUp, fun _ => False⟩

instance {K : Type} [DecidableEq K] (sent p : Packet K) :
    Decidable ((Medium.channel K).delivers sent p) :=
  inferInstanceAs (Decidable (p = sent ∨ p = sent.goingUp))

instance {K : Type} (sent : Packet K) : Decidable ((Medium.channel K).loses sent) :=
  inferInstanceAs (Decidable False)

theorem Medium.channel_mayTurnUp (K : Type) : (Medium.channel K).MayTurnUp :=
  fun sent _ delivered => ⟨sent.ip.ttl, delivered⟩

/-- The first ant of node 0 in a line of three nodes, on its way to node 2. -/
def firstAnt : Option (List (Net ℚ × Event ℚ) × Net ℚ) :=
  (Net.initial fun _ => ⟨1 / 2, 3⟩).follow (Sim.line 3 16) (.channel ℚ)
    [fun _ => some (.start 0), fun _ => some (.timer 0 [2] [0] 0)]

/-- Delivered unchanged, it is treated as a forward ant. -/
theorem phaseKept_iff_keepsDirection_line :
    let sim := Sim.line 3 16
    let params : NsAddr → Params ℚ := fun _ => ⟨1 / 2, 3⟩
    ∃ trace net event p,
      (network sim (.channel ℚ) params).Run (Net.initial params) trace net ∧
      net.Enabled sim (.channel ℚ) event ∧ event.delivered = some p ∧ p.cmn.direction = .down ∧
      PhaseKept sim trace net event p := by
  intro sim params
  have observed : firstAnt.map (fun outcome =>
        (decide (∀ entry ∈ outcome.1, entry.2.delivered = none),
          outcome.2.flight.map fun p =>
            decide (outcome.2.Enabled sim (.channel ℚ) (.deliver 0 p [] 0) ∧
              p.cmn.direction = .down))) = some (true, [true]) := by
    decide +kernel
  obtain ⟨trace, net, run, facts⟩ := Net.exists_run_of_follow params observed
  simp only [Prod.mk.injEq, decide_eq_true_eq] at facts
  obtain ⟨quiet, single⟩ := facts
  rcases List.map_eq_singleton_iff.mp single with ⟨p, flight, shape⟩
  obtain ⟨enabled, direction⟩ := of_decide_eq_true shape
  have keeps : ∀ entry ∈ trace, entry.1.KeepsDirection entry.2 := by
    rintro ⟨first, event⟩ occurred
    have undelivered := quiet _ occurred
    cases event with
    | deliver => cases undelivered
    | _ => trivial
  refine ⟨trace, net, .deliver 0 p [] 0, p, run, enabled, rfl, direction, ?_⟩
  refine (phaseKept_iff_keepsDirection (Medium.channel_mayTurnUp ℚ) (run.restrict keeps) enabled
    rfl).mpr fun sent inFlight => ?_
  rw [flight] at inFlight
  cases inFlight
  rfl

/-- Delivered going up at its first hop, it is taken for a backward ant. -/
theorem phase_lost_going_up :
    let sim := Sim.line 3 16
    let params : NsAddr → Params ℚ := fun _ => ⟨1 / 2, 3⟩
    ¬ ∀ trace net event p,
      (network sim (.channel ℚ) params).Run (Net.initial params) trace net →
      net.Enabled sim (.channel ℚ) event → event.delivered = some p →
      PhaseKept sim trace net event p := by
  intro sim params kept
  have observed : firstAnt.map (fun outcome => outcome.2.flight.map fun p =>
        decide (outcome.2.Enabled sim (.channel ℚ) (.deliver 0 p.goingUp [] 0) ∧
          deliveries p.cmn.uid outcome.1 = [] ∧
          (outcome.2.ops sim (.deliver 0 p.goingUp [] 0)).head? = some .updateTable)) =
        some [true] := by
    decide +kernel
  obtain ⟨trace, net, run, single⟩ := Net.exists_run_of_follow params observed
  rcases List.map_eq_singleton_iff.mp single with ⟨p, _, shape⟩
  obtain ⟨enabled, undelivered, first⟩ := of_decide_eq_true shape
  have treated := (kept trace net _ p.goingUp run enabled rfl).outward
    fun q delivered => by
      rw [show p.goingUp.cmn.uid = p.cmn.uid from rfl, undelivered] at delivered
      cases delivered
  exact absurd (treated.memorized.symm.trans first) (by simp)

end AntAodv
