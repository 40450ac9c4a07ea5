import AntAodv.Network.WellFormed

/-!
# The calls of an event

Whether it returns or not, the call an event makes at an agent has one of a few
outcomes.  From them follows for which destinations it calls `calc_next`, and
that only backward ants make it call `update`.
-/

namespace AntAodv

variable {K : Type}

/-- The agent an event runs at for an ant. -/
def Event.caller : Event K → Option NsAddr
  | .timer addr _ _ _ => some addr
  | .deliver _ p _ _ => some p.ip.daddr
  | _ => none

/-- The draws an event gives to the call it makes. -/
def Event.draws : Event K → List K
  | .timer _ _ draws _ => draws
  | .deliver _ _ draws _ => draws
  | _ => []

variable [Arithmetic K] [LinearOrder K]

/-- The destination an event asks `calc_next` for. -/
def Net.Asks (sim : Sim) (net : Net K) (dest : NsAddr) : Event K → Prop
  | .timer addr raws _ _ =>
      Rtable.calcDestination sim net.globals.numNodes addr raws = some dest
  | .deliver _ p _ _ => ForwardAnt sim p ∧ p.ip.daddr ≠ p.ant.pktDst ∧ dest = p.ant.pktDst
  | _ => False

variable {sim : Sim} {medium : Medium K} {net : Net K} {event : Event K} {c c' : Call K}
  {p : Packet K} {failure : Failure K} {dest parent next : NsAddr} {result : NextHop}

theorem Emitted.calcNext_eq (emitted : Emitted sim c c') (quiet : c.log = [])
    (called : .calcNext dest parent result ∈ c'.log) :
    result = Rtable.calcNext sim c.globals.n c.agent.rtable c.agent.addr dest parent c.draws ∧
      Rtable.calcDestination sim c.globals.numNodes c.agent.addr c.raws = some dest := by
  cases emitted with
  | freed chosen value | handed _ chosen value =>
      simp only [quiet, List.nil_append, List.mem_cons, List.not_mem_nil, reduceCtorEq, or_false,
        false_or, Op.calcNext.injEq] at called
      obtain ⟨rfl, rfl, rfl⟩ := called
      exact ⟨value.symm, chosen⟩

theorem Call.Stalled.calcNext_eq (stalled : Call.Stalled sim c failure) (quiet : c.log = [])
    (called : .calcNext dest parent result ∈ failure.log) :
    result = Rtable.calcNext sim c.globals.n c.agent.rtable c.agent.addr dest parent c.draws ∧
      Rtable.calcDestination sim c.globals.numNodes c.agent.addr c.raws = some dest := by
  cases stalled with
  | noDestination | noSlot => simp [quiet] at called
  | noDraw chosen value =>
      simp only [quiet, List.nil_append, List.mem_cons, List.not_mem_nil, reduceCtorEq, or_false,
        false_or, Op.calcNext.injEq] at called
      obtain ⟨rfl, rfl, rfl⟩ := called
      exact ⟨value.symm, chosen⟩

theorem Received.calcNext_eq (received : Received sim c p c') (quiet : c.log = [])
    (called : .calcNext dest parent result ∈ c'.log) :
    result = Rtable.calcNext sim c.globals.n c.agent.rtable p.ip.daddr dest parent c.draws ∧
      ForwardAnt sim p ∧ p.ip.daddr ≠ p.ant.pktDst ∧ dest = p.ant.pktDst := by
  cases received with
  | turned | home | returned => simp [quiet, Call.tableUpdated] at called
  | ended ant underway value | forwarded ant underway _ value =>
      simp only [quiet, List.nil_append, List.mem_cons, List.not_mem_nil, reduceCtorEq, or_false,
        false_or, Op.calcNext.injEq] at called
      obtain ⟨rfl, rfl, rfl⟩ := called
      exact ⟨value.symm, ant, underway, rfl⟩

theorem Refused.calcNext_eq (refused : Refused sim c p failure) (quiet : c.log = [])
    (called : .calcNext dest parent result ∈ failure.log) :
    result = Rtable.calcNext sim c.globals.n c.agent.rtable p.ip.daddr dest parent c.draws ∧
      ForwardAnt sim p ∧ p.ip.daddr ≠ p.ant.pktDst ∧ dest = p.ant.pktDst := by
  cases refused with
  | full => simp [quiet] at called
  | noDraw ant underway value =>
      simp only [quiet, List.nil_append, List.mem_cons, List.not_mem_nil, reduceCtorEq, or_false,
        false_or, Op.calcNext.injEq] at called
      obtain ⟨rfl, rfl, rfl⟩ := called
      exact ⟨value.symm, ant, underway, rfl⟩

/-- Only a backward ant makes updates, towards the node it came from. -/
theorem Received.update_eq (received : Received sim c p c') (quiet : c.log = [])
    (called : .update dest next ∈ c'.log) : BackwardAnt sim p ∧ next = p.ip.saddr := by
  cases received with
  | turned | ended | forwarded => simp [quiet] at called
  | home ant | returned ant =>
      refine ⟨ant, ?_⟩
      simp only [Call.tableUpdated, quiet, List.nil_append, List.mem_append, List.mem_cons,
        List.mem_map, reduceCtorEq, List.not_mem_nil, or_false, false_or, Op.update.injEq] at called
      rcases called with ⟨_, _, _, rfl⟩
      rfl

/-- The outcomes of the call an event makes, whether it returns or not. -/
theorem Net.WellFormed.invoke_cases (wellFormed : net.WellFormed sim)
    (unchanged : net.Unchanged event) {node : NsAddr} (caller : event.caller = some node) :
    (∃ raws draws junk, event = .timer node raws draws junk ∧
      ((∃ c, Emitted sim (net.call node none raws draws junk) c ∧ net.ops sim event = c.log) ∨
        ∃ failure, Call.Stalled sim (net.call node none raws draws junk) failure ∧
          net.ops sim event = failure.log)) ∨
      ∃ index p draws junk, event = .deliver index p draws junk ∧ p.ip.daddr = node ∧
        ((∃ c, Received sim (net.call node (some p) [] draws junk) p c ∧
            net.ops sim event = c.log) ∨
          ∃ failure, Refused sim (net.call node (some p) [] draws junk) p failure ∧
            net.ops sim event = failure.log) := by
  cases event with
  | tick | start | stop | lose => cases caller
  | timer addr raws draws junk =>
      cases caller
      apply Or.inl
      refine ⟨raws, draws, junk, rfl, ?_⟩
      cases outcome : (net.call node none raws draws junk).sendAntPkt sim with
      | ok c => exact .inl ⟨c, Call.emitted outcome, by simp [Net.ops, Net.invoke, outcome]⟩
      | error failure =>
          apply Or.inr
          exact ⟨failure, Call.sendAntPkt_error outcome,
            by simp [Net.ops, Net.invoke, outcome]⟩
  | deliver index p draws junk =>
      cases caller
      have own := wellFormed.addr p.ip.daddr
      apply Or.inr
      refine ⟨index, p, draws, junk, rfl, rfl, ?_⟩
      cases outcome : (net.call p.ip.daddr (some p) [] draws junk).recv sim with
      | ok c =>
          apply Or.inl
          refine ⟨c, ?_, by simp [Net.ops, Net.invoke, outcome]⟩
          rcases wellFormed.deliver_cases unchanged with forward | backward
          · exact forward.received rfl own outcome
          · exact backward.received rfl own outcome
      | error failure =>
          apply Or.inr
          refine ⟨failure, ?_, by simp [Net.ops, Net.invoke, outcome]⟩
          rcases wellFormed.deliver_cases unchanged with forward | backward
          · exact forward.refused rfl own outcome
          · obtain ⟨c, received⟩ := backward.not_refused
              (c := net.call p.ip.daddr (some p) [] draws junk) rfl own
            rw [received] at outcome
            cases outcome

theorem Net.WellFormed.calcNext_eq (wellFormed : net.WellFormed sim)
    (unchanged : net.Unchanged event) {node : NsAddr} (caller : event.caller = some node)
    (called : .calcNext dest parent result ∈ net.ops sim event) :
    result = Rtable.calcNext sim net.globals.n (net.agent node).rtable node dest parent
      event.draws ∧ net.Asks sim dest event := by
  rcases wellFormed.invoke_cases unchanged caller with
    ⟨raws, draws, junk, rfl, ⟨c, emitted, ops⟩ | ⟨failure, stalled, ops⟩⟩ |
    ⟨index, p, draws, junk, rfl, rfl, ⟨c, received, ops⟩ | ⟨failure, refused, ops⟩⟩
  · rw [ops] at called
    have value := emitted.calcNext_eq rfl called
    rwa [show (net.call node none raws draws junk).agent.addr = node from
      wellFormed.addr node] at value
  · rw [ops] at called
    have value := stalled.calcNext_eq rfl called
    rwa [show (net.call node none raws draws junk).agent.addr = node from
      wellFormed.addr node] at value
  · rw [ops] at called
    exact received.calcNext_eq rfl called
  · rw [ops] at called
    exact refused.calcNext_eq rfl called

theorem Net.WellFormed.update_eq (wellFormed : net.WellFormed sim)
    (unchanged : net.Unchanged event) {node : NsAddr} (caller : event.caller = some node)
    (called : .update dest next ∈ net.ops sim event) :
    ∃ index p draws junk, event = .deliver index p draws junk ∧ p.ip.daddr = node ∧
      BackwardAnt sim p ∧ next = p.ip.saddr := by
  rcases wellFormed.invoke_cases unchanged caller with
    ⟨raws, draws, junk, rfl, ⟨c, emitted, ops⟩ | ⟨failure, stalled, ops⟩⟩ |
    ⟨index, p, draws, junk, rfl, here, ⟨c, received, ops⟩ | ⟨failure, refused, ops⟩⟩
  · rw [ops] at called
    cases emitted <;> simp [Net.call] at called
  · rw [ops] at called
    cases stalled <;> simp [Net.call] at called
  · rw [ops] at called
    exact ⟨index, p, draws, junk, rfl, here, received.update_eq rfl called⟩
  · rw [ops] at called
    cases refused <;> simp [Net.call] at called

theorem Net.Enabled.uniform (enabled : net.Enabled sim medium event) :
    Net.Uniform event.draws := by
  cases event with
  | tick | start | stop | lose => simp [Event.draws, Net.Uniform]
  | timer | deliver => exact enabled.2.2

end AntAodv
