import AntAodv.Agent.Independence
import AntAodv.Network
import Mathlib.Algebra.Order.Field.Rat

/-!
# Agents and each other's parameters

Two runs give an agent the same inputs in the same order.  Its tables and choices
are the same in both, provided that it finds the same `NUM_NODES` at its timer
expiries and the same `r` at its backward ants: both are process-wide, so that
they may come from the parameters of another agent.
-/

namespace AntAodv

variable {K : Type}

/-- What an event gives to an agent. -/
inductive Input (K : Type) where
  | start
  | stop
  | timer (raws : List ℕ) (draws : List K) (junk : NsAddr)
  | recv (p : Packet K) (draws : List K) (junk : NsAddr)
  deriving DecidableEq

/-- What an event gives to the agent of `addr`, if it concerns that agent. -/
def Event.input (addr : NsAddr) : Event K → Option (Input K)
  | .start node => if node = addr then some .start else none
  | .stop node => if node = addr then some .stop else none
  | .timer node raws draws junk =>
      if node = addr then some (.timer raws draws junk) else none
  | .deliver _ p draws junk =>
      if p.ip.daddr = addr then some (.recv p draws junk) else none
  | _ => none

/-- The steps of a run that concern the agent of `addr`. -/
def stepsAt (addr : NsAddr) (trace : List (Net K × Event K)) : List (Net K × Event K) :=
  trace.filter fun entry => (entry.2.input addr).isSome

/-- The inputs of the agent of `addr`, in order. -/
def inputs (addr : NsAddr) (trace : List (Net K × Event K)) : List (Option (Input K)) :=
  (stepsAt addr trace).map fun entry => entry.2.input addr

/-- Two steps with the same input find the same value of the process-wide parameter
that the agent reads, if any. -/
def SameReads (addr : NsAddr) (step step' : Net K × Event K) : Prop :=
  match step.2.input addr with
  | some (.timer _ _ _) => step.1.globals.numNodes = step'.1.globals.numNodes
  | some (.recv p _ _) => p.cmn.direction = .up → step.1.globals.r = step'.1.globals.r
  | _ => True

instance [DecidableEq K] (addr : NsAddr) (step step' : Net K × Event K) :
    Decidable (SameReads addr step step') :=
  match given : step.2.input addr with
  | some (.timer _ _ _) =>
      decidable_of_iff (step.1.globals.numNodes = step'.1.globals.numNodes) (by
        simp [SameReads, given])
  | some (.recv p _ _) =>
      decidable_of_iff (p.cmn.direction = .up → step.1.globals.r = step'.1.globals.r) (by
        simp [SameReads, given])
  | some .start | some .stop | none => .isTrue (by simp [SameReads, given])

variable [Arithmetic K] [LinearOrder K]

/-- The routing table of the agent of `addr` after a step, and the destinations and
next hops chosen in it. -/
def observe (sim : Sim) (addr : NsAddr) (step : Net K × Event K) :
    Option (Rtable K) × List Choice :=
  ((step.1.exec sim step.2).toOption.map fun net => (net.agent addr).rtable,
    choices (step.1.ops sim step.2))

/-- What is observed of the agent of `addr` in a run. -/
def observed (sim : Sim) (addr : NsAddr) (trace : List (Net K × Event K)) :
    List (Option (Rtable K) × List Choice) :=
  (stepsAt addr trace).map (observe sim addr)

variable {sim : Sim} {addr : NsAddr} {net net' next next' : Net K} {event event' : Event K}

/-- An event leaves every agent alone that it does not concern. -/
theorem Net.agent_of_other (other : event.input addr = none)
    (returned : net.exec sim event = .ok next) : next.agent addr = net.agent addr := by
  have finished : ∀ (after : Net K) (node : NsAddr) (c : Call K), node ≠ addr →
      (after.finish node c).agent addr = after.agent addr := fun after node c different =>
    Function.update_of_ne different.symm _ _
  cases event with
  | tick | lose =>
      cases returned
      rfl
  | start node | stop node =>
      cases returned
      refine finished net node _ ?_
      rintro rfl
      simp [Event.input] at other
  | timer node raws draws junk =>
      obtain ⟨c, _, done⟩ := bind_eq_ok returned
      cases done
      refine finished net node c ?_
      rintro rfl
      simp [Event.input] at other
  | deliver index p draws junk =>
      obtain ⟨c, _, done⟩ := bind_eq_ok returned
      cases done
      refine finished (net.remove index) p.ip.daddr c ?_
      rintro rfl
      simp [Event.input] at other

/-- The call an input makes at the agent of `addr`. -/
def Net.answer (sim : Sim) (net : Net K) (addr : NsAddr) :
    Input K → Except (Failure K) (Call K)
  | .start => .ok ((net.call addr none [] [] 0).start sim)
  | .stop => .ok (net.call addr none [] [] 0).stop
  | .timer raws draws junk => (net.call addr none raws draws junk).sendAntPkt sim
  | .recv p draws junk => (net.call addr (some p) [] draws junk).recv sim

/-- A step that concerns an agent leaves it as its answer to the input does. -/
theorem Net.exec_of_input {input : Input K} (given : event.input addr = some input)
    (returned : net.exec sim event = .ok next) :
    ∃ c, net.answer sim addr input = .ok c ∧ next.agent addr = c.agent ∧
      net.ops sim event = c.log := by
  have finished : ∀ (after : Net K) (c : Call K), (after.finish addr c).agent addr = c.agent :=
    fun after c => Function.update_self ..
  cases event with
  | tick | lose => cases given
  | start node | stop node =>
      simp only [Event.input, Option.ite_none_right_eq_some, Option.some.injEq] at given
      obtain ⟨rfl, rfl⟩ := given
      cases returned
      exact ⟨_, rfl, finished net _, rfl⟩
  | timer node raws draws junk =>
      simp only [Event.input, Option.ite_none_right_eq_some, Option.some.injEq] at given
      obtain ⟨rfl, rfl⟩ := given
      obtain ⟨c, sent, done⟩ := bind_eq_ok returned
      cases done
      exact ⟨c, sent, finished net c, by simp [Net.ops, Net.invoke, sent]⟩
  | deliver index p draws junk =>
      simp only [Event.input, Option.ite_none_right_eq_some, Option.some.injEq] at given
      obtain ⟨rfl, rfl⟩ := given
      obtain ⟨c, received, done⟩ := bind_eq_ok returned
      cases done
      exact ⟨c, received, finished (net.remove index) c, by simp [Net.ops, Net.invoke, received]⟩

/-- Two agents in the same state answer an input alike. -/
theorem Net.answer_alike {input : Input K} (agents : net.agent addr = net'.agent addr)
    (nodes : ∀ raws draws junk, input = .timer raws draws junk →
      net.globals.numNodes = net'.globals.numNodes)
    (factor : ∀ p draws junk, input = .recv p draws junk → p.cmn.direction = .up →
      net.globals.r = net'.globals.r) :
    Call.Together (net.answer sim addr input) (net'.answer sim addr input) := by
  have called : ∀ held raws draws junk, (net.call addr held raws draws junk).Alike
      (net'.call addr held raws draws junk) := by
    intro held raws draws junk
    refine ⟨agents, rfl, rfl, rfl, ?_, rfl⟩
    cases held with
    | none => exact .none
    | some p => exact .some (.refl p)
  cases input with
  | start =>
      have alike := called none [] [] 0
      refine .ok ⟨?_, rfl, rfl, rfl, alike.held, rfl⟩
      simp only [Call.start, Call.initializeRtable, alike.agent]
  | stop =>
      have alike := called none [] [] 0
      refine .ok ⟨?_, rfl, rfl, rfl, alike.held, rfl⟩
      simp only [Call.stop, alike.agent]
  | timer raws draws junk =>
      exact (called none raws draws junk).sendAntPkt (nodes raws draws junk rfl)
  | recv p draws junk =>
      exact (called (some p) [] draws junk).recv rfl (factor p draws junk rfl)

/-- Steps with the same input leave the agent in the same state, after the same
choices. -/
theorem SameReads.step (reads : SameReads addr (net, event) (net', event'))
    (agents : net.agent addr = net'.agent addr) (same : event.input addr = event'.input addr)
    (concerned : (event.input addr).isSome) (returned : net.exec sim event = .ok next)
    (returned' : net'.exec sim event' = .ok next') :
    next.agent addr = next'.agent addr ∧
      observe sim addr (net, event) = observe sim addr (net', event') := by
  obtain ⟨input, given⟩ := Option.isSome_iff_exists.mp concerned
  obtain ⟨c, answered, after, ops⟩ := Net.exec_of_input given returned
  obtain ⟨d, answered', after', ops'⟩ := Net.exec_of_input (same ▸ given) returned'
  have alike : Call.Together (net.answer sim addr input) (net'.answer sim addr input) := by
    refine Net.answer_alike agents ?_ ?_
    · rintro raws draws junk rfl
      simpa [SameReads, given] using reads
    · rintro p draws junk rfl
      simpa [SameReads, given] using reads
  rw [answered, answered'] at alike
  have similar := alike.of_ok
  have agent : next.agent addr = next'.agent addr := by rw [after, after', similar.agent]
  refine ⟨agent, ?_⟩
  simp only [observe, returned, returned', Except.toOption, Option.map_some, agent, ops, ops',
    similar.choices]

/-- The states of the agent of `addr` along its steps. -/
inductive Course (sim : Sim) (addr : NsAddr) :
    Antnet K → List (Net K × Event K) → Antnet K → Prop where
  | nil (agent : Antnet K) : Course sim addr agent [] agent
  | cons {net next : Net K} {event : Event K} {steps : List (Net K × Event K)}
      {last : Antnet K} :
      (event.input addr).isSome →
      net.exec sim event = .ok next →
      Course sim addr (next.agent addr) steps last →
      Course sim addr (net.agent addr) ((net, event) :: steps) last

theorem Course.append {first middle last : Antnet K} {early late : List (Net K × Event K)}
    (before : Course sim addr first early middle) (after : Course sim addr middle late last) :
    Course sim addr first (early ++ late) last := by
  induction before with
  | nil => exact after
  | cons concerned returned _ inductionHypothesis =>
      exact .cons concerned returned (inductionHypothesis after)

/-- Between its own steps the agent stays as it is. -/
theorem course_of_run {medium : Medium K} {params : NsAddr → Params K}
    {trace : List (Net K × Event K)} (run : (network sim medium params).Run net trace next) :
    Course sim addr (net.agent addr) (stepsAt addr trace) (next.agent addr) := by
  induction run with
  | refl => exact .nil _
  | @snoc middle last trace event _ step inductionHypothesis =>
      rw [stepsAt, List.filter_append]
      cases given : event.input addr with
      | none =>
          have same := Net.agent_of_other given step.2
          rw [same]
          simpa [stepsAt, given] using inductionHypothesis
      | some input =>
          have concerned : (event.input addr).isSome := by rw [given]; rfl
          refine inductionHypothesis.append ?_
          rw [List.filter_singleton, concerned]
          exact .cons concerned step.2 (.nil _)

theorem Course.observe_eq {first first' last last' : Antnet K} {steps steps' : List (Net K × Event K)}
    (reads : List.Forall₂ (fun step step' => step.2.input addr = step'.2.input addr ∧
      SameReads addr step step') steps steps')
    (course : Course sim addr first steps last) (course' : Course sim addr first' steps' last')
    (agents : first = first') :
    steps.map (observe sim addr) = steps'.map (observe sim addr) ∧ last = last' := by
  induction reads generalizing first first' with
  | nil =>
      cases course
      cases course'
      exact ⟨rfl, agents⟩
  | @cons step step' _ _ first _ inductionHypothesis =>
      cases course with
      | cons concerned returned rest =>
          cases course' with
          | cons _ returned' rest' =>
              obtain ⟨agents, outcome⟩ := first.2.step agents first.1 concerned returned returned'
              obtain ⟨outcomes, last⟩ := inductionHypothesis rest rest' agents
              exact ⟨by rw [List.map_cons, List.map_cons, outcome, outcomes], last⟩

/-- Agents do not interfere as long as what they read of the process-wide parameters
is the same. -/
theorem observed_eq_of_sameReads {medium medium' : Medium K} {params params' : NsAddr → Params K}
    {trace trace' : List (Net K × Event K)} (own : params addr = params' addr)
    (run : (network sim medium params).Run (Net.initial params) trace net)
    (run' : (network sim medium' params').Run (Net.initial params') trace' net')
    (same : inputs addr trace = inputs addr trace')
    (reads : List.Forall₂ (SameReads addr) (stepsAt addr trace) (stepsAt addr trace')) :
    observed sim addr trace = observed sim addr trace' ∧
      (net.agent addr).rtable = (net'.agent addr).rtable := by
  have equal : List.Forall₂ (fun step step' : Net K × Event K =>
      step.2.input addr = step'.2.input addr) (stepsAt addr trace) (stepsAt addr trace') := by
    rw [inputs, inputs, ← List.forall₂_eq_eq_eq, List.forall₂_map_left_iff,
      List.forall₂_map_right_iff] at same
    exact same
  have pairs := List.Forall₂.mp (fun _ _ => And.intro) equal reads
  have agents : (Net.initial params).agent addr = (Net.initial params').agent addr := by
    simp only [Net.initial, own]
  obtain ⟨outcomes, last⟩ := (course_of_run run).observe_eq pairs (course_of_run run') agents
  exact ⟨outcomes, congrArg Antnet.rtable last⟩

/-- Node 0 sends the same ant, whatever the parameters of node 1, as long as it is the
last to be started. -/
theorem observed_eq_of_sameReads_line :
    let sim := Sim.line 2 16
    let params : ℚ → NsAddr → Params ℚ := fun rate node => ⟨if node = 1 then rate else 1 / 2, 2⟩
    ∃ trace net trace' net',
      (network sim (.perfect ℚ) (params (1 / 2))).Run (Net.initial (params (1 / 2))) trace net ∧
      (network sim (.perfect ℚ) (params (1 / 4))).Run (Net.initial (params (1 / 4))) trace' net' ∧
      (stepsAt 0 trace).length = 2 ∧ observed sim 0 trace = observed sim 0 trace' := by
  intro sim params
  have compared : (match
        (Net.initial (params (1 / 2))).follow sim (.perfect ℚ)
          [fun _ => some (.start 0), fun _ => some (.timer 0 [1] [0] 0)],
        (Net.initial (params (1 / 4))).follow sim (.perfect ℚ)
          [fun _ => some (.start 1), fun _ => some (.start 0),
            fun _ => some (.timer 0 [1] [0] 0)] with
      | some first, some second =>
          decide ((stepsAt 0 first.1).length = 2 ∧ inputs 0 first.1 = inputs 0 second.1 ∧
            List.Forall₂ (SameReads 0) (stepsAt 0 first.1) (stepsAt 0 second.1))
      | _, _ => false) = true := by
    decide +kernel
  split at compared
  · rename_i first second followed followed'
    obtain ⟨two, same, reads⟩ := of_decide_eq_true compared
    have run := Net.run_of_follow (params (1 / 2)) followed
    have run' := Net.run_of_follow (params (1 / 4)) followed'
    have own : params (1 / 2) 0 = params (1 / 4) 0 := by simp [params]
    exact ⟨_, _, _, _, run, run', two, (observed_eq_of_sameReads own run run' same reads).1⟩
  · cases compared

/-- An ant from node 0 to node 2 and back passes node 1, while node 2 has the
reinforcement factor `rate`. -/
def passingThrough (rate : ℚ) : Option (List (Net ℚ × Event ℚ) × Net ℚ) :=
  (Net.initial fun node => ⟨if node = 2 then rate else 1 / 2, 3⟩).follow (Sim.line 3 16)
    (.perfect ℚ)
    [fun _ => some (.start 0), fun _ => some (.start 1), fun _ => some (.start 2),
      fun _ => some (.timer 0 [2] [0] 0), deliverAs 0 id [1 / 2] 0, deliverAs 0 id [] 0,
      deliverAs 0 id [] 0]

/-- Node 1 learns at the rate of node 2, which was started last. -/
theorem rate_of_another_agent :
    let sim := Sim.line 3 16
    ¬ ∀ (params params' : NsAddr → Params ℚ) (addr : NsAddr)
      (trace trace' : List (Net ℚ × Event ℚ)) (net net' : Net ℚ), params addr = params' addr →
      (network sim (.perfect ℚ) params).Run (Net.initial params) trace net →
      (network sim (.perfect ℚ) params').Run (Net.initial params') trace' net' →
      inputs addr trace = inputs addr trace' →
      (net.agent addr).rtable = (net'.agent addr).rtable := by
  intro sim independent
  have compared : (match passingThrough (1 / 2), passingThrough (1 / 4) with
      | some first, some second =>
          decide (inputs 1 first.1 = inputs 1 second.1 ∧
            (first.2.agent 1).rtable 2 ≠ (second.2.agent 1).rtable 2)
      | _, _ => false) = true := by
    decide +kernel
  split at compared
  · rename_i first second followed followed'
    obtain ⟨same, different⟩ := of_decide_eq_true compared
    refine different (congrFun (independent _ _ 1 _ _ _ _ ?_ (Net.run_of_follow _ followed)
      (Net.run_of_follow _ followed') same) 2)
    simp
  · cases compared

end AntAodv
