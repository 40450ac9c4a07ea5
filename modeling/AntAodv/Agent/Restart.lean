import AntAodv.Agent.Forward
import AntAodv.Library.Transition
import AntAodv.Rtable.Rows
import Mathlib.Algebra.Order.Field.Rat

/-!
# Starting an agent

`initialize_rtable` appends an entry for every neighbour to the row of every
destination, whether the agent was started before or not.
-/

namespace AntAodv

/-- The table `initialize_rtable` leaves. -/
theorem Call.initializeRtable_rtable {K : Type} [Arithmetic K] (sim : Sim) (c : Call K) (dest : ℤ) :
    (c.initializeRtable sim).agent.rtable dest =
      if (0 ≤ dest ∧ dest < c.agent.numNodes) ∧ dest ≠ c.agent.addr ∧
          sim.neighborList c.agent.addr ≠ [] then
        some ((c.agent.rtable dest).getD [] ++
          Rtable.freshRow (sim.neighborList c.agent.addr))
      else c.agent.rtable dest := by
  have added := Rtable.foldl_initialize_apply c.agent.rtable c.agent.addr
    (sim.neighborList c.agent.addr) (1 / ((sim.neighborList c.agent.addr).length : K))
    c.agent.numNodes.toNat dest
  have range : (0 ≤ dest ∧ dest < (c.agent.numNodes.toNat : ℤ)) ↔
      0 ≤ dest ∧ dest < c.agent.numNodes := by
    constructor <;> intro inside <;> omega
  simp only [range] at added
  exact added

/-! ### What calls leave unchanged -/

section Updates

variable {K : Type} [Arithmetic K]

/-- An agent whose parameters are the same, and whose rows were updated with `rate` and
nothing else. -/
structure Antnet.Updated (rate : K) (agent agent' : Antnet K) : Prop where
  addr : agent'.addr = agent.addr
  rFactor : agent'.rFactor = agent.rFactor
  numNodes : agent'.numNodes = agent.numNodes
  rows : ∀ dest, ∃ winners, agent'.rtable dest =
    (agent.rtable dest).map fun row => Rtable.updateRows rate row winners

namespace Antnet.Updated

variable {rate : K} {agent agent' : Antnet K}

theorem of_rtable (addr : agent'.addr = agent.addr) (rFactor : agent'.rFactor = agent.rFactor)
    (numNodes : agent'.numNodes = agent.numNodes) (rtable : agent'.rtable = agent.rtable) :
    agent.Updated rate agent' :=
  ⟨addr, rFactor, numNodes, fun dest => ⟨[], by simp [rtable, Rtable.updateRows]⟩⟩

theorem refl (agent : Antnet K) : agent.Updated rate agent := of_rtable rfl rfl rfl rfl

theorem trans {middle last : Antnet K} (early : agent.Updated rate middle)
    (late : middle.Updated rate last) : agent.Updated rate last where
  addr := late.addr.trans early.addr
  rFactor := late.rFactor.trans early.rFactor
  numNodes := late.numNodes.trans early.numNodes
  rows dest := by
    obtain ⟨first, before⟩ := early.rows dest
    obtain ⟨second, after⟩ := late.rows dest
    refine ⟨first ++ second, ?_⟩
    rw [after, before, Option.map_map]
    congr 1
    funext row
    exact (Rtable.updateRows_append rate row first second).symm

/-- The rows still list the same neighbours. -/
theorem neighbors (updated : agent.Updated rate agent') (dest : NsAddr) :
    (agent'.rtable dest).map (List.map Pheromone.neighbor) =
      (agent.rtable dest).map (List.map Pheromone.neighbor) := by
  obtain ⟨winners, after⟩ := updated.rows dest
  simp [after, Function.comp_def]

theorem isSome (updated : agent.Updated rate agent') (dest : NsAddr) :
    (agent'.rtable dest).isSome = (agent.rtable dest).isSome := by
  obtain ⟨winners, after⟩ := updated.rows dest
  simp [after]

/-- A property of rows that every update keeps still holds of all rows. -/
theorem invariant (updated : agent.Updated rate agent') {holds : PheromoneMatrix K → Prop}
    (preserved : ∀ next row, holds row → holds (Rtable.updateRow rate next row))
    (before : ∀ dest row, agent.rtable dest = some row → holds row) :
    ∀ dest row, agent'.rtable dest = some row → holds row := by
  intro dest row known
  obtain ⟨winners, after⟩ := updated.rows dest
  rw [after] at known
  obtain ⟨old, wasKnown, rfl⟩ := Option.map_eq_some_iff.mp known
  exact Rtable.updateRows_invariant preserved (before dest old wasKnown) winners

end Antnet.Updated

/-- A call that has done no more to its agent and the shared rate. -/
structure Call.Updates (c c' : Call K) : Prop where
  rate : c'.globals.r = c.globals.r
  agent : c.agent.Updated c.globals.r c'.agent

namespace Call

variable {c c' : Call K} {sim : Sim}

theorem Updates.of_same (agent : c'.agent = c.agent) (globals : c'.globals = c.globals) :
    c.Updates c' :=
  ⟨by rw [globals], by rw [agent]; exact .refl c.agent⟩

theorem Updates.trans {middle last : Call K} (early : c.Updates middle)
    (late : middle.Updates last) : c.Updates last := by
  refine ⟨late.rate.trans early.rate, early.agent.trans ?_⟩
  rw [← early.rate]
  exact late.agent

omit [Arithmetic K] in
theorem held_of_pkt {p : Packet K} (isHeld : c.pkt = .ok p) : c.held = some p := by
  rw [pkt] at isHeld
  split at isHeld
  · rename_i held
    cases isHeld
    exact held
  · cases isHeld

theorem updates_release {op : Packet K → Op K} (released : c.release op = .ok c') :
    c.Updates c' := by
  obtain ⟨p, _, done⟩ := bind_eq_ok released
  cases done
  exact .of_same rfl rfl

theorem updates_memorize (memorized : c.memorize = .ok c') : c.Updates c' := by
  obtain ⟨p, _, memorized⟩ := bind_eq_ok memorized
  obtain ⟨found, _, memorized⟩ := bind_eq_ok memorized
  cases found with
  | some i =>
      obtain ⟨entry, _, memorized⟩ := bind_eq_ok memorized
      obtain ⟨ah, _, done⟩ := bind_eq_ok memorized
      cases done
      exact .of_same rfl rfl
  | none =>
      obtain ⟨ah, _, done⟩ := bind_eq_ok memorized
      cases done
      exact .of_same rfl rfl

theorem updates_createBackwardAntPkt (created : c.createBackwardAntPkt = .ok c') :
    c.Updates c' := by
  obtain ⟨p, _, created⟩ := bind_eq_ok created
  obtain ⟨entry, _, released⟩ := bind_eq_ok created
  have released := updates_release released
  exact ⟨released.rate, released.agent⟩

theorem updates_backwardAntPkt (sentBack : c.backwardAntPkt = .ok c') : c.Updates c' := by
  obtain ⟨p, _, sentBack⟩ := bind_eq_ok sentBack
  obtain ⟨found, _, sentBack⟩ := bind_eq_ok sentBack
  cases found with
  | some i =>
      obtain ⟨entry, _, released⟩ := bind_eq_ok sentBack
      have released := updates_release released
      exact ⟨released.rate, released.agent⟩
  | none => cases sentBack

theorem updates_rtableUpdate (c : Call K) (dest next : NsAddr) :
    c.Updates (c.rtableUpdate dest next) := by
  refine ⟨rfl, rfl, rfl, rfl, fun other => ?_⟩
  change ∃ winners, Rtable.update _ _ _ _ other = _
  rw [Rtable.update_apply]
  split
  · exact ⟨[next], rfl⟩
  · exact ⟨[], by simp [Rtable.updateRows]⟩

theorem updates_updateFrom {ah : HdrAntPkt K} {next : NsAddr} {index count : ℕ}
    (updated : updateFrom ah next index count c = .ok c') : c.Updates c' := by
  induction count generalizing index c with
  | zero =>
      cases updated
      exact .of_same rfl rfl
  | succ count inductionHypothesis =>
      obtain ⟨entry, _, updated⟩ := bind_eq_ok updated
      exact (c.updates_rtableUpdate entry.nodeAddr next).trans (inductionHypothesis updated)

theorem updates_updateTable (updated : c.updateTable sim = .ok c') : c.Updates c' := by
  obtain ⟨p, _, updated⟩ := bind_eq_ok updated
  obtain ⟨i, _, updated⟩ := bind_eq_ok updated
  obtain ⟨entry, _, updated⟩ := bind_eq_ok updated
  -- `N` is assigned in between
  have counted : c.Updates { c.enter .updateTable with
      globals := { c.globals with n := sim.getNumNeighbors c.agent.addr } } :=
    ⟨rfl, .refl c.agent⟩
  exact counted.trans (updates_updateFrom updated)

theorem updates_stop (c : Call K) : c.Updates c.stop := ⟨rfl, .of_rtable rfl rfl rfl rfl⟩

variable [LinearOrder K]

theorem updates_forwardAntPkt (forwarded : c.forwardAntPkt sim = .ok c') : c.Updates c' := by
  obtain ⟨p, found, _⟩ := bind_eq_ok forwarded
  have held : c.held = some p := held_of_pkt (c := c.enter .forwardAntPkt) found
  obtain ⟨next, _, rfl⟩ := forwardAntPkt_cases held forwarded
  exact .of_same rfl rfl

/-- Receiving a packet, of whatever contents, does nothing to the rows but update them. -/
theorem updates_recv (received : c.recv sim = .ok c') : c.Updates c' := by
  obtain ⟨p, found, _⟩ := bind_eq_ok received
  cases recv_handling (held_of_pkt found) received with
  | ignored _ _ same | undirected _ _ same =>
      rw [same]
      exact .of_same rfl rfl
  | dropped _ done => exact updates_release done
  | turned _ _ _ done =>
      obtain ⟨middle, memorized, created⟩ := bind_eq_ok done
      exact (updates_memorize memorized).trans (updates_createBackwardAntPkt created)
  | forwarded _ _ _ done =>
      obtain ⟨middle, memorized, forwarded⟩ := bind_eq_ok done
      exact (updates_memorize memorized).trans (updates_forwardAntPkt forwarded)
  | home _ _ _ done =>
      obtain ⟨middle, updated, freed⟩ := bind_eq_ok done
      exact (updates_updateTable updated).trans (updates_release freed)
  | back _ _ _ done =>
      obtain ⟨middle, updated, sentBack⟩ := bind_eq_ok done
      exact (updates_updateTable updated).trans (updates_backwardAntPkt sentBack)

theorem updates_sendAntPkt (sent : c.sendAntPkt sim = .ok c') : c.Updates c' := by
  obtain ⟨dest, next, _, _, _, rfl⟩ := sendAntPkt_cases sent
  exact ⟨rfl, .of_rtable rfl rfl rfl rfl⟩

end Call

end Updates

/-! ### The life of one agent -/

section Lifetime

variable {K : Type} [Arithmetic K] [LinearOrder K]

/-- What an agent is asked to do. -/
inductive Command (K : Type) where
  | start
  | stop
  /-- The ant timer expires. -/
  | timer
  | recv (p : Packet K)
  deriving DecidableEq

/-- The agent of `addr` by itself.  The process-wide variables, the time and the
draws its calls find are arbitrary. -/
def lifetime (sim : Sim) (addr : NsAddr) : TransitionSystem (Antnet K) (Command K) where
  init agent := agent.addr = addr ∧ ∀ dest, agent.rtable dest = none
  step agent command agent' := ∃ c : Call K, c.agent = agent ∧
    match command with
    | .start => (c.start sim).agent = agent'
    | .stop => c.stop.agent = agent'
    | .timer => ∃ c', c.sendAntPkt sim = .ok c' ∧ c'.agent = agent'
    | .recv p => ∃ c', (c.store p).recv sim = .ok c' ∧ c'.agent = agent'

/-- How often an agent was started in a run. -/
def starts (trace : List (Antnet K × Command K)) : ℕ :=
  (trace.map Prod.snd).count .start

/-- After `count` starts, there is a row for every other node below `num_nodes_`,
and it lists the neighbours that many times over. -/
structure Antnet.Listed (sim : Sim) (node : NsAddr) (nodes : ℤ) (count : ℕ)
    (agent : Antnet K) : Prop where
  addr : agent.addr = node
  numNodes : agent.numNodes = nodes
  neighbors : ∀ dest : ℤ, (agent.rtable dest).map (List.map Pheromone.neighbor) =
    if 0 < count ∧ (0 ≤ dest ∧ dest < nodes) ∧ dest ≠ node then
      some (List.replicate count (sim.neighborList node)).flatten
    else none

variable {sim : Sim} {addr : NsAddr} {nodes : ℤ} {count : ℕ} {agent agent' : Antnet K}

omit [LinearOrder K] in
theorem Antnet.Listed.updated {rate : K} (listed : agent.Listed sim addr nodes count)
    (updated : agent.Updated rate agent') : agent'.Listed sim addr nodes count :=
  ⟨updated.addr.trans listed.addr, updated.numNodes.trans listed.numNodes,
    fun dest => (updated.neighbors dest).trans (listed.neighbors dest)⟩

/-- A start lists the neighbours once more. -/
theorem Antnet.Listed.start (listed : agent.Listed sim addr nodes count)
    (connected : sim.neighborList addr ≠ []) (started : (lifetime sim addr).step agent .start agent') :
    agent'.Listed sim addr nodes (count + 1) := by
  obtain ⟨c, rfl, rfl⟩ := started
  refine ⟨listed.addr, listed.numNodes, fun dest => ?_⟩
  have before := listed.neighbors dest
  change ((c.initializeRtable sim).agent.rtable dest).map _ = _
  rw [Call.initializeRtable_rtable, listed.addr, listed.numNodes]
  by_cases isDest : (0 ≤ dest ∧ dest < nodes) ∧ dest ≠ addr
  · rw [if_pos ⟨isDest.1, isDest.2, connected⟩, if_pos ⟨Nat.succ_pos count, isDest⟩]
    cases old : c.agent.rtable dest with
    | none =>
        have fresh : count = 0 := by
          by_contra more
          simp [old, Nat.pos_of_ne_zero more, isDest] at before
        simp [fresh]
    | some row =>
        rw [old] at before
        split at before
        · simp [Option.some.inj before, List.replicate_succ']
        · cases before
  · rw [if_neg fun added => isDest ⟨added.1, added.2.1⟩, if_neg fun added => isDest added.2,
      before, if_neg fun added => isDest added.2]

/-- The rows in a run. -/
theorem lifetime_listed (connected : sim.neighborList addr ≠ []) {first last : Antnet K}
    {trace : List (Antnet K × Command K)} (initial : (lifetime sim addr).init first)
    (run : (lifetime sim addr).Run first trace last) :
    last.Listed sim addr first.numNodes (starts trace) := by
  induction run with
  | refl => exact ⟨initial.1, rfl, fun dest => by simp [initial.2 dest, starts]⟩
  | @snoc middle last trace command _ stepped inductionHypothesis =>
      have listed := inductionHypothesis
      cases command with
      | start =>
          have more : starts (trace ++ [(middle, .start)]) = starts trace + 1 := by simp [starts]
          rw [more]
          exact listed.start connected stepped
      | stop =>
          obtain ⟨c, rfl, rfl⟩ := stepped
          simpa [starts] using listed.updated c.updates_stop.agent
      | timer =>
          obtain ⟨c, rfl, c', sent, rfl⟩ := stepped
          simpa [starts] using listed.updated (Call.updates_sendAntPkt sent).agent
      | recv p =>
          obtain ⟨c, rfl, c', received, rfl⟩ := stepped
          have updates := Call.updates_recv received
          simpa [starts] using listed.updated updates.agent

/-- Every agent can be started. -/
theorem exists_start (sim : Sim) (addr : NsAddr) (agent : Antnet K) :
    ∃ agent', (lifetime sim addr).step agent .start agent' :=
  ⟨_, ⟨agent, ⟨0, 0, 0⟩, 0, 0, [], [], 0, none, []⟩, rfl, rfl⟩

end Lifetime

variable {K : Type} [Field K] [LinearOrder K]

/-- Each row lists each neighbour exactly once, and its values add up to one. -/
def Antnet.RowsWhole (sim : Sim) (agent : Antnet K) : Prop :=
  ∀ dest row, agent.rtable dest = some row →
    (∀ next ∈ sim.neighborList agent.addr, (row.map Pheromone.neighbor).count next = 1) ∧
      Roulette.total Pheromone.phvalue row = 1

variable [IsStrictOrderedRing K] {sim : Sim} {addr : NsAddr} {nodes : ℤ} {count : ℕ}
  {agent agent' : Antnet K}

/-- The rows are whole after the first start only, unless there are none. -/
theorem Antnet.Listed.rowsWhole_iff (listed : agent.Listed sim addr nodes count)
    (connected : sim.neighborList addr ≠ []) (distinct : (sim.neighborList addr).Nodup)
    (started : (lifetime sim addr).step agent .start agent') :
    agent'.RowsWhole sim ↔ count = 0 ∨ ∀ dest : ℤ, 0 ≤ dest → dest < nodes → dest = addr := by
  have after := listed.start connected started
  constructor
  · intro whole
    by_contra again
    simp only [not_or, not_forall] at again
    obtain ⟨more, dest, nonneg, below, other⟩ := again
    have listing := after.neighbors dest
    rw [if_pos ⟨Nat.succ_pos count, ⟨nonneg, below⟩, other⟩] at listing
    obtain ⟨row, known, neighbors⟩ := Option.map_eq_some_iff.mp listing
    obtain ⟨next, isNeighbor⟩ := List.exists_mem_of_ne_nil _ connected
    have once := (whole dest row known).1 next (by rw [after.addr]; exact isNeighbor)
    rw [neighbors, List.count_flatten, List.map_replicate, List.sum_replicate,
      List.count_eq_one_of_mem distinct isNeighbor, Nat.nsmul_eq_mul, mul_one] at once
    omega
  · intro onlyStart dest row known
    have listing := after.neighbors dest
    rw [known] at listing
    split at listing
    · rename_i isDest
      have first : count = 0 := by
        rcases onlyStart with first | alone
        · exact first
        · exact absurd (alone dest isDest.2.1.1 isDest.2.1.2) isDest.2.2
      subst first
      have neighbors : row.map Pheromone.neighbor = sim.neighborList addr := by
        simpa using listing
      refine ⟨fun next isNeighbor => ?_, ?_⟩
      · rw [after.addr] at isNeighbor
        rw [neighbors, List.count_eq_one_of_mem distinct isNeighbor]
      · obtain ⟨c, rfl, rfl⟩ := started
        have empty := listed.neighbors dest
        simp only [lt_irrefl, false_and, if_false, Option.map_eq_none_iff] at empty
        change (c.initializeRtable sim).agent.rtable dest = some row at known
        rw [Call.initializeRtable_rtable, empty, listed.addr] at known
        split at known
        · cases known
          simpa using Rtable.total_freshRow connected
        · cases known
    · cases listing

/-- In every life of an agent, all its starts leave whole rows exactly when it is
started at most once, or has no destinations. -/
theorem rowsWhole_iff_started_once (connected : sim.neighborList addr ≠ [])
    (distinct : (sim.neighborList addr).Nodup) {first last : Antnet K}
    {trace : List (Antnet K × Command K)} (initial : (lifetime sim addr).init first)
    (run : (lifetime sim addr).Run first trace last) :
    (∀ agent agent', (agent, .start) ∈ trace → (lifetime sim addr).step agent .start agent' →
        agent'.RowsWhole sim) ↔
      starts trace ≤ 1 ∨ ∀ dest : ℤ, 0 ≤ dest → dest < first.numNodes → dest = addr := by
  induction run with
  | refl => simp [starts]
  | @snoc middle last trace command before stepped inductionHypothesis =>
      have earlier := inductionHypothesis
      have listed := lifetime_listed connected initial before
      by_cases isStart : command = .start
      · subst isStart
        have latest := listed.rowsWhole_iff connected distinct stepped
        have more : starts (trace ++ [(middle, .start)]) = starts trace + 1 := by simp [starts]
        rw [more]
        constructor
        · intro whole
          rcases latest.mp (whole middle last (by simp) stepped) with none | alone
          · apply Or.inl
            omega
          · apply Or.inr
            exact alone
        · intro once agent agent' occurred started
          rcases List.mem_append.mp occurred with inTrace | now
          · refine earlier.mpr ?_ agent agent' inTrace started
            exact once.imp_left fun atMost => by omega
          · cases List.mem_singleton.mp now
            exact (listed.rowsWhole_iff connected distinct started).mpr
              (once.imp_left fun atMost => by omega)
      · have same : starts (trace ++ [(middle, command)]) = starts trace := by
          simp [starts, isStart]
        rw [same, ← earlier]
        constructor
        · exact fun whole agent agent' occurred => whole agent agent' (List.mem_append_left _ occurred)
        · intro whole agent agent' occurred
          rcases List.mem_append.mp occurred with inTrace | now
          · exact whole agent agent' inTrace
          · cases List.mem_singleton.mp now
            exact absurd rfl isStart

/-- The first start of an end of a line of two nodes. -/
theorem rowsWhole_iff_started_once_line :
    let sim := Sim.line 2 16
    let agent : Antnet ℚ := ⟨0, fun _ => none, 0, 1 / 2, 2, false⟩
    ∃ agent', (lifetime sim 0).step agent .start agent' ∧ agent'.RowsWhole sim := by
  intro sim agent
  obtain ⟨agent', started⟩ := exists_start sim 0 agent
  refine ⟨agent', started, ?_⟩
  exact (rowsWhole_iff_started_once (by decide) (Sim.nodup_line 0) ⟨rfl, fun _ => rfl⟩
    (.single started)).mpr (.inl le_rfl) agent agent' (by simp) started

/-- Stopped and started again, that agent lists its neighbour twice. -/
theorem rows_doubled_by_restart :
    let sim := Sim.line 2 16
    ¬ ∀ (first last : Antnet ℚ) (trace : List (Antnet ℚ × Command ℚ)),
      (lifetime sim 0).init first → 0 < first.rFactor → first.rFactor < 1 →
      (lifetime sim 0).Run first trace last →
      ∀ agent agent', (agent, .start) ∈ trace → (lifetime sim 0).step agent .start agent' →
        agent'.RowsWhole sim := by
  intro sim whole
  let agent : Antnet ℚ := ⟨0, fun _ => none, 0, 1 / 2, 2, false⟩
  have initial : (lifetime sim 0).init agent := ⟨rfl, fun _ => rfl⟩
  obtain ⟨started, start⟩ := exists_start sim 0 agent
  have stop : (lifetime sim 0).step started .stop { started with timerPending := false } :=
    ⟨⟨started, ⟨0, 0, 0⟩, 0, 0, [], [], 0, none, []⟩, rfl, rfl⟩
  obtain ⟨again, restart⟩ := exists_start sim 0 { started with timerPending := false }
  have run := (TransitionSystem.Run.single start).snoc stop
  have listed := lifetime_listed (by decide) initial run
  have doubled := (listed.rowsWhole_iff (by decide) (Sim.nodup_line 0) restart).mp
    (whole _ _ _ initial (by norm_num [agent]) (by norm_num [agent]) (run.snoc restart) _ _
      (by simp) restart)
  rcases doubled with none | alone
  · simp [starts] at none
  · exact absurd (alone 1 (by decide) (by decide)) (by decide)

end AntAodv
