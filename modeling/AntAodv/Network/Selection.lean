import AntAodv.Network.Distribution
import Mathlib.Algebra.Order.Field.Rat

/-!
# The selection of next hops

An agent that was not started, that has no neighbours, or that knows fewer nodes than
the sender of an ant has no row for the destination, and control runs off the end of
`calc_next`.  When all calls of a run are made by agents that have what they need,
with rates in the unit interval and exact arithmetic, every one of them ends in a
return statement.
-/

namespace AntAodv

section Exact

variable {K : Type} [Field K] [LinearOrder K] {sim : Sim} {medium : Medium K} {net net' : Net K}
  {event : Event K}

/-! ### Rows that always yield a next hop -/

/-- A row for exactly the neighbours of its node, whose weights lie in the unit
interval and add up to at least one. -/
structure SoundRow (sim : Sim) (node : NsAddr) (row : PheromoneMatrix K) : Prop where
  neighbors : ∀ next, next ∈ row.map Pheromone.neighbor ↔ next ∈ sim.neighborList node
  unit : ∀ entry ∈ row, 0 ≤ entry.phvalue ∧ entry.phvalue ≤ 1
  enough : 1 ≤ Roulette.total Pheromone.phvalue row

variable [IsStrictOrderedRing K]

theorem soundRow_invariant (sim : Sim) :
    RowInvariant sim (SoundRow (K := K) sim) fun r => 0 ≤ r ∧ r ≤ 1 where
  neighbor sound next := (sound.neighbors next).mp
  enough sound := sound.enough
  update := by
    intro node row r next rate sound neighbor
    refine ⟨by simpa using sound.neighbors, ?_, ?_⟩
    · intro entry membership
      obtain ⟨old, inRow, _, phvalue⟩ := Rtable.mem_updateRow membership
      obtain ⟨nonneg, atMost⟩ := sound.unit old inRow
      rw [phvalue]
      exact Roulette.reinforce_mem_unit rate.1 rate.2 nonneg atMost _ _
    · have kept := Roulette.one_le_sum_reinforce rate.1 rate.2
        ((sound.neighbors next).mpr neighbor) sound.enough
      simpa [Rtable.updateRow_eq, Roulette.total, Function.comp_def] using kept

/-- Starting an agent, for the first time or again, leaves sound rows. -/
theorem SoundRow.start {c : Call K} {node dest : NsAddr} {row : PheromoneMatrix K}
    (own : c.agent.addr = node)
    (before : ∀ dest row, c.agent.rtable dest = some row → SoundRow sim node row)
    (known : (c.initializeRtable sim).agent.rtable dest = some row) : SoundRow sim node row := by
  rw [Call.initializeRtable_rtable, own] at known
  split at known
  · rename_i added
    have nonempty := added.2.2
    cases known
    cases old : c.agent.rtable dest with
    | none =>
        refine ⟨by simp, fun entry membership => ?_, by simp [Rtable.total_freshRow nonempty]⟩
        obtain ⟨positive, atMost⟩ := Rtable.phvalue_freshRow (by simpa using membership)
        exact ⟨positive.le, atMost⟩
    | some row =>
        have sound := before dest row old
        refine ⟨?_, ?_, ?_⟩
        · intro next
          simp only [Option.getD_some, List.map_append, List.mem_append,
            Rtable.map_neighbor_freshRow, sound.neighbors next, or_self]
        · intro entry membership
          rcases List.mem_append.mp membership with earlier | fresh
          · exact sound.unit entry earlier
          · obtain ⟨positive, atMost⟩ := Rtable.phvalue_freshRow fresh
            exact ⟨positive.le, atMost⟩
        · have enough := sound.enough
          simp only [Option.getD_some, Roulette.total_append, Rtable.total_freshRow nonempty]
          linarith
  · exact before dest row known

/-- What holds while every call of `calc_next` finds a row. -/
structure Net.Sound (sim : Sim) (params : NsAddr → Params K) (net : Net K) : Prop where
  wellFormed : net.WellFormed sim
  configured : net.Configured params
  routed : net.Routed sim (SoundRow sim) fun r => 0 ≤ r ∧ r ≤ 1

end Exact

/-! ### Calls of `calc_next` -/

variable {K : Type} [Arithmetic K] [LinearOrder K] {sim : Sim} {medium : Medium K}
  {params : NsAddr → Params K} {net : Net K} {event : Event K} {trace : List (Net K × Event K)}

/-- A call of `calc_next` ends in a return statement, with the parent or a
neighbour in the agent's row, and some draws let its loop end. -/
def Net.NextHopDefined (sim : Sim) (net : Net K) (node dest parent : NsAddr)
    (result : NextHop) : Prop :=
  result ≠ .offEnd ∧
    (∀ next, result = .ret next → next = parent ∨
      ∃ row, (net.agent node).rtable dest = some row ∧ next ∈ row.map Pheromone.neighbor) ∧
    ∃ draws, Net.Uniform draws ∧ ∃ next,
      Rtable.calcNext sim net.globals.n (net.agent node).rtable node dest parent draws =
        .ret next

/-- The agents that call `calc_next` in the event are supplied for it. -/
def Net.CallsSupplied (sim : Sim) (params : NsAddr → Params K) (trace : List (Net K × Event K))
    (net : Net K) (event : Event K) : Prop :=
  ∀ node dest parent result, event.caller = some node →
    .calcNext dest parent result ∈ net.ops sim event → Supplied sim params trace node dest

/-- A run in which every call of `calc_next` is made by a supplied agent. -/
inductive Provided (sim : Sim) (params : NsAddr → Params K) : List (Net K × Event K) → Prop where
  | nil : Provided sim params []
  | snoc {trace : List (Net K × Event K)} {net : Net K} {event : Event K} :
      Provided sim params trace →
      net.CallsSupplied sim params trace event →
      Provided sim params (trace ++ [(net, event)])

theorem Provided.of_snoc (provided : Provided sim params (trace ++ [(net, event)])) :
    Provided sim params trace ∧ net.CallsSupplied sim params trace event := by
  generalize whole : trace ++ [(net, event)] = entries at provided
  cases provided with
  | nil => simp at whole
  | snoc before supplied =>
      obtain ⟨rfl, latest⟩ := List.append_inj' whole rfl
      cases latest
      exact ⟨before, supplied⟩

theorem Net.CallsSupplied.rowsKnown (supplied : net.CallsSupplied sim params trace event)
    (supplies : net.Supplies sim params trace) : net.RowsKnown sim event := by
  intro node dest parent result caller called
  exact Option.isSome_iff_exists.mp
    ((supplies.rows node dest).mpr (supplied node dest parent result caller called))

/-- With exact arithmetic and rates in the unit interval, the rows stay sound. -/
theorem Medium.Faithful.sound {K : Type} [Field K] [LinearOrder K] [IsStrictOrderedRing K]
    {medium : Medium K} {params : NsAddr → Params K} {net : Net K}
    {trace : List (Net K × Event K)} (faithful : medium.Faithful)
    (run : (network sim medium params).Run (Net.initial params) trace net)
    (rates : RatesUnit params trace) (provided : Provided sim params trace) :
    net.Sound sim params := by
  induction run with
  | refl =>
      refine ⟨.initial params, fun _ => ⟨rfl, rfl⟩, ⟨le_rfl, zero_le_one⟩, ?_, ?_, ?_⟩ <;>
        simp [Net.initial]
  | @snoc middle last trace event before step inductionHypothesis =>
      obtain ⟨earlier, supplied⟩ := provided.of_snoc
      obtain ⟨wellFormed, configured, routed⟩ := inductionHypothesis
        (fun node started => rates node ((started_append node).mpr (.inl started))) earlier
      have stepped := wellFormed.stepped step.1 (faithful.unchanged step.1) step.2
      have known := supplied.rowsKnown (supplies_of_run before)
      refine ⟨wellFormed.step stepped, configured.step stepped,
        routed.step (soundRow_invariant sim) wellFormed step.1 known stepped ?_⟩
      rintro addr rfl
      refine ⟨?_, fun dest row isRow =>
        SoundRow.start (wellFormed.addr addr) (routed.rows addr) isRow⟩
      rw [(configured addr).1]
      exact rates addr ((started_append addr).mpr (.inr rfl))

/-- In every run, a call of `calc_next` that is defined is made by a supplied agent.
Conversely, when no operation rounds, the rates of the agents started so far lie in the
unit interval and the agents of all calls so far were supplied, every call of a supplied
agent is defined. -/
theorem nextHopDefined_of_supplied (faithful : medium.Faithful)
    (run : (network sim medium params).Run (Net.initial params) trace net)
    (enabled : net.Enabled sim medium event) {node dest parent : NsAddr} {result : NextHop}
    (caller : event.caller = some node)
    (called : .calcNext dest parent result ∈ net.ops sim event) :
    (net.NextHopDefined sim node dest parent result → Supplied sim params trace node dest) ∧
      (Exact K → RatesUnit params trace → Provided sim params trace →
        Supplied sim params trace node dest → net.NextHopDefined sim node dest parent result) := by
  have supplies := supplies_of_run run
  have wellFormed : net.WellFormed sim := faithful.wellFormed ⟨_, trace, rfl, run⟩
  have value := (wellFormed.calcNext_eq (faithful.unchanged enabled) caller called).1
  constructor
  · intro defined
    by_contra missing
    rw [← supplies.rows, Bool.not_eq_true, Option.isSome_eq_false_iff, Option.isNone_iff_eq_none]
      at missing
    exact defined.1 (value.trans (Rtable.calcNext_none missing))
  · rintro ⟨field, ordered, rfl⟩ rates provided supplied
    obtain ⟨row, known⟩ := Option.isSome_iff_exists.mp ((supplies.rows node dest).mpr supplied)
    have sound := (faithful.sound run rates provided).routed.rows node dest row known
    refine ⟨?_, ?_, Rtable.exists_calcNext_ret known sound.enough sound.unit⟩
    · rw [value]
      exact Rtable.calcNext_ne_offEnd_of_total known sound.enough enabled.uniform
    · intro next isNext
      rcases Rtable.calcNext_ret known (value.symm.trans isNext) with same | inRow
      · apply Or.inl
        exact same
      · apply Or.inr
        exact ⟨row, known, inRow⟩

/-- In an orderly run all calls are made by supplied agents. -/
theorem Orderly.provided {count : ℤ} (orderly : Orderly trace) (faithful : medium.Faithful)
    (same : ∀ node, (params node).numNodes = count)
    (connected : ∀ node ∈ sim.nodes, sim.neighborList node ≠ [])
    (positive : ∀ node ∈ sim.nodes, 0 < count)
    (run : (network sim medium params).Run (Net.initial params) trace net) :
    Provided sim params trace := by
  induction run with
  | refl => exact .nil
  | @snoc middle last trace event before step inductionHypothesis =>
      obtain ⟨earlier, _, first⟩ := orderly.of_snoc
      have wellFormed : middle.WellFormed sim := faithful.wellFormed ⟨_, trace, rfl, before⟩
      have prepared := earlier.prepared faithful same connected positive before
      refine .snoc (inductionHypothesis earlier) fun node dest parent result caller called => ?_
      rw [← (supplies_of_run before).rows, Option.isSome_iff_exists]
      exact prepared.rowsKnown wellFormed step.1 (faithful.unchanged step.1) positive first
        node dest parent result caller called

/-- The second hop of an ant along a line of three nodes. -/
theorem nextHopDefined_of_supplied_line :
    let sim := Sim.line 3 maxNumNodes
    let params : NsAddr → Params ℚ := fun _ => ⟨1 / 2, 3⟩
    ∃ trace net event, (network sim (.perfect ℚ) params).Run (Net.initial params) trace net ∧
      net.Enabled sim (.perfect ℚ) event ∧ event.caller = some 1 ∧
      .calcNext 2 0 (.ret 2) ∈ net.ops sim event ∧ net.NextHopDefined sim 1 2 0 (.ret 2) := by
  intro sim params
  have observed : ((Net.initial params).follow sim (.perfect ℚ)
      [fun _ => some (.start 0), fun _ => some (.start 1), fun _ => some (.start 2),
        fun _ => some (.timer 0 [2] [0] 0)]).map (fun outcome =>
      (decide (Orderly outcome.1), ((outcome.2.agent 1).rtable 2).isSome,
        (deliverAs 0 id [1 / 2] 0 outcome.2).map fun event =>
          decide (outcome.2.Enabled sim (.perfect ℚ) event ∧ event.caller = some 1 ∧
            .calcNext 2 0 (.ret 2) ∈ outcome.2.ops sim event))) = some (true, true, some true) := by
    decide +kernel
  obtain ⟨trace, net, run, facts⟩ := Net.exists_run_of_follow params observed
  simp only [Prod.mk.injEq, decide_eq_true_eq] at facts
  obtain ⟨orderly, row, delivery⟩ := facts
  obtain ⟨event, _, facts⟩ := Option.map_eq_some_iff.mp delivery
  obtain ⟨enabled, caller, called⟩ := of_decide_eq_true facts
  have positive : ∀ node ∈ sim.nodes, (0 : ℤ) < 3 := fun _ _ => by decide
  have provided := orderly.provided (Medium.perfect_faithful ℚ) (fun _ => rfl)
    (fun node _ => Sim.line_connected (by decide) node) positive run
  refine ⟨trace, net, event, run, enabled, caller, called, ?_⟩
  exact (nextHopDefined_of_supplied (Medium.perfect_faithful ℚ) run enabled caller called).2
    exact_of_field (fun _ _ => by norm_num [params]) provided (((supplies_of_run run).rows 1 2).mp row)

/-- An isolated node has no rows: its first ant runs off the end of `calc_next`. -/
theorem nextHop_undefined_isolated :
    let sim := Sim.idle {0, 1} (fun _ => []) 16
    let params : NsAddr → Params ℚ := fun _ => ⟨1 / 2, 2⟩
    ¬ ∀ net event node dest parent result,
      (network sim (.perfect ℚ) params).Reachable net → net.Enabled sim (.perfect ℚ) event →
      event.caller = some node → .calcNext dest parent result ∈ net.ops sim event →
      net.NextHopDefined sim node dest parent result := by
  intro sim params defined
  have observed : ((Net.initial params).follow sim (.perfect ℚ)
      [fun _ => some (.start 0)]).map (fun outcome =>
        (decide (outcome.2.Enabled sim (.perfect ℚ) (.timer 0 [1] [0] 0)),
          decide (.calcNext 1 0 .offEnd ∈ outcome.2.ops sim (.timer 0 [1] [0] 0)))) =
        some (true, true) := by
    decide +kernel
  obtain ⟨trace, net, run, facts⟩ := Net.exists_run_of_follow params observed
  simp only [Prod.mk.injEq, decide_eq_true_eq] at facts
  exact (defined net (.timer 0 [1] [0] 0) 0 1 0 .offEnd ⟨_, trace, rfl, run⟩ facts.1 rfl
    facts.2).1 rfl

/-! ### Rounding -/

/-- Numbers with one decimal, which operations round down. -/
structure Tenths where
  tenths : ℤ
  deriving DecidableEq

instance : LinearOrder Tenths :=
  LinearOrder.lift' Tenths.tenths fun first second same => by
    cases first
    cases second
    exact congrArg Tenths.mk same

instance : Arithmetic Tenths where
  zero := ⟨0⟩
  one := ⟨10⟩
  add first second := ⟨first.tenths + second.tenths⟩
  sub first second := ⟨first.tenths - second.tenths⟩
  mul first second := ⟨first.tenths * second.tenths / 10⟩
  div first second := ⟨first.tenths * 10 / second.tenths⟩
  natCast n := ⟨10 * n⟩
  intCast n := ⟨10 * n⟩

/-- Rounding leaves room behind a row: the thirds of a node with three neighbours add up to
less than a draw, and a supplied agent runs off the end of `calc_next`. -/
theorem nextHop_undefined_rounded :
    let sim := Sim.idle {0, 1, 2, 3} (fun node => if node = 0 then [1, 2, 3] else [0]) maxNumNodes
    let params : NsAddr → Params Tenths := fun _ => ⟨⟨5⟩, 4⟩
    ∃ trace net event,
      (network sim (.perfect Tenths) params).Run (Net.initial params) trace net ∧
        net.Enabled sim (.perfect Tenths) event ∧ RatesUnit params trace ∧
        Provided sim params trace ∧ Supplied sim params trace 0 2 ∧
        event.caller = some 0 ∧ .calcNext 2 1 .offEnd ∈ net.ops sim event := by
  intro sim params
  have observed : ((Net.initial params).follow sim (.perfect Tenths)
      [fun _ => some (.start 0), fun _ => some (.start 1), fun _ => some (.start 2),
        fun _ => some (.start 3), fun _ => some (.timer 1 [2] [⟨0⟩] 0)]).map (fun outcome =>
      (decide (Orderly outcome.1), ((outcome.2.agent 0).rtable 2).isSome,
        (deliverAs 0 id [⟨9⟩] 0 outcome.2).map fun event =>
          decide (outcome.2.Enabled sim (.perfect Tenths) event ∧ event.caller = some 0 ∧
            .calcNext 2 1 .offEnd ∈ outcome.2.ops sim event))) = some (true, true, some true) := by
    decide +kernel
  obtain ⟨trace, net, run, facts⟩ := Net.exists_run_of_follow params observed
  simp only [Prod.mk.injEq, decide_eq_true_eq] at facts
  obtain ⟨orderly, row, delivery⟩ := facts
  obtain ⟨event, _, facts⟩ := Option.map_eq_some_iff.mp delivery
  obtain ⟨enabled, caller, called⟩ := of_decide_eq_true facts
  have connected : ∀ node ∈ sim.nodes, sim.neighborList node ≠ [] := by decide
  have provided := orderly.provided (Medium.perfect_faithful Tenths) (fun _ => rfl) connected
    (fun _ _ => by decide : ∀ node ∈ sim.nodes, (0 : ℤ) < 4) run
  exact ⟨trace, net, event, run, enabled, fun _ _ => by decide, provided,
    ((supplies_of_run run).rows 0 2).mp row, caller, called⟩

end AntAodv
