import AntAodv.Agent.Restart
import AntAodv.Network.Pheromone
import Mathlib.Algebra.Order.Field.Rat

/-!
# Rows stay probability distributions

When all agents have the same parameters and each is started once, before any ant
reaches it, every row lists each neighbour once with a positive weight, and the
weights add up to one.
-/

namespace AntAodv

section Orderly

variable {K : Type} [Arithmetic K] [LinearOrder K]

/-- A run that starts each agent at most once, and before any ant reaches it. -/
inductive Orderly : List (Net K × Event K) → Prop where
  | nil : Orderly []
  | snoc {trace : List (Net K × Event K)} {net : Net K} {event : Event K} :
      Orderly trace →
      (∀ node, event = .start node → ¬ Started trace node) →
      (∀ p, event.delivered = some p → Started trace p.ip.daddr) →
      Orderly (trace ++ [(net, event)])

omit [Arithmetic K] [LinearOrder K] in
theorem Orderly.of_snoc {trace : List (Net K × Event K)} {net : Net K} {event : Event K}
    (orderly : Orderly (trace ++ [(net, event)])) :
    Orderly trace ∧ (∀ node, event = .start node → ¬ Started trace node) ∧
      ∀ p, event.delivered = some p → Started trace p.ip.daddr := by
  generalize whole : trace ++ [(net, event)] = entries at orderly
  cases orderly with
  | nil => simp at whole
  | snoc before once first =>
      obtain ⟨rfl, latest⟩ := List.append_inj' whole rfl
      cases latest
      exact ⟨before, once, first⟩

omit [Arithmetic K] [LinearOrder K] in
theorem orderly_append_iff {trace : List (Net K × Event K)} {net : Net K} {event : Event K} :
    Orderly (trace ++ [(net, event)]) ↔ Orderly trace ∧
      (∀ node, event = .start node → ¬ Started trace node) ∧
        ∀ p, event.delivered = some p → Started trace p.ip.daddr :=
  ⟨Orderly.of_snoc, fun ⟨before, once, first⟩ => .snoc before once first⟩

/-- The agent an event starts. -/
def Event.started : Event K → Option NsAddr
  | .start addr => some addr
  | _ => none

/-- Whether the events of a run are in order, the latest first. -/
def orderlyEvents : List (Event K) → Bool
  | [] => true
  | event :: earlier =>
      orderlyEvents earlier &&
        event.started.all (fun node => some node ∉ earlier.map Event.started) &&
        event.delivered.all fun p => some p.ip.daddr ∈ earlier.map Event.started

omit [Arithmetic K] [LinearOrder K] in
theorem mem_started_iff {trace : List (Net K × Event K)} {node : NsAddr} :
    some node ∈ (trace.map Prod.snd).reverse.map Event.started ↔ Started trace node := by
  rw [List.map_reverse, List.mem_reverse, List.map_map, List.mem_map]
  constructor
  · rintro ⟨⟨net, event⟩, occurred, starts⟩
    cases event <;> cases starts
    exact ⟨net, occurred⟩
  · rintro ⟨net, occurred⟩
    exact ⟨_, occurred, rfl⟩

instance (trace : List (Net K × Event K)) (node : NsAddr) : Decidable (Started trace node) :=
  decidable_of_iff _ mem_started_iff

omit [Arithmetic K] [LinearOrder K] in
theorem Event.started_eq_some_iff {event : Event K} {node : NsAddr} :
    event.started = some node ↔ event = .start node := by
  cases event <;> simp [started]

omit [Arithmetic K] [LinearOrder K] in
theorem orderlyEvents_iff (trace : List (Net K × Event K)) :
    orderlyEvents (trace.map Prod.snd).reverse = true ↔ Orderly trace := by
  induction trace using List.reverseRecOn with
  | nil => exact iff_of_true rfl .nil
  | append_singleton trace entry inductionHypothesis =>
      obtain ⟨net, event⟩ := entry
      rw [List.map_append, List.reverse_append, List.map_singleton, List.reverse_singleton,
        List.singleton_append, orderlyEvents, orderly_append_iff, ← inductionHypothesis]
      simp only [Bool.and_eq_true, Option.all_eq_true, decide_eq_true_eq, mem_started_iff,
        Event.started_eq_some_iff, and_assoc]

instance (trace : List (Net K × Event K)) : Decidable (Orderly trace) :=
  decidable_of_iff _ (orderlyEvents_iff trace)

/-- What an orderly run with `count` nodes says about its last state. -/
structure Prepared (sim : Sim) (count : ℤ) (trace : List (Net K × Event K)) (net : Net K) :
    Prop where
  unstarted : ∀ node, ¬ Started trace node →
    (∀ dest, (net.agent node).rtable dest = none) ∧ (net.agent node).timerPending = false
  started : ∀ node, Started trace node → net.globals.numNodes = count ∧
    ∀ dest, 0 ≤ dest → dest < count → dest ≠ node → ∃ row, (net.agent node).rtable dest = some row
  destinations : ∀ p ∈ net.flight, ForwardAnt sim p → 0 ≤ p.ant.pktDst ∧ p.ant.pktDst < count

variable {sim : Sim} {medium : Medium K} {net net' : Net K} {event : Event K}
  {trace : List (Net K × Event K)} {count : ℤ}

omit [Arithmetic K] [LinearOrder K] in
/-- Only a start sets the timer of an agent going. -/
theorem Prepared.started_of_pending (prepared : Prepared sim count trace net) {node : NsAddr}
    (pending : (net.agent node).timerPending = true) : Started trace node := by
  by_contra unstarted
  have idle := (prepared.unstarted node unstarted).2
  exact absurd (idle.symm.trans pending) (by simp)

/-- In an orderly run every call of `calc_next` finds a row. -/
theorem Prepared.rowsKnown (prepared : Prepared sim count trace net)
    (wellFormed : net.WellFormed sim) (enabled : net.Enabled sim medium event)
    (unchanged : net.Unchanged event) (positive : ∀ node ∈ sim.nodes, 0 < count)
    (first : ∀ p, event.delivered = some p → Started trace p.ip.daddr) :
    net.RowsKnown sim event := by
  intro node dest parent result caller called
  have asks := (wellFormed.calcNext_eq unchanged caller called).2
  cases event with
  | tick | start | stop | lose => cases caller
  | timer addr raws draws junk =>
      cases caller
      obtain ⟨numNodes, rows⟩ := prepared.started node (prepared.started_of_pending enabled.2.1)
      rw [Net.Asks, numNodes] at asks
      obtain ⟨nonneg, below⟩ := Call.calcDestination_range (positive node enabled.1) asks
      exact rows dest nonneg below (Call.calcDestination_ne asks)
  | deliver index p draws junk =>
      cases caller
      obtain ⟨ant, underway, rfl⟩ := asks
      obtain ⟨ttl, inFlight⟩ := unchanged.inFlight rfl
      obtain ⟨nonneg, below⟩ := prepared.destinations _ inFlight (ant.withTtl ttl)
      exact (prepared.started _ (first _ rfl)).2 _ nonneg below underway.symm

/-- A destination of an ant in flight was drawn, or is that of an ant before. -/
theorem Net.Source.pktDst {p : Packet K} (source : net.Source sim p event)
    (forward : ForwardAnt sim p) :
    (∃ sent ∈ net.flight, ForwardAnt sim sent ∧ p.ant.pktDst = sent.ant.pktDst) ∨
      ∃ node raws draws junk, event = .timer node raws draws junk ∧
        Rtable.calcDestination sim net.globals.numNodes node raws = some p.ant.pktDst := by
  cases source with
  | kept earlier => exact .inl ⟨p, earlier, forward, rfl⟩
  | emitted _ _ new chosen =>
      subst new
      apply Or.inr
      exact ⟨_, _, _, _, rfl, chosen⟩
  | @passed _ sent _ _ _ _ delivered _ _ received handedOn =>
      apply Or.inl
      refine ⟨sent, List.mem_of_getElem? delivered,
        (received.outward rfl handedOn forward).1.withTtl sent.ip.ttl, ?_⟩
      cases received with
      | turned => cases List.mem_singleton.mp handedOn; cases forward.direction
      | ended => cases handedOn
      | forwarded _ _ memorized =>
          cases List.mem_singleton.mp handedOn
          rw [forwardedAnt, memorized.header]
          rfl
      | home =>
          rw [handed_append, handed_tableUpdated] at handedOn
          cases handedOn
      | returned =>
          rw [handed_append, handed_tableUpdated] at handedOn
          cases List.mem_singleton.mp handedOn
          cases forward.direction

/-- Only a start adds rows, sets a timer going or changes the number of nodes. -/
theorem Net.Stepped.unstarted (stepped : net.Stepped sim event net')
    (other : ∀ addr, event ≠ .start addr) :
    net'.globals.numNodes = net.globals.numNodes ∧ ∀ node,
      (∀ dest, ((net'.agent node).rtable dest).isSome = ((net.agent node).rtable dest).isSome) ∧
        ((net.agent node).timerPending = false → (net'.agent node).timerPending = false) := by
  have finished := fun {after : Net K} {addr : NsAddr} {c : Call K} =>
    @Net.forall_finish K after (fun node agent =>
      (∀ dest, (agent.rtable dest).isSome = ((net.agent node).rtable dest).isSome) ∧
        ((net.agent node).timerPending = false → agent.timerPending = false)) addr c
  have kept : ∀ node, (∀ dest, ((net.agent node).rtable dest).isSome =
        ((net.agent node).rtable dest).isSome) ∧
      ((net.agent node).timerPending = false → (net.agent node).timerPending = false) :=
    fun _ => ⟨fun _ => rfl, id⟩
  cases stepped with
  | tick | lose => exact ⟨rfl, kept⟩
  | start addr => exact absurd rfl (other addr)
  | stop addr => exact ⟨rfl, finished kept ⟨fun _ => rfl, fun _ => rfl⟩⟩
  | @timer addr _ _ _ _ _ _ emitted => cases emitted <;> exact ⟨rfl, finished kept (kept addr)⟩
  | @deliver index sent _ _ _ _ _ _ _ received =>
      cases received with
      | turned | ended | forwarded => exact ⟨rfl, finished kept (kept sent.ip.daddr)⟩
      | home | returned =>
          exact ⟨rfl, finished kept ⟨Rtable.isSome_foldl_update _ _ _ _, id⟩⟩

omit [LinearOrder K] in
theorem Prepared.initial (params : NsAddr → Params K) :
    Prepared sim count [] (Net.initial params) where
  unstarted _ _ := ⟨fun _ => rfl, rfl⟩
  started := by
    rintro node ⟨_, occurred⟩
    cases occurred
  destinations := by simp [Net.initial]

theorem Prepared.step_destinations (prepared : Prepared sim count trace net)
    (wellFormed : net.WellFormed sim) (positive : ∀ node ∈ sim.nodes, 0 < count)
    (enabled : net.Enabled sim medium event) (stepped : net.Stepped sim event net')
    {p : Packet K} (inFlight : p ∈ net'.flight) (forward : ForwardAnt sim p) :
    0 ≤ p.ant.pktDst ∧ p.ant.pktDst < count := by
  rcases (stepped.source wellFormed inFlight).pktDst forward with
    ⟨sent, earlier, ant, same⟩ | ⟨node, raws, draws, junk, rfl, chosen⟩
  · rw [same]
    exact prepared.destinations sent earlier ant
  · rw [(prepared.started node (prepared.started_of_pending enabled.2.1)).1] at chosen
    exact Call.calcDestination_range (positive node enabled.1) chosen

omit [LinearOrder K] in
/-- A start adds the rows of its agent and sets the common number of nodes. -/
theorem Prepared.step_start {addr : NsAddr} (prepared : Prepared sim count trace net)
    (own : (net.agent addr).addr = addr) (numNodes : (net.agent addr).numNodes = count)
    (connected : sim.neighborList addr ≠ []) :
    Prepared sim count (trace ++ [(net, .start addr)])
      (net.finish addr ((net.call addr none [] [] 0).start sim)) where
  unstarted node unstarted := by
    rw [started_append, not_or] at unstarted
    have different : node ≠ addr := fun same => unstarted.2 (by rw [same])
    simpa [Net.finish, different] using prepared.unstarted node unstarted.1
  started node started := by
    refine ⟨numNodes, fun dest nonneg below other => ?_⟩
    by_cases same : node = addr
    · subst same
      have added := (net.call node none [] [] 0).initializeRtable_rtable sim dest
      rw [show (net.call node none [] [] 0).agent = net.agent node from rfl, own, numNodes,
        if_pos ⟨⟨nonneg, below⟩, other, connected⟩] at added
      simp only [Net.finish, Function.update_self]
      exact ⟨_, added⟩
    · have earlier : Started trace node := by
        rcases (started_append node).mp started with earlier | now
        · exact earlier
        · cases now
          exact absurd rfl same
      simpa [Net.finish, same] using (prepared.started node earlier).2 dest nonneg below other
  destinations p inFlight := by
    refine prepared.destinations p ((List.mem_append.mp inFlight).resolve_right ?_)
    rintro ⟨⟩

theorem Prepared.step (prepared : Prepared sim count trace net) (wellFormed : net.WellFormed sim)
    (numNodes : ∀ node, (net.agent node).numNodes = count)
    (connected : ∀ node ∈ sim.nodes, sim.neighborList node ≠ [])
    (positive : ∀ node ∈ sim.nodes, 0 < count) (enabled : net.Enabled sim medium event)
    (stepped : net.Stepped sim event net') :
    Prepared sim count (trace ++ [(net, event)]) net' := by
  by_cases start : ∃ addr, event = .start addr
  · obtain ⟨addr, rfl⟩ := start
    cases stepped with
    | start =>
        exact prepared.step_start (wellFormed.addr addr) (numNodes addr) (connected addr enabled)
  · rw [not_exists] at start
    obtain ⟨sameNodes, agents⟩ := stepped.unstarted start
    refine ⟨?_, ?_, fun p inFlight forward =>
      prepared.step_destinations wellFormed positive enabled stepped inFlight forward⟩
    · intro node unstarted
      rw [started_append, not_or] at unstarted
      obtain ⟨rows, idle⟩ := prepared.unstarted node unstarted.1
      refine ⟨fun dest => ?_, (agents node).2 idle⟩
      rw [← Option.not_isSome_iff_eq_none, (agents node).1 dest, rows dest]
      simp
    · intro node started
      obtain ⟨counted, rows⟩ := prepared.started node
        (((started_append node).mp started).resolve_right (start node))
      refine ⟨sameNodes.trans counted, fun dest nonneg below other => ?_⟩
      rw [← Option.isSome_iff_exists, (agents node).1 dest, Option.isSome_iff_exists]
      exact rows dest nonneg below other

/-- Only the number of nodes is to be the same everywhere. -/
theorem Orderly.prepared {params : NsAddr → Params K} (faithful : medium.Faithful)
    (same : ∀ node, (params node).numNodes = count)
    (connected : ∀ node ∈ sim.nodes, sim.neighborList node ≠ [])
    (positive : ∀ node ∈ sim.nodes, 0 < count)
    (run : (network sim medium params).Run (Net.initial params) trace net)
    (orderly : Orderly trace) : Prepared sim count trace net := by
  induction run with
  | refl => exact .initial params
  | @snoc middle last trace event before step inductionHypothesis =>
      have supplies := supplies_of_run before
      have wellFormed : middle.WellFormed sim := faithful.wellFormed ⟨_, trace, rfl, before⟩
      exact (inductionHypothesis orderly.of_snoc.1).step wellFormed
        (fun node => (supplies.configured node).2.trans (same node)) connected positive step.1
        (wellFormed.stepped step.1 (faithful.unchanged step.1) step.2)

end Orderly

/-! ### Distributions -/

variable {K : Type} [Field K] [LinearOrder K] {sim : Sim} {medium : Medium K} {net net' : Net K}
  {event : Event K} {trace : List (Net K × Event K)} {count : ℤ}

/-- A row that lists each neighbour of its node as often as the node has it, with
positive weights that add up to one. -/
structure DistributionRow (sim : Sim) (node : NsAddr) (row : PheromoneMatrix K) : Prop where
  neighbors : (row.map Pheromone.neighbor).Perm (sim.neighborList node)
  positive : ∀ entry ∈ row, 0 < entry.phvalue
  total : Roulette.total Pheromone.phvalue row = 1

variable [IsStrictOrderedRing K]

/-- Updates towards a neighbour keep a distribution, when the neighbours of the
node differ. -/
theorem distributionRow_invariant (sim : Sim) (distinct : ∀ node, (sim.neighborList node).Nodup) :
    RowInvariant sim (DistributionRow (K := K) sim) fun r => 0 ≤ r ∧ r < 1 where
  neighbor row next inRow := row.neighbors.mem_iff.mp inRow
  enough row := row.total.ge
  update := by
    intro node row r next rate good neighbor
    refine ⟨by simpa using good.neighbors, ?_, ?_⟩
    · intro entry membership
      obtain ⟨old, inRow, _, phvalue⟩ := Rtable.mem_updateRow membership
      rw [phvalue]
      exact Roulette.reinforce_pos rate.1 rate.2 (good.positive old inRow) _ _
    · have once : (row.map Pheromone.neighbor).count next = 1 := by
        rw [good.neighbors.count_eq]
        exact List.count_eq_one_of_mem (distinct node) neighbor
      rw [Rtable.total_updateRow, good.total, once]
      ring

/-- A first start leaves distributions. -/
theorem DistributionRow.start {c : Call K} {node dest : NsAddr} {row : PheromoneMatrix K}
    (own : c.agent.addr = node) (empty : ∀ dest, c.agent.rtable dest = none)
    (known : (c.initializeRtable sim).agent.rtable dest = some row) :
    DistributionRow sim node row := by
  rw [Call.initializeRtable_rtable, own, empty dest] at known
  split at known
  · rename_i added
    cases known
    refine ⟨by simp, fun entry membership => ?_, by simp [Rtable.total_freshRow added.2.2]⟩
    exact (Rtable.phvalue_freshRow (by simpa using membership)).1
  · cases known

/-- What holds at the end of an orderly run. -/
structure Net.Distributed (sim : Sim) (params : NsAddr → Params K) (count : ℤ)
    (trace : List (Net K × Event K)) (net : Net K) : Prop where
  wellFormed : net.WellFormed sim
  configured : net.Configured params
  prepared : Prepared sim count trace net
  routed : net.Routed sim (DistributionRow sim) fun r => 0 ≤ r ∧ r < 1

theorem Orderly.distributed {params : NsAddr → Params K} (faithful : medium.Faithful)
    (same : ∀ node, 0 ≤ (params node).rFactor ∧ (params node).rFactor < 1 ∧
      (params node).numNodes = count)
    (distinct : ∀ node, (sim.neighborList node).Nodup)
    (connected : ∀ node ∈ sim.nodes, sim.neighborList node ≠ [])
    (positive : ∀ node ∈ sim.nodes, 0 < count)
    (run : (network sim medium params).Run (Net.initial params) trace net)
    (orderly : Orderly trace) : net.Distributed sim params count trace := by
  have prepared := fun {net : Net K} {trace : List (Net K × Event K)} =>
    @Orderly.prepared K _ _ sim medium net trace count params faithful
      (fun node => (same node).2.2) connected positive
  induction run with
  | refl =>
      refine ⟨.initial params, fun _ => ⟨rfl, rfl⟩, .initial params,
        ⟨⟨le_rfl, zero_lt_one⟩, ?_, ?_, ?_⟩⟩ <;> simp [Net.initial]
  | @snoc middle last trace event early step inductionHypothesis =>
      obtain ⟨before, once, first⟩ := orderly.of_snoc
      obtain ⟨wellFormed, configured, ready, routed⟩ := inductionHypothesis before
      have unchanged := faithful.unchanged step.1
      have stepped := wellFormed.stepped step.1 unchanged step.2
      refine ⟨wellFormed.step stepped, configured.step stepped,
        prepared (early.snoc step) orderly,
        routed.step (distributionRow_invariant sim distinct) wellFormed step.1
          (ready.rowsKnown wellFormed step.1 unchanged positive first) stepped ?_⟩
      rintro addr rfl
      refine ⟨?_, fun dest row known => .start (wellFormed.addr addr)
        (ready.unstarted addr (once addr rfl)).1 known⟩
      rw [(configured addr).1]
      exact ⟨(same addr).1, (same addr).2.1⟩

/-- In every orderly run all rows stay distributions over the neighbours, and every
update of a row finds the rewarded neighbour in it exactly once. -/
theorem rows_stay_distributions {params : NsAddr → Params K} (faithful : medium.Faithful)
    {r : K} (rate : 0 < r ∧ r < 1) {count : ℕ}
    (addresses : ∀ node, node ∈ sim.nodes ↔ 0 ≤ node ∧ node < count)
    (same : ∀ node, params node = ⟨r, count⟩)
    (distinct : ∀ node, (sim.neighborList node).Nodup)
    (connected : ∀ node ∈ sim.nodes, sim.neighborList node ≠ [])
    (run : (network sim medium params).Run (Net.initial params) trace net)
    (orderly : Orderly trace) :
    (∀ node dest row, (net.agent node).rtable dest = some row → DistributionRow sim node row) ∧
      ∀ event node dest next row, net.Enabled sim medium event → event.caller = some node →
        .update dest next ∈ net.ops sim event → (net.agent node).rtable dest = some row →
        (row.map Pheromone.neighbor).count next = 1 := by
  have created : ∀ node, 0 ≤ (params node).rFactor ∧ (params node).rFactor < 1 ∧
      (params node).numNodes = count := fun node => by
    rw [same node]
    exact ⟨rate.1.le, rate.2, rfl⟩
  have distributed := orderly.distributed faithful created distinct connected
    (fun node isNode => by exact ((addresses node).mp isNode).1.trans_lt ((addresses node).mp isNode).2) run
  refine ⟨distributed.routed.rows, ?_⟩
  intro event node dest next row enabled caller called known
  have good := distributed.routed.rows node dest row known
  have neighbor := distributed.routed.neighbor_of_update distributed.wellFormed
    (faithful.unchanged enabled) caller called
  rw [good.neighbors.count_eq]
  exact List.count_eq_one_of_mem (distinct node) neighbor

/-- The middle of a line of three nodes sends an ant to its left, which comes back. -/
def thereAndBack : List (Net ℚ → Option (Event ℚ)) :=
  [fun _ => some (.start 0), fun _ => some (.start 1), fun _ => some (.start 2),
    fun _ => some (.timer 1 [0] [0] 0), deliverAs 0 id [] 0, deliverAs 0 id [] 0]

/-- The row that the ant has updated. -/
theorem rows_stay_distributions_line :
    let sim := Sim.line 3 maxNumNodes
    let params : NsAddr → Params ℚ := fun _ => ⟨1 / 2, 3⟩
    ∃ trace net, (Net.initial params).follow sim (.perfect ℚ) thereAndBack = some (trace, net) ∧
      (net.agent 1).rtable 0 = some [⟨0, 3 / 4⟩, ⟨2, 1 / 4⟩] ∧
        DistributionRow sim 1 ([⟨0, 3 / 4⟩, ⟨2, 1 / 4⟩] : PheromoneMatrix ℚ) := by
  intro sim params
  have observed : ((Net.initial params).follow sim (.perfect ℚ) thereAndBack).map (fun outcome =>
      (decide (Orderly outcome.1), (outcome.2.agent 1).rtable 0)) =
        some (true, some [⟨0, 3 / 4⟩, ⟨2, 1 / 4⟩]) := by
    decide +kernel
  obtain ⟨⟨trace, net⟩, followed, facts⟩ := Option.map_eq_some_iff.mp observed
  simp only [Prod.mk.injEq, decide_eq_true_eq] at facts
  obtain ⟨orderly, known⟩ := facts
  refine ⟨trace, net, followed, known, ?_⟩
  exact (rows_stay_distributions (Medium.perfect_faithful ℚ) (r := 1 / 2) (by norm_num)
    (fun _ => Sim.mem_line) (fun _ => rfl) Sim.nodup_line
    (fun node _ => Sim.line_connected (by decide) node) (Net.run_of_follow _ followed)
    orderly).1 1 0 _ known

end AntAodv
