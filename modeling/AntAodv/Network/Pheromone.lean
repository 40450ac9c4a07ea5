import AntAodv.Network.History
import AntAodv.Network.Supply
import AntAodv.Rtable.NextHop

/-!
# Rows and hops along a run

An update leaves a row a distribution only when the neighbour it rewards is in
the row, and that neighbour comes from the memory of an ant which went there
because of such a row.  Both facts are kept together, for any property of rows
that updates towards neighbours keep.
-/

namespace AntAodv

open LoopErasure

variable {K : Type}

/-- The calling agent has a row for each destination it asks `calc_next` for. -/
def Net.RowsKnown [Arithmetic K] [LinearOrder K] (sim : Sim) (net : Net K) (event : Event K) : Prop :=
  ∀ node dest parent result, event.caller = some node →
    .calcNext dest parent result ∈ net.ops sim event → ∃ row, (net.agent node).rtable dest = some row

variable [Field K] [LinearOrder K]

/-- A property of the rows of each node that a rate keeps in updates towards
neighbours. -/
structure RowInvariant (sim : Sim) (rowOk : NsAddr → PheromoneMatrix K → Prop)
    (rateOk : K → Prop) : Prop where
  neighbor : ∀ {node row}, rowOk node row →
    ∀ next ∈ row.map Pheromone.neighbor, next ∈ sim.neighborList node
  enough : ∀ {node row}, rowOk node row → 1 ≤ Roulette.total Pheromone.phvalue row
  update : ∀ {node row r next}, rateOk r → rowOk node row → next ∈ sim.neighborList node →
    rowOk node (Rtable.updateRow r next row)

/-- All rows have the property, and all ants hop between neighbours. -/
structure Net.Routed (sim : Sim) (rowOk : NsAddr → PheromoneMatrix K → Prop)
    (rateOk : K → Prop) (net : Net K) : Prop where
  rate : rateOk net.globals.r
  rows : ∀ node dest row, (net.agent node).rtable dest = some row → rowOk node row
  hops : ∀ p ∈ net.flight, p.ant.path.IsChain fun node next => next ∈ sim.neighborList node
  hop : ∀ p ∈ net.flight, ForwardAnt sim p → p.ip.daddr ∈ sim.neighborList p.ip.saddr

variable {sim : Sim} {medium : Medium K} {net net' : Net K} {event : Event K}
  {rowOk : NsAddr → PheromoneMatrix K → Prop} {rateOk : K → Prop}

/-- The next hop a known row yields is the parent or a neighbour. -/
theorem RowInvariant.next_hop (invariant : RowInvariant sim rowOk rateOk)
    (routed : net.Routed sim rowOk rateOk) {node dest parent next : NsAddr} {draws : List K}
    {junk : NsAddr} (uniform : Net.Uniform draws)
    (known : ∃ row, (net.agent node).rtable dest = some row)
    (value : (Rtable.calcNext sim net.globals.n (net.agent node).rtable node dest parent
      draws).value junk = some next) :
    next = parent ∨ next ∈ sim.neighborList node := by
  rcases known with ⟨row, known⟩
  have rowOk := routed.rows node dest row known
  cases result : Rtable.calcNext sim net.globals.n (net.agent node).rtable node dest parent
      draws with
  | ret found =>
      rw [result] at value
      cases value
      rcases Rtable.calcNext_ret known result with same | inRow
      · apply Or.inl
        exact same
      · apply Or.inr
        exact invariant.neighbor rowOk next inRow
  | offEnd =>
      exact absurd result
        (Rtable.calcNext_ne_offEnd_of_total known (invariant.enough rowOk) uniform)
  | looping =>
      rw [result] at value
      cases value

/-- The hops of the ants in flight after a step. -/
theorem Net.Routed.step_hops (invariant : RowInvariant sim rowOk rateOk)
    (routed : net.Routed sim rowOk rateOk) (wellFormed : net.WellFormed sim)
    (enabled : net.Enabled sim medium event) (known : net.RowsKnown sim event)
    {p : Packet K} (source : net.Source sim p event) :
    (p.ant.path.IsChain fun node next => next ∈ sim.neighborList node) ∧
      (ForwardAnt sim p → p.ip.daddr ∈ sim.neighborList p.ip.saddr) := by
  cases source with
  | kept earlier => exact ⟨routed.hops p earlier, routed.hop p earlier⟩
  | @emitted addr raws draws junk dest next result slots isNode new _ logged called value hop =>
      have own : (net.call addr none raws draws junk).agent.addr = addr := wellFormed.addr addr
      subst new
      constructor
      · rw [Call.path_sentAnt slots]
        exact List.isChain_singleton _
      · intro _
        have chosen := invariant.next_hop routed enabled.2.2
          (known addr dest addr result rfl logged) (called ▸ value)
        change next ∈ sim.neighborList (net.agent addr).addr
        rw [wellFormed.addr addr]
        exact chosen.resolve_left hop
  | @passed index sent ttl draws junk c delivered _ logged received handedOn =>
      have inFlight := List.mem_of_getElem? delivered
      have chain := routed.hops sent inFlight
      cases received with
      | @turned ah ant arrived memorized path =>
          cases List.mem_singleton.mp handedOn
          have last := routed.hop sent inFlight (ant.withTtl sent.ip.ttl)
          refine ⟨?_, fun forward => by cases forward.direction⟩
          change ah.path.IsChain _
          rw [path, List.isChain_append]
          refine ⟨chain, List.isChain_singleton _, fun node isLast next isNext => ?_⟩
          rw [ant.last] at isLast
          cases isLast
          cases isNext
          exact last
      | ended => cases handedOn
      | @forwarded ah result next ant underway memorized called value hop onward =>
          cases List.mem_singleton.mp handedOn
          have last := routed.hop sent inFlight (ant.withTtl sent.ip.ttl)
          constructor
          · change ah.path.IsChain _
            rw [memorized.path]
            refine isChain_visit chain fun node isLast => ?_
            rw [ant.last] at isLast
            cases isLast
            exact last
          · intro _
            have chosen := invariant.next_hop routed enabled.2.2
              (known sent.ip.daddr sent.ant.pktDst sent.ip.saddr result rfl
                (by rw [logged]; simp [Packet.withTtl])) (called ▸ value)
            exact chosen.resolve_left onward
      | home =>
          rw [handed_append, handed_tableUpdated] at handedOn
          cases handedOn
      | returned =>
          rw [handed_append, handed_tableUpdated] at handedOn
          cases List.mem_singleton.mp handedOn
          exact ⟨chain, fun forward => by cases forward.direction⟩

omit [Field K] [LinearOrder K] in
/-- A backward ant goes back over a hop between neighbours. -/
theorem Net.Routed.neighbor_of_backward (routed : net.Routed sim rowOk rateOk) {p : Packet K}
    (inFlight : p ∈ net.flight) {before after : List NsAddr} {here next : NsAddr}
    (split : p.ant.path = before ++ here :: next :: after) : next ∈ sim.neighborList here := by
  have chain := routed.hops p inFlight
  rw [split] at chain
  exact (List.isChain_append_cons_cons.mp chain).2.1

/-- Every call of `update` rewards a neighbour of the agent. -/
theorem Net.Routed.neighbor_of_update (routed : net.Routed sim rowOk rateOk)
    (wellFormed : net.WellFormed sim) (unchanged : net.Unchanged event) {node dest next : NsAddr}
    (caller : event.caller = some node) (called : .update dest next ∈ net.ops sim event) :
    next ∈ sim.neighborList node := by
  obtain ⟨index, p, draws, junk, rfl, rfl, ant, rfl⟩ :=
    wellFormed.update_eq unchanged caller called
  obtain ⟨ttl, inFlight⟩ := unchanged.inFlight rfl
  obtain ⟨before, after, split⟩ := ant.hop
  exact routed.neighbor_of_backward inFlight split

/-- The rows after a step, provided that a start leaves good ones. -/
theorem Net.Routed.step_rows (invariant : RowInvariant sim rowOk rateOk)
    (routed : net.Routed sim rowOk rateOk) (stepped : net.Stepped sim event net')
    (started : ∀ addr, event = .start addr → rateOk (net.agent addr).rFactor ∧
      ∀ dest row, ((net.call addr none [] [] 0).initializeRtable sim).agent.rtable dest =
        some row → rowOk addr row) :
    rateOk net'.globals.r ∧
      ∀ node dest row, (net'.agent node).rtable dest = some row → rowOk node row := by
  have finished := fun {net : Net K} {addr : NsAddr} {c : Call K} =>
    @Net.forall_finish K net (fun node agent =>
      ∀ dest row, agent.rtable dest = some row → rowOk node row) addr c
  cases stepped with
  | tick | lose => exact ⟨routed.rate, routed.rows⟩
  | stop addr => exact ⟨routed.rate, finished routed.rows (routed.rows addr)⟩
  | start addr =>
      obtain ⟨rate, rows⟩ := started addr rfl
      exact ⟨rate, finished routed.rows rows⟩
  | @timer addr _ _ _ _ _ _ emitted =>
      cases emitted <;> exact ⟨routed.rate, finished routed.rows (routed.rows addr)⟩
  | @deliver index sent _ _ _ _ delivered _ _ received =>
      have inFlight := List.mem_of_getElem? delivered
      have updated : ∀ (dests before after : List NsAddr),
          sent.ant.path = before ++ sent.ip.daddr :: sent.ip.saddr :: after →
          ∀ dest row, dests.foldl (fun rt dest =>
            Rtable.update net.globals.r rt dest sent.ip.saddr) (net.agent sent.ip.daddr).rtable
              dest = some row → rowOk sent.ip.daddr row := by
        intro dests before after split
        have neighbor := routed.neighbor_of_backward inFlight split
        exact Rtable.foldl_update_invariant
          (fun row good => invariant.update routed.rate good neighbor) dests
          (routed.rows sent.ip.daddr)
      cases received with
      | turned | ended | forwarded =>
          exact ⟨routed.rate, finished routed.rows (routed.rows sent.ip.daddr)⟩
      | home _ split => exact ⟨routed.rate, finished routed.rows (updated _ [] _ split)⟩
      | returned _ split => exact ⟨routed.rate, finished routed.rows (updated _ _ _ split)⟩

/-- A step keeps the rows and hops, provided that a start does. -/
theorem Net.Routed.step (invariant : RowInvariant sim rowOk rateOk)
    (routed : net.Routed sim rowOk rateOk) (wellFormed : net.WellFormed sim)
    (enabled : net.Enabled sim medium event) (known : net.RowsKnown sim event)
    (stepped : net.Stepped sim event net')
    (started : ∀ addr, event = .start addr → rateOk (net.agent addr).rFactor ∧
      ∀ dest row, ((net.call addr none [] [] 0).initializeRtable sim).agent.rtable dest =
        some row → rowOk addr row) :
    net'.Routed sim rowOk rateOk := by
  obtain ⟨rate, rows⟩ := routed.step_rows invariant stepped started
  have flight := fun p inFlight => routed.step_hops invariant wellFormed enabled known
    (stepped.source wellFormed (p := p) inFlight)
  exact ⟨rate, rows, fun p inFlight => (flight p inFlight).1,
    fun p inFlight => (flight p inFlight).2⟩

/-! ### Parameters -/

theorem Net.Configured.step {params : NsAddr → Params K} (configured : net.Configured params)
    (stepped : net.Stepped sim event net') : net'.Configured params := by
  have finished := fun {net : Net K} {addr : NsAddr} {c : Call K} =>
    @Net.forall_finish K net (fun node agent =>
      agent.rFactor = (params node).rFactor ∧ agent.numNodes = (params node).numNodes) addr c
  cases stepped with
  | tick | lose => exact configured
  | start addr | stop addr => exact finished configured (configured addr)
  | @timer addr _ _ _ _ _ _ emitted =>
      cases emitted <;> exact finished configured (configured addr)
  | @deliver index sent _ _ _ _ _ _ _ received =>
      cases received <;> exact finished configured (configured sent.ip.daddr)

end AntAodv
