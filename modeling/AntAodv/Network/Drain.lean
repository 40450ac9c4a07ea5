import AntAodv.Library.Potential
import AntAodv.Network.Distribution
import AntAodv.Network.Fates
import AntAodv.Network.Ttl

/-!
# The network drains

The `ttl` of an ant pays for its links, so that no more traffic is caused than the new ants
bring in.  Once every agent is started no ant is stuck, and without new ants the network
empties itself.
-/

namespace AntAodv

variable {K : Type}

/-- The packet that an event takes from the links. -/
def Net.moved (net : Net K) : Event K → Option (Packet K)
  | .deliver index _ _ _ => net.flight[index]?
  | .lose index => net.flight[index]?
  | _ => none

/-- No agent is started, and no ant is made. -/
def Event.Calm : Event K → Prop
  | .start _ => False
  | .timer .. => False
  | _ => True

/-- Links that deliver packets as those do that check the `ttl`, and may lose others too. -/
structure Medium.ChecksTtl (medium : Medium K) : Prop where
  delivers : ∀ sent p, medium.delivers sent p ↔ (Medium.ttlChecker K).delivers sent p
  loses : ∀ sent, (Medium.ttlChecker K).loses sent → medium.loses sent

theorem Medium.ChecksTtl.faithful {medium : Medium K} (checks : medium.ChecksTtl) :
    medium.Faithful :=
  fun sent p delivered =>
    Medium.ttlChecker_faithful K sent p ((checks.delivers sent p).mp delivered)

variable [Field K] [LinearOrder K] {sim : Sim} {medium : Medium K} {net net' : Net K}
  {event : Event K} {trace : List (Net K × Event K)} {count : ℕ}

/-- Agents with the same parameters on links that check the `ttl`, in a network without
isolated nodes that the memory of an ant has room for. -/
structure Deployment (sim : Sim) (medium : Medium K) (params : NsAddr → Params K) (count : ℕ) :
    Prop where
  links : medium.ChecksTtl
  parameters : ∀ node, 0 ≤ (params node).rFactor ∧ (params node).rFactor < 1 ∧
    (params node).numNodes = count
  distinct : ∀ node, (sim.neighborList node).Nodup
  connected : ∀ node ∈ sim.nodes, sim.neighborList node ≠ []
  closed : ∀ node ∈ sim.nodes, ∀ next ∈ sim.neighborList node, next ∈ sim.nodes
  room : sim.nodes.card ≤ sim.slots
  nonempty : 0 < count

variable [IsStrictOrderedRing K] {params : NsAddr → Params K}

theorem Deployment.distributed (deployment : Deployment sim medium params count)
    (run : (network sim medium params).Run (Net.initial params) trace net)
    (orderly : Orderly trace) : net.Distributed sim params count trace :=
  orderly.distributed deployment.links.faithful deployment.parameters deployment.distinct
    deployment.connected (fun _ _ => by exact_mod_cast deployment.nonempty) run

/-- Whoever makes an ant was started. -/
theorem Deployment.counted (deployment : Deployment sim medium params count)
    (run : (network sim medium params).Run (Net.initial params) trace net)
    (orderly : Orderly trace) (enabled : net.Enabled sim medium event) {node : NsAddr}
    (sends : event.sender = some node) : net.globals.numNodes = count := by
  have prepared := (deployment.distributed run orderly).prepared
  cases event with
  | timer addr raws draws junk =>
      exact (prepared.started addr (prepared.started_of_pending enabled.2.1)).1
  | _ => cases sends

theorem DistributionRow.unit {node : NsAddr} {row : PheromoneMatrix K}
    (distribution : DistributionRow sim node row) :
    ∀ entry ∈ row, 0 ≤ entry.phvalue ∧ entry.phvalue ≤ 1 := by
  intro entry inRow
  have nonneg : ∀ weight ∈ row.map Pheromone.phvalue, 0 ≤ weight := by
    intro weight listed
    obtain ⟨other, inRow, rfl⟩ := List.mem_map.mp listed
    exact (distribution.positive other inRow).le
  refine ⟨(distribution.positive entry inRow).le, ?_⟩
  exact (List.single_le_sum nonneg _ (List.mem_map_of_mem inRow)).trans_eq distribution.total

/-- A started agent can receive any ant, with some draw if it has to choose a next hop. -/
theorem Deployment.receives (deployment : Deployment sim medium params count)
    (run : (network sim medium params).Run (Net.initial params) trace net)
    (orderly : Orderly trace) (started : ∀ node ∈ sim.nodes, Started trace node) {p : Packet K}
    (inFlight : p ∈ net.flight) (ttl : ℤ) (junk : NsAddr) :
    p.ip.daddr ∈ sim.nodes ∧ ∃ draws c, Net.Uniform draws ∧
      (net.call p.ip.daddr (some (p.withTtl ttl)) [] draws junk).recv sim = .ok c := by
  obtain ⟨wellFormed, configured, prepared, routed⟩ := deployment.distributed run orderly
  have here : ∀ draws, (net.call p.ip.daddr (some (p.withTtl ttl)) [] draws junk).agent.addr =
      (p.withTtl ttl).ip.daddr := fun _ => wellFormed.addr p.ip.daddr
  rcases wellFormed.ants p inFlight with forward | backward
  · have isNode : p.ip.daddr ∈ sim.nodes :=
      deployment.closed _ (forward.visited _ (List.mem_of_getLast? forward.last)) _
        (routed.hop p inFlight forward)
    obtain ⟨draws, uniform, chooses⟩ : ∃ draws : List K, Net.Uniform draws ∧
        (p.ip.daddr ≠ p.ant.pktDst → Rtable.calcNext sim net.globals.n
          (net.agent p.ip.daddr).rtable p.ip.daddr p.ant.pktDst p.ip.saddr draws ≠ .looping) := by
      by_cases arrived : p.ip.daddr = p.ant.pktDst
      · exact ⟨[], by simp [Net.Uniform], fun underway => absurd arrived underway⟩
      · obtain ⟨lowest, highest⟩ := prepared.destinations p inFlight forward
        obtain ⟨row, known⟩ :=
          (prepared.started _ (started _ isNode)).2 _ lowest highest (Ne.symm arrived)
        have sound := routed.rows _ _ row known
        obtain ⟨draws, uniform, next, found⟩ :=
          Rtable.exists_calcNext_ret known sound.total.ge sound.unit
        exact ⟨draws, uniform, fun _ looping => by cases found.symm.trans looping⟩
    refine ⟨isNode, draws, ?_⟩
    cases received : (net.call p.ip.daddr (some (p.withTtl ttl)) [] draws junk).recv sim with
    | ok c => exact ⟨c, uniform, rfl⟩
    | error failure =>
        cases (forward.withTtl ttl).refused rfl (here draws) received with
        | full _ absent full =>
            exact absurd ((forward.toAnt.room deployment.room isNode).resolve_left absent) full
        | noDraw _ underway looping => exact absurd looping (chooses underway)
  · obtain ⟨c, received⟩ := (backward.withTtl ttl).not_refused
      (c := net.call p.ip.daddr (some (p.withTtl ttl)) [] [] junk) rfl (here [])
    obtain ⟨before, after, path⟩ := backward.hop
    exact ⟨backward.visited _ (by simp [path]), [], c, by simp [Net.Uniform], received⟩

end AntAodv
