import AntAodv.Network.WellFormed
import Mathlib.Algebra.Order.Field.Rat

/-!
# The fixed size of the route memory

`pkt_memory_` has `MAX_NUM_NODES` slots, whatever the number of nodes.  The one
access that can leave it is the write of `memorize` at an ant's seventeenth node.
-/

namespace AntAodv

variable {K : Type} [Arithmetic K] [LinearOrder K]

/-- The call an event makes accesses `pkt_memory_` at indices of the array only. -/
def Net.MemorySafe (sim : Sim) (net : Net K) (event : Event K) : Prop :=
  ∀ failure index, net.invoke sim event = some (.error failure) →
    failure.fault ≠ .memoryIndex index

/-- A forward ant that arrives at a node not in its memory finds a free slot
there. -/
def Event.Fits : Event K → Prop
  | .deliver _ p _ _ =>
      p.cmn.direction = .down → p.ip.daddr ∈ p.ant.path ∨ p.ant.pktMemSize < maxNumNodes
  | _ => True

variable {sim : Sim} {medium : Medium K} {params : NsAddr → Params K} {net : Net K}
  {event : Event K}

/-- In every state of every run, an event keeps to the array exactly when it does
not bring a forward ant with a full memory to a new node. -/
theorem memorySafe_iff_fits (faithful : medium.Faithful) (slots : sim.slots = maxNumNodes)
    (reached : (network sim medium params).Reachable net)
    (enabled : net.Enabled sim medium event) : net.MemorySafe sim event ↔ event.Fits := by
  have wellFormed : net.WellFormed sim := faithful.wellFormed reached
  cases event with
  | tick | start | stop | lose => exact ⟨fun _ => trivial, fun _ _ _ called => by cases called⟩
  | timer addr raws draws junk =>
      refine ⟨fun _ => trivial, fun _ failure index called => ?_⟩
      rw [Net.invoke, Option.some.injEq] at called
      cases Call.sendAntPkt_error called with
      | noDestination | noDraw => simp
      | noSlot empty => exact absurd (by rw [slots]; decide) empty
  | deliver index p draws junk =>
      have own := wellFormed.addr p.ip.daddr
      rcases wellFormed.deliver_cases (faithful.unchanged enabled) with forward | backward
      · by_cases room : p.ip.daddr ∈ p.ant.path ∨ p.ant.pktMemSize < sim.slots
        · refine ⟨fun _ _ => slots ▸ room, fun _ failure index called => ?_⟩
          rw [Net.invoke, Option.some.injEq] at called
          cases forward.refused rfl own called with
          | full _ unvisited full => exact absurd room (not_or.mpr ⟨unvisited, full⟩)
          | noDraw => simp
        · have overflow : ¬ Event.Fits (.deliver index p draws junk) := fun fits =>
            room (slots ▸ fits forward.direction)
          rw [not_or] at room
          refine ⟨fun safe => absurd ?_ (safe _ (some sim.slots) (congrArg some
            (forward.recv_full rfl own room.1 room.2))), fun fits => absurd fits overflow⟩
          rfl
      · obtain ⟨c, received⟩ := backward.not_refused
          (c := net.call p.ip.daddr (some p) [] draws junk) rfl own
        refine ⟨fun _ down => ?_, fun _ failure index called => ?_⟩
        · exact absurd (down.symm.trans backward.direction) (by simp)
        · rw [Net.invoke, received] at called
          cases called

/-- The ant from one end of three nodes to the other is memorized in the middle. -/
theorem memorySafe_iff_fits_line :
    let sim := Sim.line 3 maxNumNodes
    let params : NsAddr → Params ℚ := fun _ => ⟨1 / 2, 3⟩
    ∃ net p, (network sim (.perfect ℚ) params).Reachable net ∧
      net.Enabled sim (.perfect ℚ) (.deliver 0 p [3 / 4] 0) ∧
      .memorize ∈ net.ops sim (.deliver 0 p [3 / 4] 0) ∧
      net.MemorySafe sim (.deliver 0 p [3 / 4] 0) := by
  intro sim params
  have observed : ((Net.initial params).follow sim (.perfect ℚ)
      [fun _ => some (.start 0), fun _ => some (.start 1), fun _ => some (.start 2),
        fun _ => some (.timer 0 [2] [0] 0)]).map (fun outcome =>
        outcome.2.flight.map fun p => decide
          (outcome.2.Enabled sim (.perfect ℚ) (.deliver 0 p [3 / 4] 0) ∧
            .memorize ∈ outcome.2.ops sim (.deliver 0 p [3 / 4] 0) ∧
            p.ant.pktMemSize < maxNumNodes)) = some [true] := by
    decide +kernel
  obtain ⟨trace, net, run, single⟩ := Net.exists_run_of_follow params observed
  obtain ⟨p, _, ready⟩ := List.map_eq_singleton_iff.mp single
  obtain ⟨enabled, memorizes, room⟩ := of_decide_eq_true ready
  have reached : (network sim (.perfect ℚ) params).Reachable net := ⟨_, trace, rfl, run⟩
  refine ⟨net, p, reached, enabled, memorizes, ?_⟩
  exact (memorySafe_iff_fits (Medium.perfect_faithful ℚ) rfl reached enabled).mpr
    fun _ => .inr room

/-- In a line of seventeen nodes, all of them started with that number of nodes,
an ant from one end writes behind the array at the other. -/
theorem memory_overflows_line :
    let sim := Sim.line 17 maxNumNodes
    let params : NsAddr → Params ℚ := fun _ => ⟨1 / 2, 17⟩
    ¬ ∀ net event, (network sim (.perfect ℚ) params).Reachable net →
      net.Enabled sim (.perfect ℚ) event → net.MemorySafe sim event := by
  intro sim params safe
  have observed : ((Net.initial params).follow sim (.perfect ℚ)
      ((List.range 17).map (fun (node : ℕ) _ => some (.start node)) ++
        (fun _ => some (.timer 0 [16] [0] 0)) ::
          List.replicate 15 (deliverAs 0 id [1 / 2, 0, 9 / 10] 0))).map (fun outcome =>
        outcome.2.flight.map fun p =>
          (decide (outcome.2.Enabled sim (.perfect ℚ) (.deliver 0 p [] 0)),
            match outcome.2.invoke sim (.deliver 0 p [] 0) with
            | some (.error failure) => some failure.fault
            | _ => none)) = some [(true, some (.memoryIndex (some 16)))] := by
    decide +kernel
  obtain ⟨trace, net, run, outcome⟩ := Net.exists_run_of_follow params observed
  rcases List.map_eq_singleton_iff.mp outcome with ⟨p, _, shape⟩
  simp only [Prod.mk.injEq] at shape
  obtain ⟨ready, fault⟩ := shape
  split at fault
  · rename_i failure called
    exact safe net (.deliver 0 p [] 0) ⟨_, trace, rfl, run⟩
      (of_decide_eq_true ready) failure (some 16) called (Option.some.inj fault)
  · cases fault

/-- A topology of at most `MAX_NUM_NODES` nodes keeps to the array. -/
theorem Event.fits_of_card (faithful : medium.Faithful) (slots : sim.slots = maxNumNodes)
    (few : sim.nodes.card ≤ maxNumNodes) (reached : (network sim medium params).Reachable net)
    (enabled : net.Enabled sim medium event) : event.Fits := by
  have wellFormed : net.WellFormed sim := faithful.wellFormed reached
  cases event with
  | deliver index p draws junk =>
      intro _
      rw [← slots] at few ⊢
      rcases wellFormed.deliver_cases (faithful.unchanged enabled) with forward | backward
      · exact forward.room few enabled.2.1
      · exact backward.room few enabled.2.1
  | _ => trivial

end AntAodv
