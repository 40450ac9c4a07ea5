import AntAodv.Neighbors
import AntAodv.Network.Drain
import AntAodv.Network.Timed

/-!
# Scenarios

A script like `antnet.tcl` adds the neighbours of every node link by link, gives all agents
the same parameters and starts them at one time.  Everything that is asked of a network is
then true of all its runs.
-/

namespace AntAodv

/-- Links between the nodes `0`, ..., `count - 1`: none is given twice or joins a node to
itself, and no node is left out. -/
structure ValidLinks (count : ℕ) (links : List (NsAddr × NsAddr)) : Prop where
  nodes : 0 < count
  inside : ∀ link ∈ links, (0 ≤ link.1 ∧ link.1 < count) ∧ 0 ≤ link.2 ∧ link.2 < count
  proper : ∀ link ∈ links, link.1 ≠ link.2
  once : (pairs links).Nodup
  covered : ∀ node : NsAddr, 0 ≤ node → node < count →
    ∃ link ∈ links, link.1 = node ∨ link.2 = node

/-- The topology a script sets up. -/
def Sim.ofLinks (sim : Sim) (addTo : List NsAddr → NsAddr → List NsAddr) (count : ℕ)
    (links : List (NsAddr × NsAddr)) : Sim :=
  { sim with
    nodes := (Sim.line count sim.slots).nodes
    neighborList := neighborLists addTo links }

section Topology

variable {sim : Sim} {addTo : List NsAddr → NsAddr → List NsAddr} {count : ℕ}
  {links : List (NsAddr × NsAddr)}

theorem Sim.mem_ofLinks {node : ℤ} :
    node ∈ (sim.ofLinks addTo count links).nodes ↔ 0 ≤ node ∧ node < count :=
  @Sim.mem_line count sim.slots node

theorem ValidLinks.distinct (valid : ValidLinks count links) (adds : AddsOne addTo)
    (node : NsAddr) : (neighborLists addTo links node).Nodup :=
  (nodup_neighborLists_iff adds).mpr ⟨valid.once, valid.proper⟩ node

theorem ValidLinks.connected (valid : ValidLinks count links) (adds : AddsOne addTo)
    {node : NsAddr} (isNode : node ∈ (sim.ofLinks addTo count links).nodes) :
    neighborLists addTo links node ≠ [] := by
  obtain ⟨nonneg, below⟩ := Sim.mem_ofLinks.mp isNode
  obtain ⟨link, isLink, ends⟩ := valid.covered node nonneg below
  have named : s(link.1, link.2) ∈ pairs links := List.mem_map_of_mem isLink
  rcases ends with rfl | rfl
  · exact List.ne_nil_of_mem ((mem_neighborLists adds _ _).mpr named)
  · exact List.ne_nil_of_mem ((mem_neighborLists adds _ _).mpr (Sym2.eq_swap ▸ named))

theorem ValidLinks.closed (valid : ValidLinks count links) (adds : AddsOne addTo)
    {node next : NsAddr} (isNext : next ∈ neighborLists addTo links node) :
    next ∈ (sim.ofLinks addTo count links).nodes := by
  obtain ⟨link, isLink, ends⟩ := List.mem_map.mp ((mem_neighborLists adds _ _).mp isNext)
  obtain ⟨first, second⟩ := valid.inside link isLink
  rcases Sym2.eq_iff.mp ends with ⟨_, same⟩ | ⟨same, _⟩
  · exact Sim.mem_ofLinks.mpr (same ▸ second)
  · exact Sim.mem_ofLinks.mpr (same ▸ first)

end Topology

variable {K : Type}

/-- A run of a script that starts every node once, at `time`.  The scheduler takes all events of
a time before the clock goes on, and no link delivers a packet at the time it is sent. -/
inductive Scripted [LT K] (nodes : Finset NsAddr) (time : K) : List (Net K × Event K) → Prop where
  | nil : Scripted nodes time []
  | snoc {trace : List (Net K × Event K)} {net : Net K} {event : Event K} :
      Scripted nodes time trace →
      (∀ node, event = .start node → net.clock = time ∧ ¬ Started trace node) →
      (∀ later, event = .tick later → time < later → ∀ node ∈ nodes, Started trace node) →
      (∀ p, event.delivered = some p → time < net.clock) →
      Scripted nodes time (trace ++ [(net, event)])

theorem Scripted.of_snoc [LT K] {nodes : Finset NsAddr} {time : K}
    {trace : List (Net K × Event K)} {net : Net K} {event : Event K}
    (scripted : Scripted nodes time (trace ++ [(net, event)])) :
    Scripted nodes time trace ∧
      (∀ node, event = .start node → net.clock = time ∧ ¬ Started trace node) ∧
      (∀ later, event = .tick later → time < later → ∀ node ∈ nodes, Started trace node) ∧
      ∀ p, event.delivered = some p → time < net.clock := by
  generalize whole : trace ++ [(net, event)] = entries at scripted
  cases scripted with
  | nil => simp at whole
  | snoc before starts waits delays =>
      obtain ⟨rfl, latest⟩ := List.append_inj' whole rfl
      cases latest
      exact ⟨before, starts, waits, delays⟩

/-- The time to which an event puts the clock. -/
def Event.ticked : Event K → Option K
  | .tick time => some time
  | _ => none

/-- Whether a run is one of the script, with its latest step first. -/
def scriptedSteps [LinearOrder K] (nodes : Finset NsAddr) (time : K) :
    List (Net K × Event K) → Bool
  | [] => true
  | (net, event) :: earlier =>
      scriptedSteps nodes time earlier &&
        event.started.all (fun node => net.clock = time ∧ ¬ Started earlier.reverse node) &&
        event.ticked.all (fun later =>
          time < later → ∀ node ∈ nodes, Started earlier.reverse node) &&
        event.delivered.all fun _ => time < net.clock

theorem scriptedSteps_iff [LinearOrder K] {nodes : Finset NsAddr} {time : K}
    (trace : List (Net K × Event K)) :
    scriptedSteps nodes time trace.reverse = true ↔ Scripted nodes time trace := by
  induction trace using List.reverseRecOn with
  | nil => exact iff_of_true rfl .nil
  | append_singleton trace entry inductionHypothesis =>
      obtain ⟨net, event⟩ := entry
      have ticked : ∀ later, event.ticked = some later ↔ event = .tick later := by
        intro later
        cases event <;> simp [Event.ticked]
      have latest : Scripted nodes time (trace ++ [(net, event)]) ↔ _ :=
        ⟨Scripted.of_snoc, fun ⟨before, starts, waits, delays⟩ => .snoc before starts waits delays⟩
      rw [List.reverse_append, List.reverse_singleton, List.singleton_append, scriptedSteps, latest,
        ← inductionHypothesis]
      simp only [Bool.and_eq_true, Option.all_eq_true, decide_eq_true_eq, List.reverse_reverse,
        Event.started_eq_some_iff, ticked, and_assoc]

instance [LinearOrder K] (nodes : Finset NsAddr) (time : K) (trace : List (Net K × Event K)) :
    Decidable (Scripted nodes time trace) :=
  decidable_of_iff _ (scriptedSteps_iff trace)

variable [Field K] [LinearOrder K] {sim : Sim} {medium : Medium K} {params : NsAddr → Params K}
  {net : Net K} {event : Event K} {trace : List (Net K × Event K)} {time : K}

/-- A run of a script is orderly, and all nodes are started once the clock has gone on. -/
theorem Scripted.orderly (faithful : medium.Faithful) (nonneg : 0 ≤ time)
    (run : (network sim medium params).Run (Net.initial params) trace net)
    (scripted : Scripted sim.nodes time trace) :
    Orderly trace ∧ (time < net.clock → ∀ node ∈ sim.nodes, Started trace node) := by
  induction run with
  | refl => exact ⟨.nil, fun late => absurd late (not_lt.mpr nonneg)⟩
  | @snoc middle last trace event before step inductionHypothesis =>
      obtain ⟨earlier, starts, waits, delays⟩ := scripted.of_snoc
      obtain ⟨orderly, started⟩ := inductionHypothesis earlier
      have wellFormed := faithful.wellFormed ⟨_, trace, rfl, before⟩
      have stepped := wellFormed.stepped step.1 (faithful.unchanged step.1) step.2
      refine ⟨orderly.snoc (fun node isStart => (starts node isStart).2) ?_, ?_⟩
      · intro p delivered
        have late := delays p delivered
        cases event with
        | deliver index q draws junk =>
            cases delivered
            exact started late _ step.1.2.1
        | _ => cases delivered
      · intro late node isNode
        apply (started_append node).mpr
        apply Or.inl
        rcases stepped.clock with same | isTick
        · exact started (same ▸ late) node isNode
        · exact waits _ isTick late node isNode

section Safety

variable [IsStrictOrderedRing K] {count : ℕ}

omit [IsStrictOrderedRing K] in
theorem ValidLinks.deployment {addTo : List NsAddr → NsAddr → List NsAddr}
    {links : List (NsAddr × NsAddr)} (valid : ValidLinks count links) (adds : AddsOne addTo)
    (room : count ≤ sim.slots) (checks : medium.ChecksTtl)
    (parameters : ∀ node, 0 ≤ (params node).rFactor ∧ (params node).rFactor < 1 ∧
      (params node).numNodes = count) :
    Deployment (sim.ofLinks addTo count links) medium params count where
  links := checks
  parameters := parameters
  distinct := valid.distinct adds
  connected _ isNode := valid.connected adds isNode
  closed _ _ _ isNext := valid.closed adds isNext
  room := by
    change (Sim.line count sim.slots).nodes.card ≤ sim.slots
    rw [Sim.line, Sim.idle, Finset.card_map, Finset.card_range]
    exact room
  nonempty := valid.nodes

end Safety

/-! ### The scenario of `antnet.tcl` -/

end AntAodv
