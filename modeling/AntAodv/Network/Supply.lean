import AntAodv.Agent.Restart
import AntAodv.Network.Calls

/-!
# When agents have rows

Whatever happens to the packets on their way, an agent has a row for a destination
from its first start on, provided that it has a neighbour and that `num_nodes_`
exceeds the destination.  No other step adds or removes a row.  With exact arithmetic
and rates in the unit interval, no value of a row leaves that interval.
-/

namespace AntAodv

variable {K : Type}

/-- The agent of `node` was started in a run. -/
def Started (trace : List (Net K × Event K)) (node : NsAddr) : Prop :=
  ∃ net, (net, .start node) ∈ trace

theorem started_append {trace : List (Net K × Event K)} {net : Net K} {event : Event K}
    (node : NsAddr) :
    Started (trace ++ [(net, event)]) node ↔ Started trace node ∨ event = .start node := by
  constructor
  · rintro ⟨first, occurred⟩
    rcases List.mem_append.mp occurred with earlier | now
    · apply Or.inl
      exact ⟨first, earlier⟩
    · cases List.mem_singleton.mp now
      apply Or.inr
      rfl
  · rintro (⟨first, occurred⟩ | rfl)
    · exact ⟨first, List.mem_append_left _ occurred⟩
    · exact ⟨net, by simp⟩

/-- What an agent needs to have a row for another node. -/
structure Supplied (sim : Sim) (params : NsAddr → Params K) (trace : List (Net K × Event K))
    (node dest : NsAddr) : Prop where
  started : Started trace node
  linked : sim.neighborList node ≠ []
  counted : 0 ≤ dest ∧ dest < (params node).numNodes
  other : dest ≠ node

/-- Of a run only the starts of the agent matter. -/
theorem supplied_congr {sim : Sim} {params : NsAddr → Params K}
    {trace trace' : List (Net K × Event K)} {node dest : NsAddr}
    (same : Started trace node ↔ Started trace' node) :
    Supplied sim params trace node dest ↔ Supplied sim params trace' node dest :=
  ⟨fun supplied => ⟨same.mp supplied.started, supplied.linked, supplied.counted, supplied.other⟩,
    fun supplied => ⟨same.mpr supplied.started, supplied.linked, supplied.counted, supplied.other⟩⟩

/-- The agents still have the parameters they were created with. -/
def Net.Configured (params : NsAddr → Params K) (net : Net K) : Prop :=
  ∀ node, (net.agent node).rFactor = (params node).rFactor ∧
    (net.agent node).numNodes = (params node).numNodes

/-- The agents started so far have rates in the unit interval. -/
def RatesUnit [Zero K] [One K] [LE K] (params : NsAddr → Params K) (trace : List (Net K × Event K)) : Prop :=
  ∀ node, Started trace node → 0 ≤ (params node).rFactor ∧ (params node).rFactor ≤ 1

section Arithmetic

variable [Arithmetic K] [LinearOrder K] {sim : Sim} {medium : Medium K}
  {params : NsAddr → Params K} {net net' : Net K} {event : Event K}
  {trace : List (Net K × Event K)}

omit [LinearOrder K] in
theorem Net.updated_finish {addr : NsAddr} {c c' : Call K} (agent : c.agent = net.agent addr)
    (globals : c.globals = net.globals) (updates : c.Updates c') :
    (net.finish addr c').globals.r = net.globals.r ∧ ∀ node,
      (net.agent node).Updated net.globals.r ((net.finish addr c').agent node) := by
  refine ⟨updates.rate.trans (by rw [globals]), fun node => ?_⟩
  by_cases here : node = addr
  · subst here
    rw [← agent, ← globals]
    simpa [Net.finish] using updates.agent
  · simpa [Net.finish, here] using .refl (net.agent node)

/-- A step that is no start does nothing to the rows but update them. -/
theorem Net.updated_of_exec (returned : net.exec sim event = .ok net')
    (other : ∀ addr, event ≠ .start addr) :
    net'.globals.r = net.globals.r ∧ ∀ node,
      (net.agent node).Updated net.globals.r (net'.agent node) := by
  cases event with
  | tick | lose =>
      cases returned
      exact ⟨rfl, fun node => .refl (net.agent node)⟩
  | start addr => exact absurd rfl (other addr)
  | stop addr =>
      cases returned
      exact Net.updated_finish rfl rfl (net.call addr none [] [] 0).updates_stop
  | timer addr raws draws junk =>
      obtain ⟨c, sent, done⟩ := bind_eq_ok returned
      cases done
      exact Net.updated_finish rfl rfl (Call.updates_sendAntPkt sent)
  | deliver index p draws junk =>
      obtain ⟨c, received, done⟩ := bind_eq_ok returned
      cases done
      have own : (net.call p.ip.daddr (some p) [] draws junk).agent =
          (net.remove index).agent p.ip.daddr := rfl
      exact Net.updated_finish own rfl (Call.updates_recv received)

/-- What a run says about the agents of its last state. -/
structure Net.Supplies (sim : Sim) (params : NsAddr → Params K) (trace : List (Net K × Event K))
    (net : Net K) : Prop where
  addr : ∀ node, (net.agent node).addr = node
  configured : net.Configured params
  rows : ∀ node dest,
    ((net.agent node).rtable dest).isSome = true ↔ Supplied sim params trace node dest

omit [LinearOrder K] in
theorem Net.Supplies.start {addr : NsAddr} (supplies : net.Supplies sim params trace) :
    (net.finish addr ((net.call addr none [] [] 0).start sim)).Supplies sim params
      (trace ++ [(net, .start addr)]) := by
  have unchanged : ∀ node ≠ addr, ∀ dest, Supplied sim params (trace ++ [(net, .start addr)])
      node dest ↔ Supplied sim params trace node dest := by
    intro node different dest
    apply supplied_congr
    rw [started_append]
    simp [Ne.symm different]
  refine ⟨fun node => ?_, fun node => ?_, fun node dest => ?_⟩ <;> by_cases here : node = addr
  · subst here
    simp only [Net.finish, Function.update_self]
    exact supplies.addr node
  · simpa [Net.finish, here] using supplies.addr node
  · subst here
    simp only [Net.finish, Function.update_self]
    exact supplies.configured node
  · simpa [Net.finish, here] using supplies.configured node
  · subst here
    have added := (net.call node none [] [] 0).initializeRtable_rtable sim dest
    rw [show (net.call node none [] [] 0).agent = net.agent node from rfl, supplies.addr node,
      (supplies.configured node).2] at added
    simp only [Net.finish, Function.update_self]
    change ((((net.call node none [] [] 0).initializeRtable sim).agent.rtable dest).isSome =
      true) ↔ _
    rw [added]
    split
    · rename_i isNew
      exact iff_of_true rfl
        ⟨(started_append node).mpr (.inr rfl), isNew.2.2, isNew.1, isNew.2.1⟩
    · rename_i notNew
      rw [supplies.rows node dest]
      refine iff_of_false ?_ ?_ <;>
        exact fun supplied => notNew ⟨supplied.counted, supplied.other, supplied.linked⟩
  · rw [unchanged node here dest, ← supplies.rows node dest]
    simp [Net.finish, here]

/-- In every run, an agent has the rows for which it is supplied, and no others. -/
theorem supplies_of_run
    (run : (network sim medium params).Run (Net.initial params) trace net) :
    net.Supplies sim params trace := by
  induction run with
  | refl =>
      refine ⟨fun _ => rfl, fun _ => ⟨rfl, rfl⟩, fun node dest => iff_of_false (by simp [Net.initial]) ?_⟩
      rintro ⟨⟨_, occurred⟩, _⟩
      cases occurred
  | @snoc middle last trace event _ step inductionHypothesis =>
      by_cases start : ∃ addr, event = .start addr
      · obtain ⟨addr, rfl⟩ := start
        cases step.2
        exact inductionHypothesis.start
      · rw [not_exists] at start
        obtain ⟨_, updated⟩ := Net.updated_of_exec step.2 start
        refine ⟨fun node => (updated node).addr.trans (inductionHypothesis.addr node),
          fun node => ?_, fun node dest => ?_⟩
        · rw [(updated node).rFactor, (updated node).numNodes]
          exact inductionHypothesis.configured node
        · rw [(updated node).isSome dest, inductionHypothesis.rows node dest]
          apply supplied_congr
          rw [started_append]
          simp [start node]

end Arithmetic

section Exact

variable [Field K] [LinearOrder K] [IsStrictOrderedRing K] {sim : Sim} {medium : Medium K}
  {params : NsAddr → Params K} {net : Net K} {trace : List (Net K × Event K)}

/-- The values of a row lie in the unit interval. -/
def UnitRow (row : PheromoneMatrix K) : Prop :=
  ∀ entry ∈ row, 0 ≤ entry.phvalue ∧ entry.phvalue ≤ 1

theorem UnitRow.updateRow {r : K} (rate : 0 ≤ r ∧ r ≤ 1) (next : NsAddr)
    (row : PheromoneMatrix K) (unit : UnitRow row) : UnitRow (Rtable.updateRow r next row) := by
  intro entry inRow
  obtain ⟨old, wasInRow, _, phvalue⟩ := Rtable.mem_updateRow inRow
  rw [phvalue]
  exact Roulette.reinforce_mem_unit rate.1 rate.2 (unit old wasInRow).1 (unit old wasInRow).2 _ _

/-- So do those of all rows, and the shared rate. -/
structure Net.UnitValued (net : Net K) : Prop where
  rate : 0 ≤ net.globals.r ∧ net.globals.r ≤ 1
  rows : ∀ node dest row, (net.agent node).rtable dest = some row → UnitRow row

/-- A start adds values in the unit interval. -/
theorem Net.UnitValued.start {addr : NsAddr} (unitValued : net.UnitValued)
    (rate : 0 ≤ (net.agent addr).rFactor ∧ (net.agent addr).rFactor ≤ 1) :
    (net.finish addr ((net.call addr none [] [] 0).start sim)).UnitValued := by
  refine ⟨rate, fun node dest row known entry inRow => ?_⟩
  by_cases here : node = addr
  · subst here
    simp only [Net.finish, Function.update_self] at known
    have added := (net.call node none [] [] 0).initializeRtable_rtable sim dest
    rw [show ((net.call node none [] [] 0).initializeRtable sim).agent.rtable dest = some row from
      known] at added
    split at added
    · cases added
      rcases List.mem_append.mp inRow with earlier | fresh
      · cases old : (net.agent node).rtable dest with
        | none => simp [Net.call, old] at earlier
        | some before =>
            rw [show (net.call node none [] [] 0).agent.rtable dest = some before from old] at earlier
            exact unitValued.rows node dest before old entry earlier
      · obtain ⟨positive, atMost⟩ := Rtable.phvalue_freshRow fresh
        exact ⟨positive.le, atMost⟩
    · exact unitValued.rows node dest row added.symm entry inRow
  · simp only [Net.finish, Function.update_of_ne here] at known
    exact unitValued.rows node dest row known entry inRow

theorem unitValued_of_run
    (run : (network sim medium params).Run (Net.initial params) trace net)
    (rates : RatesUnit params trace) : net.UnitValued := by
  induction run with
  | refl => exact ⟨⟨le_rfl, zero_le_one⟩, by simp [Net.initial]⟩
  | @snoc middle last trace event before step inductionHypothesis =>
      have unitValued := inductionHypothesis fun node started =>
        rates node ((started_append node).mpr (.inl started))
      by_cases start : ∃ addr, event = .start addr
      · obtain ⟨addr, rfl⟩ := start
        cases step.2
        apply unitValued.start
        rw [((supplies_of_run before).configured addr).1]
        exact rates addr ((started_append addr).mpr (.inr rfl))
      · rw [not_exists] at start
        obtain ⟨sameRate, updated⟩ := Net.updated_of_exec step.2 start
        refine ⟨by rw [sameRate]; exact unitValued.rate, fun node => ?_⟩
        exact (updated node).invariant (UnitRow.updateRow unitValued.rate) (unitValued.rows node)

end Exact

end AntAodv
