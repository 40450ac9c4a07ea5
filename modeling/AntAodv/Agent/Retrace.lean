import AntAodv.Agent.Memory

/-!
# Turning an ant round and sending it home

What `create_backward_ant_pkt`, `update_table` and `backward_ant_pkt` do when
the node they run at has the neighbours in memory they look for.
-/

namespace AntAodv

/-- An ant turned round at `addr` and sent to `next`. -/
def turnedAnt {K : Type} (p : Packet K) (addr next : NsAddr) : Packet K :=
  { ant := { p.ant with pktSrc := p.ant.pktDst, pktDst := p.ant.pktSrc }
    cmn := { p.cmn with direction := .up, ptype := ptAnt, nextHop := next }
    ip := { p.ip with saddr := addr, daddr := next } }

/-- A backward ant sent on by `addr` to `next`. -/
def returnedAnt {K : Type} (p : Packet K) (addr next : NsAddr) : Packet K :=
  { p with
    cmn := { p.cmn with direction := .up, ptype := ptAnt, nextHop := next }
    ip := { p.ip with saddr := addr, daddr := next } }

/-- The search of `update_table` for `addr` stops, and not at the last slot. -/
def HdrAntPkt.Stops {K : Type} (ah : HdrAntPkt K) (addr : NsAddr) : Prop :=
  ∃ before next after,
    ah.pktMemory.map Memory.nodeAddr = before ++ addr :: next :: after ∧ addr ∉ before

namespace Call

variable {K : Type} {c : Call K} {p : Packet K}

theorem release_ok (held : c.held = some p) (op : Packet K → Op K) :
    c.release op = .ok { c with held := none, log := c.log ++ [op p] } := by
  rw [release, pkt_of_held held, ok_bind]

/-- The ant goes to the last node in memory but one. -/
theorem createBackwardAntPkt_ok (held : c.held = some p)
    (bounded : p.ant.pktMemSize ≤ p.ant.pktMemory.length)
    {before : List (Memory K)} {prev last : Memory K}
    (split : p.ant.live = before ++ [prev, last]) :
    c.createBackwardAntPkt = .ok { c with
      held := none
      log := c.log ++ [.createBackwardAntPkt,
        .handed (turnedAnt p c.agent.addr prev.nodeAddr)] } := by
  have size : p.ant.pktMemSize = before.length + 2 := by
    rw [← HdrAntPkt.length_live bounded, split]
    simp
  have slot : p.ant.read ((p.ant.pktMemSize : ℤ) - 2) = .ok prev := by
    have index : (p.ant.pktMemSize : ℤ) - 2 = (before.length : ℕ) := by omega
    rw [index]
    exact @HdrAntPkt.read_live K p.ant before [last] prev split
  have swapped : HdrAntPkt.read
      { p.ant with pktSrc := p.ant.pktDst, pktDst := p.ant.pktSrc }
      ((p.ant.pktMemSize : ℤ) - 2) = .ok prev := slot
  rw [createBackwardAntPkt, pkt_enter held]
  simp only [ok_bind, swapped, lift_ok, targetRecv]
  rw [release_ok rfl]
  simp [store, enter, turnedAnt]

/-- With fewer than two nodes in memory there is no node to go back to. -/
theorem createBackwardAntPkt_short (held : c.held = some p) (short : p.ant.pktMemSize < 2) :
    ∃ index, c.createBackwardAntPkt =
      .error ⟨.memoryIndex index, c.log ++ [.createBackwardAntPkt]⟩ := by
  have negative : (p.ant.pktMemSize : ℤ) - 2 < 0 := by omega
  refine ⟨some ((p.ant.pktMemSize : ℤ) - 2), ?_⟩
  rw [createBackwardAntPkt, pkt_enter held]
  simp only [ok_bind]
  rw [HdrAntPkt.read_negative negative]
  rfl

/-- The ant goes to the node before this one in memory. -/
theorem backwardAntPkt_ok (held : c.held = some p)
    (bounded : p.ant.pktMemSize ≤ p.ant.pktMemory.length)
    {before after : List (Memory K)} {prev here : Memory K}
    (split : p.ant.live = before ++ prev :: here :: after)
    (found : here.nodeAddr = c.agent.addr)
    (fresh : c.agent.addr ∉ after.map Memory.nodeAddr) :
    c.backwardAntPkt = .ok { c with
      held := none
      log := c.log ++ [.backwardAntPkt,
        .handed (returnedAnt p c.agent.addr prev.nodeAddr)] } := by
  have size : p.ant.pktMemSize = (before ++ [prev]).length + 1 + after.length := by
    rw [← HdrAntPkt.length_live bounded, split]
    simp only [List.length_append, List.length_cons, List.length_nil]
    omega
  have order : p.ant.live = (before ++ [prev]) ++ here :: after := by simpa using split
  have scan := HdrAntPkt.scanDown_found order fresh found
  rw [← size] at scan
  have slot : p.ant.read (((before ++ [prev]).length : ℤ) - 1) = .ok prev := by
    have index : ((before ++ [prev]).length : ℤ) - 1 = (before.length : ℕ) := by simp
    rw [index]
    exact HdrAntPkt.read_live split
  rw [backwardAntPkt, pkt_enter held]
  simp only [ok_bind]
  rw [enter_agent, scan]
  simp only [lift_ok, ok_bind, slot, targetRecv]
  rw [release_ok rfl]
  simp [store, enter, returnedAnt]

variable [Arithmetic K]

/-- The calls of `rtable_.update` for `dests` in turn. -/
def updates (c : Call K) (next : NsAddr) (dests : List NsAddr) : Call K :=
  { c with
    agent := { c.agent with
      rtable := dests.foldl (fun rt dest => Rtable.update c.globals.r rt dest next)
        c.agent.rtable }
    log := c.log ++ dests.map (Op.update · next) }

theorem updateFrom_ok {ah : HdrAntPkt K} {before rest : List (Memory K)}
    (split : ah.live = before ++ rest) (c : Call K) (next : NsAddr) :
    updateFrom ah next before.length rest.length c =
      .ok (c.updates next (rest.map Memory.nodeAddr)) := by
  induction rest generalizing before c with
  | nil => simp [updateFrom, updates]
  | cons entry rest inductionHypothesis =>
      have further : ah.live = (before ++ [entry]) ++ rest := by simpa using split
      have remaining := inductionHypothesis further (c.rtableUpdate entry.nodeAddr next)
      simp only [List.length_append, List.length_singleton] at remaining
      rw [List.length_cons, updateFrom, HdrAntPkt.read_live split, lift_ok, ok_bind, remaining]
      simp [updates, rtableUpdate]

/-- The call after `update_table` has updated the rows of `dests` towards
`next`. -/
def tableUpdated (sim : Sim) (c : Call K) (next : NsAddr) (dests : List NsAddr) : Call K :=
  { c with
    agent := { c.agent with
      rtable := dests.foldl (fun rt dest => Rtable.update c.globals.r rt dest next)
        c.agent.rtable }
    globals := { c.globals with n := sim.getNumNeighbors c.agent.addr }
    log := c.log ++ .updateTable :: dests.map (Op.update · next) }

/-- Every node behind this one in memory is a destination reached over the node
next to this one. -/
theorem updateTable_ok (sim : Sim) (held : c.held = some p)
    (bounded : p.ant.pktMemSize ≤ p.ant.pktMemory.length)
    {before after : List (Memory K)} {here next : Memory K}
    (split : p.ant.live = before ++ here :: next :: after)
    (fresh : c.agent.addr ∉ before.map Memory.nodeAddr)
    (found : here.nodeAddr = c.agent.addr) :
    c.updateTable sim =
      .ok (c.tableUpdated sim next.nodeAddr ((next :: after).map Memory.nodeAddr)) := by
  have order : p.ant.live = (before ++ [here]) ++ next :: after := by simpa using split
  have scan : HdrAntPkt.scanUnbounded c.agent.addr 0 p.ant.pktMemory = .ok before.length := by
    rw [HdrAntPkt.pktMemory_eq, split, List.append_assoc, List.cons_append,
      HdrAntPkt.scanUnbounded_found fresh found, Nat.zero_add]
  have slot : p.ant.read ((before.length + 1 : ℕ) : ℤ) = .ok next := by
    simpa using HdrAntPkt.read_live order
  have count : p.ant.pktMemSize - (before.length + 1) = (next :: after).length := by
    rw [← HdrAntPkt.length_live bounded, split]
    simp only [List.length_append, List.length_cons]
    omega
  rw [updateTable, pkt_enter held]
  simp only [ok_bind]
  rw [enter_agent, scan]
  simp only [lift_ok, ok_bind, slot, count]
  have run := fun c : Call K => updateFrom_ok order c next.nodeAddr
  simp only [List.length_append, List.length_singleton] at run
  rw [run]
  simp [updates, tableUpdated, enter]

/-! ### Packets of any contents -/

/-- The updates for any number of live slots return. -/
theorem exists_updateFrom {ah : HdrAntPkt K} (bounded : ah.pktMemSize ≤ ah.pktMemory.length)
    (c : Call K) (next : NsAddr) (index : ℕ) :
    ∃ dests, updateFrom ah next index (ah.pktMemSize - index) c = .ok (c.updates next dests) := by
  by_cases inside : index ≤ ah.pktMemSize
  · have length := HdrAntPkt.length_live bounded
    have run := updateFrom_ok (List.take_append_drop index ah.live).symm c next
    rw [List.length_take, List.length_drop, length, min_eq_left inside] at run
    exact ⟨_, run⟩
  · rw [Nat.sub_eq_zero_of_le (le_of_not_ge inside)]
    exact ⟨[], by simp [updateFrom, updates]⟩

/-- `update_table` returns exactly when its search stops in front of the last
slot. -/
theorem updateTable_cases (sim : Sim) (held : c.held = some p)
    (bounded : p.ant.pktMemSize ≤ p.ant.pktMemory.length) :
    (p.ant.Stops c.agent.addr ∧ ∃ next dests,
        c.updateTable sim = .ok (c.tableUpdated sim next dests)) ∨
      (¬ p.ant.Stops c.agent.addr ∧ ∃ index,
        c.updateTable sim = .error ⟨.memoryIndex index, c.log ++ [.updateTable]⟩) := by
  rw [updateTable, pkt_enter held]
  simp only [ok_bind]
  rw [enter_agent]
  by_cases found : c.agent.addr ∈ p.ant.pktMemory.map Memory.nodeAddr
  · obtain ⟨before, here, after, split, fresh, isHere⟩ := HdrAntPkt.exists_first_slot found
    have slots : p.ant.pktMemory.map Memory.nodeAddr =
        before.map Memory.nodeAddr ++ c.agent.addr :: after.map Memory.nodeAddr := by
      rw [split, List.map_append, List.map_cons, isHere]
    have scan := HdrAntPkt.scanUnbounded_found fresh isHere after 0
    rw [← split, Nat.zero_add] at scan
    rw [scan, lift_ok, ok_bind]
    cases after with
    | nil =>
        apply Or.inr
        refine ⟨?_, some ((before.length + 1 : ℕ) : ℤ), ?_⟩
        · rintro ⟨early, next, late, order, first⟩
          -- both searches stop at the first slot of the address
          have place := congrArg (List.idxOf c.agent.addr) (slots.symm.trans order)
          have length := congrArg List.length (slots.symm.trans order)
          rw [List.idxOf_append_of_notMem fresh, List.idxOf_append_of_notMem first,
            List.idxOf_cons_self, List.idxOf_cons_self] at place
          simp only [List.map_nil, List.length_append, List.length_cons, List.length_nil] at length place
          omega
        · rw [HdrAntPkt.read_outside (by rw [split]; simp)]
          rfl
    | cons next after =>
        have slot : p.ant.read ((before.length + 1 : ℕ) : ℤ) = .ok next :=
          HdrAntPkt.read_natCast (by rw [split]; simp)
        rw [slot, lift_ok, ok_bind]
        apply Or.inl
        refine ⟨⟨_, next.nodeAddr, after.map Memory.nodeAddr, ?_, fresh⟩, next.nodeAddr, ?_⟩
        · rw [slots, List.map_cons]
        · obtain ⟨dests, run⟩ := exists_updateFrom bounded
            { c.enter .updateTable with
              globals := { c.globals with n := sim.getNumNeighbors c.agent.addr } }
            next.nodeAddr (before.length + 1)
          refine ⟨dests, run.trans ?_⟩
          simp [updates, tableUpdated, enter]
  · apply Or.inr
    refine ⟨?_, some ((0 + p.ant.pktMemory.length : ℕ) : ℤ), ?_⟩
    · rintro ⟨early, next, late, order, _⟩
      apply found
      rw [order]
      simp
    · rw [HdrAntPkt.scanUnbounded_absent found]
      rfl

omit [Arithmetic K] in
/-- `backward_ant_pkt` returns exactly when the node is in memory and not the
first there. -/
theorem backwardAntPkt_cases (held : c.held = some p)
    (bounded : p.ant.pktMemSize ≤ p.ant.pktMemory.length) (distinct : p.ant.path.Nodup) :
    ((c.agent.addr ∈ p.ant.path ∧ p.ant.path.head? ≠ some c.agent.addr) ∧ ∃ prev,
        c.backwardAntPkt = .ok { c with
          held := none
          log := c.log ++ [.backwardAntPkt, .handed (returnedAnt p c.agent.addr prev)] }) ∨
      (¬ (c.agent.addr ∈ p.ant.path ∧ p.ant.path.head? ≠ some c.agent.addr) ∧ ∃ index,
        c.backwardAntPkt = .error ⟨.memoryIndex index, c.log ++ [.backwardAntPkt]⟩) := by
  by_cases found : c.agent.addr ∈ p.ant.path
  · obtain ⟨before, here, after, split, fresh, isHere⟩ := HdrAntPkt.exists_first_slot found
    have path : p.ant.path =
        before.map Memory.nodeAddr ++ c.agent.addr :: after.map Memory.nodeAddr := by
      rw [HdrAntPkt.path, split, List.map_append, List.map_cons, isHere]
    have apart := distinct
    rw [path] at apart
    have behind : c.agent.addr ∉ after.map Memory.nodeAddr :=
      (List.nodup_cons.mp (List.nodup_append.mp apart).2.1).1
    rcases List.eq_nil_or_concat before with rfl | ⟨early, prev, rfl⟩
    · apply Or.inr
      refine ⟨fun inside => inside.2 (by rw [path]; rfl), some (-1), ?_⟩
      have scan := HdrAntPkt.scanDown_found split behind isHere
      have size : ([] : List (Memory K)).length + 1 + after.length = p.ant.pktMemSize := by
        rw [← HdrAntPkt.length_live bounded, split]
        simp [Nat.add_comm]
      rw [size] at scan
      rw [backwardAntPkt, pkt_enter held]
      simp only [ok_bind]
      rw [enter_agent, scan]
      rfl
    · apply Or.inl
      refine ⟨⟨found, ?_⟩, prev.nodeAddr, ?_⟩
      · rw [path]
        intro head
        rw [List.head?_append_of_ne_nil _ (by simp)] at head
        apply fresh
        exact List.mem_of_head? head
      · exact backwardAntPkt_ok held bounded (by simpa using split) isHere behind
  · apply Or.inr
    refine ⟨fun inside => found inside.1, none, ?_⟩
    rw [backwardAntPkt, pkt_enter held]
    simp only [ok_bind]
    rw [enter_agent,
      HdrAntPkt.scanDown_absent bounded found]
    rfl

end Call

end AntAodv
