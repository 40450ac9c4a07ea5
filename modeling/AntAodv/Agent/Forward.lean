import AntAodv.Agent.Memory

/-!
# Sending and forwarding ants

What calls of `send_ant_pkt` and `forward_ant_pkt` that return have done.
-/

namespace AntAodv

/-- The address a call of `calc_next` yields to its caller, `junk` standing for
the value of a call that runs off its end. -/
def NextHop.value (junk : NsAddr) : NextHop → Option NsAddr
  | .ret next => some next
  | .offEnd => some junk
  | .looping => none

/-- A packet sent on by `addr` towards `next`. -/
def forwardedAnt {K : Type} (p : Packet K) (addr next : NsAddr) : Packet K :=
  { p with
    cmn := { p.cmn with nextHop := next }
    ip := { p.ip with saddr := addr, daddr := next } }

/-- A packet that the agent of `addr` treats as an ant. -/
structure Packet.IsAntFor {K : Type} (p : Packet K) (addr : NsAddr) : Prop where
  foreign : p.ip.saddr ≠ addr
  type : p.cmn.ptype = ptAnt
  sport : p.ip.sport = rtPort
  dport : p.ip.dport = rtPort

namespace Call

variable {K : Type} [Arithmetic K]

/-- The forward ant `send_ant_pkt` builds for `dest`, before a next hop is
chosen. -/
def newAnt (sim : Sim) (c : Call K) (dest : NsAddr) : Packet K :=
  let p : Packet K := Packet.alloc sim.slots
  { ant := { p.ant with
      pktType := forwardAnt
      pktSrc := c.agent.addr
      pktDst := dest
      pktLen := antSize
      pktSeqNum := c.agent.antSeqNum
      pktStartTime := c.now
      pktMemory := p.ant.pktMemory.set 0 ⟨c.agent.addr, 0⟩
      pktMemSize := 1 }
    cmn := { p.cmn with
      uid := c.uidcnt
      ptype := ptAnt
      direction := .down
      size := sim.ipHdrLen + antSize.toNat
      error := 0
      addrType := nsAfInet }
    ip := { p.ip with sport := rtPort, dport := rtPort } }

/-- That ant, addressed to `next`. -/
def sentAnt (sim : Sim) (c : Call K) (dest next : NsAddr) : Packet K :=
  let p := c.newAnt sim dest
  { p with
    cmn := { p.cmn with nextHop := next }
    ip := { p.ip with
      saddr := c.agent.addr
      daddr := next
      ttl := 2 * c.globals.numNodes } }

/-- A destination chosen is a draw other than the source. -/
theorem calcDestination_some {sim : Sim} {numNodes : ℤ} {source dest : NsAddr} {raws : List ℕ}
    (result : Rtable.calcDestination sim numNodes source raws = some dest) :
    dest ≠ source ∧ ∃ raw, sim.uniform raw numNodes = dest := by
  induction raws with
  | nil => simp [Rtable.calcDestination] at result
  | cons raw raws inductionHypothesis =>
      rw [Rtable.calcDestination] at result
      split at result
      next => exact inductionHypothesis result
      next different =>
        cases result
        exact ⟨different, raw, rfl⟩

theorem calcDestination_ne {sim : Sim} {numNodes : ℤ} {source dest : NsAddr} {raws : List ℕ}
    (result : Rtable.calcDestination sim numNodes source raws = some dest) :
    dest ≠ source :=
  (calcDestination_some result).1

theorem calcDestination_range {sim : Sim} {numNodes : ℤ} {source dest : NsAddr}
    {raws : List ℕ} (positive : 0 < numNodes)
    (result : Rtable.calcDestination sim numNodes source raws = some dest) :
    0 ≤ dest ∧ dest < numNodes := by
  obtain ⟨_, raw, rfl⟩ := calcDestination_some result
  exact sim.uniform_range raw numNodes positive

variable [LinearOrder K] {sim : Sim} {c c' : Call K}

/-- What a returned call of `calc_next` yields. -/
theorem calcNext_ok {dest parent next : NsAddr}
    (returned : c.calcNext sim dest parent = .ok (next, c')) :
    NextHop.value c.junk (Rtable.calcNext sim c.globals.n c.agent.rtable c.agent.addr
        dest parent c.draws) = some next ∧
      c' = c.enter (.calcNext dest parent (Rtable.calcNext sim c.globals.n c.agent.rtable
        c.agent.addr dest parent c.draws)) := by
  rw [calcNext] at returned
  cases result : Rtable.calcNext sim c.globals.n c.agent.rtable c.agent.addr dest parent
      c.draws with
  | ret value =>
      simp only [result, Except.ok.injEq, Prod.mk.injEq] at returned
      exact ⟨by rw [← returned.1]; rfl, returned.2.symm⟩
  | offEnd =>
      simp only [result, Except.ok.injEq, Prod.mk.injEq] at returned
      exact ⟨by rw [← returned.1]; rfl, returned.2.symm⟩
  | looping => simp [result, fail] at returned

/-- A returned `send_ant_pkt` has chosen a destination and a next hop, and has
either freed the new ant or handed it to the target. -/
theorem sendAntPkt_cases (sent : c.sendAntPkt sim = .ok c') :
    ∃ dest next, 0 < sim.slots ∧
      Rtable.calcDestination sim c.globals.numNodes c.agent.addr c.raws = some dest ∧
      NextHop.value c.junk (Rtable.calcNext sim c.globals.n c.agent.rtable c.agent.addr
        dest c.agent.addr c.draws) = some next ∧
      c' = { c with
        agent := { c.agent with antSeqNum := c.agent.antSeqNum + 1 }
        uidcnt := c.uidcnt + 1
        held := none
        log := c.log ++ [.calcDestination dest,
          .calcNext dest c.agent.addr (Rtable.calcNext sim c.globals.n c.agent.rtable
            c.agent.addr dest c.agent.addr c.draws),
          if next = c.agent.addr then .freed (c.newAnt sim dest)
          else .handed (c.sentAnt sim dest next)] } := by
  rw [sendAntPkt] at sent
  simp only [allocpkt] at sent
  cases chosen : Rtable.calcDestination sim c.globals.numNodes c.agent.addr c.raws with
  | none => simp [chosen, fail] at sent
  | some dest =>
      simp only [chosen] at sent
      by_cases room : 0 < sim.slots
      · rw [HdrAntPkt.write_ok (by simpa [Packet.alloc] using room), lift_ok, ok_bind] at sent
        obtain ⟨⟨next, after⟩, called, sent⟩ := bind_eq_ok sent
        obtain ⟨value, rfl⟩ := calcNext_ok called
        refine ⟨dest, next, room, rfl, value, ?_⟩
        simp only at sent
        split at sent
        · rename_i same
          simp only [free, release, pkt, store, enter, ok_bind, Except.ok.injEq] at sent
          rw [← sent]
          simp [same, newAnt]
        · rename_i different
          simp only [targetRecv, release, pkt, store, enter, ok_bind, Except.ok.injEq] at sent
          rw [← sent]
          simp [different, newAnt, sentAnt]
      · rw [HdrAntPkt.write_error (by simpa [Packet.alloc] using room), lift_error,
          error_bind] at sent
        cases sent

/-- A returned `forward_ant_pkt` has freed the ant or sent it on. -/
theorem forwardAntPkt_cases {p : Packet K} (held : c.held = some p)
    (forwarded : c.forwardAntPkt sim = .ok c') :
    ∃ next, NextHop.value c.junk (Rtable.calcNext sim c.globals.n c.agent.rtable c.agent.addr
        p.ant.pktDst p.ip.saddr c.draws) = some next ∧
      c' = { c with
        held := none
        log := c.log ++ [.forwardAntPkt,
          .calcNext p.ant.pktDst p.ip.saddr (Rtable.calcNext sim c.globals.n c.agent.rtable
            c.agent.addr p.ant.pktDst p.ip.saddr c.draws),
          if next = c.agent.addr ∨ next = p.ip.saddr then .freed p
          else .handed (forwardedAnt p c.agent.addr next)] } := by
  rw [forwardAntPkt, pkt_enter held] at forwarded
  simp only [ok_bind] at forwarded
  obtain ⟨⟨next, after⟩, called, forwarded⟩ := bind_eq_ok forwarded
  obtain ⟨value, rfl⟩ := calcNext_ok called
  refine ⟨next, value, ?_⟩
  by_cases dead : next = c.agent.addr ∨ next = p.ip.saddr
  · simp only [enter, dead, if_true, free, release, pkt, held, ok_bind,
      Except.ok.injEq] at forwarded
    rw [← forwarded, if_pos dead]
    simp
  · simp only [enter, dead, if_false, targetRecv, release, pkt, held, store, ok_bind,
      Except.ok.injEq] at forwarded
    rw [← forwarded, if_neg dead]
    simp [forwardedAnt]

/-- What a returned `recv` has done with the packet `p`, whatever its headers are. -/
inductive Handling (sim : Sim) (c : Call K) (p : Packet K) (c' : Call K) : Prop
  | ignored (own : p.ip.saddr = c.agent.addr) (first : ¬ p.cmn.numForwards > 0) (same : c' = c)
  | dropped
      (unwanted : (p.ip.saddr = c.agent.addr ∧ p.cmn.numForwards > 0) ∨
        (p.ip.saddr ≠ c.agent.addr ∧ p.cmn.ptype ≠ ptAnt))
      (done : c.drop = .ok c')
  | undirected (isAnt : p.IsAntFor c.agent.addr) (none : p.cmn.direction = .none) (same : c' = c)
  | turned (isAnt : p.IsAntFor c.agent.addr) (down : p.cmn.direction = .down)
      (arrived : c.agent.addr = p.ant.pktDst)
      (done : (c.memorize >>= createBackwardAntPkt) = .ok c')
  | forwarded (isAnt : p.IsAntFor c.agent.addr) (down : p.cmn.direction = .down)
      (underway : c.agent.addr ≠ p.ant.pktDst)
      (done : (c.memorize >>= forwardAntPkt sim) = .ok c')
  | home (isAnt : p.IsAntFor c.agent.addr) (up : p.cmn.direction = .up)
      (arrived : c.agent.addr = p.ant.pktDst) (done : (c.updateTable sim >>= free) = .ok c')
  | back (isAnt : p.IsAntFor c.agent.addr) (up : p.cmn.direction = .up)
      (underway : c.agent.addr ≠ p.ant.pktDst)
      (done : (c.updateTable sim >>= backwardAntPkt) = .ok c')

theorem recv_handling {p : Packet K} (held : c.held = some p) (received : c.recv sim = .ok c') :
    Handling sim c p c' := by
  rw [recv, pkt_of_held held, ok_bind] at received
  by_cases own : p.ip.saddr = c.agent.addr
  · rw [if_pos own] at received
    by_cases loop : p.cmn.numForwards > 0
    · rw [if_pos loop] at received
      exact .dropped (.inl ⟨own, loop⟩) received
    · rw [if_neg loop] at received
      cases received
      exact .ignored own loop rfl
  · rw [if_neg own] at received
    by_cases type : p.cmn.ptype = ptAnt
    · rw [if_pos type, recvAntPkt, pkt_of_held held, ok_bind] at received
      by_cases sport : p.ip.sport = rtPort
      · by_cases dport : p.ip.dport = rtPort
        · have isAnt : p.IsAntFor c.agent.addr := ⟨own, type, sport, dport⟩
          rw [if_neg (not_not.mpr sport), if_neg (not_not.mpr dport)] at received
          cases direction : p.cmn.direction with
          | down =>
              rw [direction] at received
              by_cases arrived : c.agent.addr = p.ant.pktDst
              · exact .turned isAnt direction arrived ((if_pos arrived).symm.trans received)
              · exact .forwarded isAnt direction arrived ((if_neg arrived).symm.trans received)
          | up =>
              rw [direction] at received
              by_cases arrived : c.agent.addr = p.ant.pktDst
              · exact .home isAnt direction arrived ((if_pos arrived).symm.trans received)
              · exact .back isAnt direction arrived ((if_neg arrived).symm.trans received)
          | none =>
              rw [direction] at received
              cases received
              exact .undirected isAnt direction rfl
        · rw [if_neg (not_not.mpr sport), if_pos dport] at received
          cases received
      · rw [if_pos sport] at received
        cases received
    · rw [if_neg type] at received
      exact .dropped (.inr ⟨own, type⟩) received

/-! ### Calls that do not return -/

theorem calcNext_error {dest parent : NsAddr} {failure : Failure K}
    (failed : c.calcNext sim dest parent = .error failure) :
    Rtable.calcNext sim c.globals.n c.agent.rtable c.agent.addr dest parent c.draws = .looping ∧
      failure = ⟨.looping, c.log ++ [.calcNext dest parent .looping]⟩ := by
  rw [calcNext] at failed
  cases result : Rtable.calcNext sim c.globals.n c.agent.rtable c.agent.addr dest parent
      c.draws with
  | ret value => simp [result] at failed
  | offEnd => simp [result] at failed
  | looping =>
      simp only [result, fail, enter, Except.error.injEq] at failed
      exact ⟨rfl, failed.symm⟩

/-- How a `send_ant_pkt` that does not return fails. -/
inductive Stalled (sim : Sim) (c : Call K) : Failure K → Prop where
  | noDestination : Stalled sim c ⟨.looping, c.log⟩
  | noSlot {dest : NsAddr} :
      ¬ 0 < sim.slots →
      Stalled sim c ⟨.memoryIndex (some 0), c.log ++ [.calcDestination dest]⟩
  | noDraw {dest : NsAddr} :
      Rtable.calcDestination sim c.globals.numNodes c.agent.addr c.raws = some dest →
      Rtable.calcNext sim c.globals.n c.agent.rtable c.agent.addr dest c.agent.addr c.draws =
        .looping →
      Stalled sim c ⟨.looping,
        c.log ++ [.calcDestination dest, .calcNext dest c.agent.addr .looping]⟩

theorem sendAntPkt_error {failure : Failure K} (failed : c.sendAntPkt sim = .error failure) :
    Stalled sim c failure := by
  rw [sendAntPkt] at failed
  simp only [allocpkt] at failed
  cases chosen : Rtable.calcDestination sim c.globals.numNodes c.agent.addr c.raws with
  | none =>
      simp only [chosen, fail, Except.error.injEq] at failed
      exact failed ▸ .noDestination
  | some dest =>
      simp only [chosen] at failed
      by_cases room : 0 < sim.slots
      · rw [HdrAntPkt.write_ok (by simpa [Packet.alloc] using room), lift_ok, ok_bind] at failed
        rcases bind_eq_error failed with called | ⟨⟨next, after⟩, called, failed⟩
        · obtain ⟨looping, rfl⟩ := calcNext_error called
          have stalled : Stalled sim c _ := .noDraw chosen looping
          simpa [store, enter] using stalled
        · obtain ⟨_, rfl⟩ := calcNext_ok called
          simp only at failed
          split at failed
          · simp [free, release, pkt, store, enter] at failed
          · simp [targetRecv, release, pkt, store, enter] at failed
      · rw [HdrAntPkt.write_error (by simpa [Packet.alloc] using room), lift_error,
          error_bind] at failed
        cases failed
        exact .noSlot room

theorem forwardAntPkt_error {p : Packet K} (held : c.held = some p) {failure : Failure K}
    (failed : c.forwardAntPkt sim = .error failure) :
    Rtable.calcNext sim c.globals.n c.agent.rtable c.agent.addr p.ant.pktDst p.ip.saddr c.draws =
        .looping ∧
      failure = ⟨.looping,
        c.log ++ [.forwardAntPkt, .calcNext p.ant.pktDst p.ip.saddr .looping]⟩ := by
  rw [forwardAntPkt, pkt_enter held] at failed
  simp only [ok_bind] at failed
  rcases bind_eq_error failed with called | ⟨⟨next, after⟩, called, failed⟩
  · obtain ⟨looping, rfl⟩ := calcNext_error called
    exact ⟨looping, by simp [enter]⟩
  · obtain ⟨_, rfl⟩ := calcNext_ok called
    split at failed
    · simp [enter, free, release, pkt, held] at failed
    · simp [enter, targetRecv, release, pkt, held, store] at failed

end Call

end AntAodv
