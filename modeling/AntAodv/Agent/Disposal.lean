import AntAodv.Agent.Forward
import AntAodv.Agent.Retrace

/-!
# What becomes of a received packet

A call disposes of its packet by handing it to the target, freeing it or dropping
it.  Whether it does so depends on the packet and the address of the agent, and for a
forward ant under way on whether the loop of `calc_next` ends.
-/

namespace AntAodv

variable {K : Type}

/-- The call has returned, has given its packet away once and holds it no longer. -/
def DisposedOnce : Except (Failure K) (Call K) → Prop
  | .ok c => c.held = none ∧ c.log.countP Op.isDisposal = 1
  | .error _ => False

/-- The call has rejected all draws given to it, and has not given its packet away. -/
def StillDrawing : Except (Failure K) (Call K) → Prop
  | .ok _ => False
  | .error failure => failure.fault = .looping ∧ failure.log.countP Op.isDisposal = 0

/-- A foreign ant whose handlers find in memory what they look for. -/
def Packet.Handled (p : Packet K) (addr : NsAddr) : Prop :=
  p.ip.sport = rtPort ∧ p.ip.dport = rtPort ∧
    match p.cmn.direction with
    | .down => (addr ∈ p.ant.path ∨ p.ant.pktMemSize < p.ant.pktMemory.length) ∧
        (addr = p.ant.pktDst → p.ant.path.head? ≠ some addr)
    | .up => p.ant.Stops addr ∧
        (addr = p.ant.pktDst ∨ addr ∈ p.ant.path ∧ p.ant.path.head? ≠ some addr)
    | .none => False

/-- The packets an agent disposes of: of those it sent itself only the ones that were
forwarded before, and of the ants of others those it can handle. -/
def Packet.Disposable (p : Packet K) (addr : NsAddr) : Prop :=
  (p.ip.saddr = addr → 0 < p.cmn.numForwards) ∧
    (p.ip.saddr ≠ addr → p.cmn.ptype = ptAnt → p.Handled addr)

/-- A forward ant that the agent has to choose a next hop for. -/
structure Packet.Underway (p : Packet K) (addr : NsAddr) : Prop where
  isAnt : p.IsAntFor addr
  down : p.cmn.direction = .down
  underway : addr ≠ p.ant.pktDst

/-- What every ant memory in a network keeps. -/
structure HdrAntPkt.Sound (ah : HdrAntPkt K) : Prop where
  bounded : ah.pktMemSize ≤ ah.pktMemory.length
  nonempty : ah.path ≠ []
  distinct : ah.path.Nodup

theorem HdrAntPkt.exists_last_two {ah : HdrAntPkt K} (bounded : ah.pktMemSize ≤ ah.pktMemory.length)
    (long : 2 ≤ ah.pktMemSize) : ∃ before prev last, ah.live = before ++ [prev, last] := by
  have length := HdrAntPkt.length_live bounded
  rcases List.eq_nil_or_concat ah.live with empty | ⟨front, last, live⟩
  · simp only [empty, List.length_nil] at length
    omega
  · rcases List.eq_nil_or_concat front with rfl | ⟨before, prev, rfl⟩
    · simp only [live, List.concat_eq_append, List.nil_append, List.length_singleton] at length
      omega
    · exact ⟨before, prev, last, by simp [live]⟩

variable {c : Call K} {p : Packet K}

theorem not_disposedOnce_error (failure : Failure K) : ¬ DisposedOnce (.error failure) := id

theorem disposedOnce_release (held : c.held = some p) (op : Packet K → Op K)
    (gives : (op p).isDisposal = true) (kept : c.log.countP Op.isDisposal = 0) :
    DisposedOnce (c.release op) := by
  rw [Call.release_ok held]
  exact ⟨rfl, by simp [List.countP_append, kept, gives]⟩

theorem Packet.Underway.disposable_iff {addr : NsAddr} (underway : p.Underway addr) :
    p.Disposable addr ↔ addr ∈ p.ant.path ∨ p.ant.pktMemSize < p.ant.pktMemory.length := by
  obtain ⟨⟨foreign, type, sport, dport⟩, down, elsewhere⟩ := underway
  simp [Packet.Disposable, Packet.Handled, foreign, type, sport, dport, down, elsewhere]

variable [Arithmetic K] {sim : Sim}

/-- A forward ant at its destination is turned round unless the memory is full, or
is left with the destination alone. -/
theorem disposedOnce_turn (held : c.held = some p) (sound : p.ant.Sound)
    (quiet : c.log.countP Op.isDisposal = 0) :
    DisposedOnce (c.memorize >>= Call.createBackwardAntPkt) ↔
      (c.agent.addr ∈ p.ant.path ∨ p.ant.pktMemSize < p.ant.pktMemory.length) ∧
        p.ant.path.head? ≠ some c.agent.addr := by
  by_cases room : c.agent.addr ∈ p.ant.path ∨ p.ant.pktMemSize < p.ant.pktMemory.length
  · obtain ⟨ah, stored, memorized⟩ := Call.memorize_ok held sound.bounded room
    have length := HdrAntPkt.length_path memorized.bounded
    rw [stored, ok_bind, ← LoopErasure.two_le_length_visit_iff sound.nonempty,
      ← memorized.path, length]
    simp only [room, true_and]
    constructor
    · intro disposed
      by_contra short
      obtain ⟨index, failed⟩ := Call.createBackwardAntPkt_short
        (c := (c.enter .memorize).store { p with ant := ah }) rfl (not_le.mp short)
      rw [failed] at disposed
      exact not_disposedOnce_error _ disposed
    · intro long
      obtain ⟨before, prev, last, split⟩ := HdrAntPkt.exists_last_two memorized.bounded long
      rw [Call.createBackwardAntPkt_ok (c := (c.enter .memorize).store { p with ant := ah }) rfl
        memorized.bounded split]
      exact ⟨rfl, by simp [Call.store, Call.enter, List.countP_append, quiet, Op.isDisposal]⟩
  · have full : p.ant.pktMemSize = p.ant.pktMemory.length :=
      le_antisymm sound.bounded (not_lt.mp (not_or.mp room).2)
    rw [Call.memorize_full held full (not_or.mp room).1, error_bind]
    exact iff_of_false (not_disposedOnce_error _) fun disposed => room disposed.1

/-- An ant on its way back that has arrived is freed if `update_table` returns. -/
theorem disposedOnce_home (held : c.held = some p) (sound : p.ant.Sound)
    (quiet : c.log.countP Op.isDisposal = 0) :
    DisposedOnce (c.updateTable sim >>= Call.free) ↔ p.ant.Stops c.agent.addr := by
  rcases Call.updateTable_cases sim held sound.bounded with
    ⟨stops, next, dests, updated⟩ | ⟨runs, index, failed⟩
  · rw [updated, ok_bind]
    have still : (c.tableUpdated sim next dests).held = some p := held
    have freed := disposedOnce_release still .freed rfl
      (by simp [Call.tableUpdated, List.countP_append, quiet, Op.isDisposal])
    exact iff_of_true freed stops
  · rw [failed, error_bind]
    exact iff_of_false (not_disposedOnce_error _) runs

/-- Elsewhere it also needs a node before this one in memory. -/
theorem disposedOnce_back (held : c.held = some p) (sound : p.ant.Sound)
    (quiet : c.log.countP Op.isDisposal = 0) :
    DisposedOnce (c.updateTable sim >>= Call.backwardAntPkt) ↔ p.ant.Stops c.agent.addr ∧
      c.agent.addr ∈ p.ant.path ∧ p.ant.path.head? ≠ some c.agent.addr := by
  rcases Call.updateTable_cases sim held sound.bounded with
    ⟨stops, next, dests, updated⟩ | ⟨runs, index, failed⟩
  · rw [updated, ok_bind]
    rcases Call.backwardAntPkt_cases (c := c.tableUpdated sim next dests) held sound.bounded
        sound.distinct with ⟨inside, prev, sentBack⟩ | ⟨outside, index, failed⟩
    · rw [sentBack]
      refine iff_of_true ⟨rfl, ?_⟩ ⟨stops, inside⟩
      simp [Call.tableUpdated, List.countP_append, quiet, Op.isDisposal]
    · rw [failed]
      exact iff_of_false (not_disposedOnce_error _) fun disposed => outside disposed.2
  · rw [failed, error_bind]
    exact iff_of_false (not_disposedOnce_error _) fun disposed => runs disposed.1

variable [LinearOrder K]

/-- A forward ant under way is freed or sent on unless the memory is full or the draws
do not suffice. -/
theorem disposedOnce_forward (held : c.held = some p) (sound : p.ant.Sound)
    (quiet : c.log.countP Op.isDisposal = 0) :
    DisposedOnce (c.memorize >>= Call.forwardAntPkt sim) ↔
      (c.agent.addr ∈ p.ant.path ∨ p.ant.pktMemSize < p.ant.pktMemory.length) ∧
        Rtable.calcNext sim c.globals.n c.agent.rtable c.agent.addr p.ant.pktDst p.ip.saddr
          c.draws ≠ .looping := by
  by_cases room : c.agent.addr ∈ p.ant.path ∨ p.ant.pktMemSize < p.ant.pktMemory.length
  · obtain ⟨ah, stored, memorized⟩ := Call.memorize_ok held sound.bounded room
    have sameDst : ah.pktDst = p.ant.pktDst := by rw [memorized.header]
    rw [stored, ok_bind]
    cases outcome : ((c.enter .memorize).store { p with ant := ah }).forwardAntPkt sim with
    | ok c' =>
        obtain ⟨next, value, rfl⟩ := Call.forwardAntPkt_cases rfl outcome
        refine iff_of_true ⟨rfl, ?_⟩ ⟨room, fun looping => ?_⟩
        · split <;> simp [Call.store, Call.enter, List.countP_append, quiet, Op.isDisposal]
        · simp only [Call.store, Call.enter, sameDst] at value
          rw [looping] at value
          cases value
    | error failure =>
        obtain ⟨looping, rfl⟩ := Call.forwardAntPkt_error rfl outcome
        simp only [Call.store, Call.enter, sameDst] at looping
        exact iff_of_false (not_disposedOnce_error _) fun disposed => disposed.2 looping
  · have full : p.ant.pktMemSize = p.ant.pktMemory.length :=
      le_antisymm sound.bounded (not_lt.mp (not_or.mp room).2)
    rw [Call.memorize_full held full (not_or.mp room).1, error_bind]
    exact iff_of_false (not_disposedOnce_error _) fun disposed => room disposed.1

/-- If they do not, the ant is still there. -/
theorem stillDrawing_forward (held : c.held = some p) (sound : p.ant.Sound)
    (quiet : c.log.countP Op.isDisposal = 0)
    (room : c.agent.addr ∈ p.ant.path ∨ p.ant.pktMemSize < p.ant.pktMemory.length)
    (looping : Rtable.calcNext sim c.globals.n c.agent.rtable c.agent.addr p.ant.pktDst
      p.ip.saddr c.draws = .looping) :
    StillDrawing (c.memorize >>= Call.forwardAntPkt sim) := by
  obtain ⟨ah, stored, memorized⟩ := Call.memorize_ok held sound.bounded room
  rw [stored, ok_bind]
  cases outcome : ((c.enter .memorize).store { p with ant := ah }).forwardAntPkt sim with
  | ok c' =>
      obtain ⟨next, value, rfl⟩ := Call.forwardAntPkt_cases rfl outcome
      have sameDst : ah.pktDst = p.ant.pktDst := by rw [memorized.header]
      simp only [Call.store, Call.enter, sameDst] at value
      rw [looping] at value
      cases value
  | error failure =>
      obtain ⟨_, rfl⟩ := Call.forwardAntPkt_error rfl outcome
      exact ⟨rfl, by simp [Call.store, Call.enter, List.countP_append, quiet, Op.isDisposal]⟩

theorem Call.recv_underway (held : c.held = some p) (underway : p.Underway c.agent.addr) :
    c.recv sim = c.memorize >>= Call.forwardAntPkt sim := by
  obtain ⟨⟨foreign, type, sport, dport⟩, down, elsewhere⟩ := underway
  rw [Call.recv, Call.pkt_of_held held, ok_bind, if_neg foreign, if_pos type, Call.recvAntPkt,
    Call.pkt_of_held held, ok_bind, if_neg (not_not.mpr sport), if_neg (not_not.mpr dport), down]
  exact if_neg elsewhere

theorem disposedOnce_recvAntPkt_iff (held : c.held = some p) (sound : p.ant.Sound)
    (quiet : c.log.countP Op.isDisposal = 0)
    (arrived : p.ip.sport = rtPort → p.ip.dport = rtPort → p.cmn.direction = .down →
      c.agent.addr = p.ant.pktDst) :
    DisposedOnce (c.recvAntPkt sim) ↔ p.Handled c.agent.addr := by
  rw [Call.recvAntPkt, Call.pkt_of_held held, ok_bind, Packet.Handled]
  by_cases sport : p.ip.sport = rtPort
  · by_cases dport : p.ip.dport = rtPort
    · rw [if_neg (not_not.mpr sport), if_neg (not_not.mpr dport)]
      simp only [sport, dport, true_and]
      cases direction : p.cmn.direction with
      | down =>
          have here := arrived sport dport direction
          simp only
          rw [if_pos here, disposedOnce_turn held sound quiet]
          simp [here]
      | up =>
          simp only
          by_cases arrived : c.agent.addr = p.ant.pktDst
          · rw [if_pos arrived, disposedOnce_home held sound quiet]
            simp [arrived]
          · rw [if_neg arrived, disposedOnce_back held sound quiet]
            simp [arrived]
      | none => exact iff_of_false (fun disposed => by simp [disposed.1] at held) id
    · rw [if_neg (not_not.mpr sport), if_pos dport]
      exact iff_of_false (not_disposedOnce_error _) fun handled => dport handled.2.1
  · rw [if_pos sport]
    exact iff_of_false (not_disposedOnce_error _) fun handled => sport handled.1

/-- Receiving a packet disposes of it exactly once if and only if the agent can
dispose of it at all and the draws suffice. -/
theorem disposedOnce_recv_iff (held : c.held = some p)
    (sound : p.cmn.ptype = ptAnt → p.ant.Sound) (quiet : c.log.countP Op.isDisposal = 0) :
    DisposedOnce (c.recv sim) ↔ p.Disposable c.agent.addr ∧
      (p.Underway c.agent.addr → Rtable.calcNext sim c.globals.n c.agent.rtable c.agent.addr
        p.ant.pktDst p.ip.saddr c.draws ≠ .looping) := by
  by_cases underway : p.Underway c.agent.addr
  · rw [Call.recv_underway held underway, disposedOnce_forward held (sound underway.isAnt.type) quiet,
      underway.disposable_iff]
    simp [underway]
  · simp only [underway, false_imp_iff, and_true]
    rw [Call.recv, Call.pkt_of_held held, ok_bind, Packet.Disposable]
    by_cases own : p.ip.saddr = c.agent.addr
    · simp only [own, if_true, true_imp_iff, ne_eq, not_true_eq_false, false_imp_iff, and_true]
      by_cases loop : p.cmn.numForwards > 0
      · rw [if_pos loop]
        exact iff_of_true (disposedOnce_release held .dropped rfl quiet) loop
      · rw [if_neg loop]
        exact iff_of_false (fun disposed => by simp [disposed.1] at held) loop
    · simp only [own, if_false, false_imp_iff, ne_eq, not_false_eq_true, true_imp_iff, true_and]
      by_cases isAnt : p.cmn.ptype = ptAnt
      · simp only [isAnt, if_true, true_imp_iff]
        apply disposedOnce_recvAntPkt_iff held (sound isAnt) quiet
        intro sport dport down
        by_contra elsewhere
        exact underway ⟨⟨own, isAnt, sport, dport⟩, down, elsewhere⟩
      · simp only [isAnt, if_false, false_imp_iff, iff_true]
        exact disposedOnce_release held .dropped rfl quiet

end AntAodv
