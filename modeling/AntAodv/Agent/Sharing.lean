import AntAodv.Agent.Memory
import AntAodv.Library.Lockstep
import AntAodv.Rtable.NextHop

/-!
# What a call does with the process-wide variables

A call for a packet overwrites the number of neighbours `N` and passes the counter
of packet identities on, but nothing it returns depends on either: `calc_next` reads
`N` only where the rows are empty.  It leaves `r` and `NUM_NODES` as they are.
-/

namespace AntAodv

variable {K : Type}

/-- The call with other values of `N` and of the counter of packet identities. -/
def Call.withShared (c : Call K) (n : ℤ) (uidcnt : ℕ) : Call K :=
  { c with globals := { c.globals with n := n }, uidcnt := uidcnt }

/-- Calls that agree in all but `N` and the counter of packet identities, with the
same `r` and `NUM_NODES` as `shared`. -/
structure Call.Beside (shared : Globals K) (c d : Call K) : Prop where
  factor : c.globals.r = shared.r
  nodes : c.globals.numNodes = shared.numNodes
  same : ∃ n uidcnt, d = c.withShared n uidcnt

namespace Call

/-- Both calls return beside each other, or both fail the same way. -/
abbrev SideBySide (shared : Globals K) (first second : Except (Failure K) (Call K)) : Prop :=
  Lockstep (· = ·) (Beside shared) first second

variable {shared : Globals K} {c d : Call K}

theorem Beside.enter (beside : Beside shared c d) (op : Op K) :
    Beside shared (c.enter op) (d.enter op) := by
  obtain ⟨n, uidcnt, rfl⟩ := beside.same
  exact ⟨beside.factor, beside.nodes, n, uidcnt, rfl⟩

theorem Beside.store (beside : Beside shared c d) (p : Packet K) :
    Beside shared (c.store p) (d.store p) := by
  obtain ⟨n, uidcnt, rfl⟩ := beside.same
  exact ⟨beside.factor, beside.nodes, n, uidcnt, rfl⟩

theorem Beside.agent (beside : Beside shared c d) : d.agent = c.agent := by
  obtain ⟨n, uidcnt, rfl⟩ := beside.same
  rfl

theorem Beside.log (beside : Beside shared c d) : d.log = c.log := by
  obtain ⟨n, uidcnt, rfl⟩ := beside.same
  rfl

/-- A computation on the packet alone. -/
theorem Beside.lift {α : Type} (beside : Beside shared c d) (computation : Except Fault α) :
    Lockstep (· = ·) (· = ·) (c.lift computation) (d.lift computation) := by
  obtain ⟨n, uidcnt, rfl⟩ := beside.same
  exact .refl (fun _ => rfl) (fun _ => rfl) _

theorem Beside.pkt (beside : Beside shared c d) : Lockstep (· = ·) (· = ·) c.pkt d.pkt := by
  obtain ⟨n, uidcnt, rfl⟩ := beside.same
  exact .refl (fun _ => rfl) (fun _ => rfl) _

theorem Beside.fail {α β : Type} {results : α → β → Prop} (beside : Beside shared c d)
    (fault : Fault) : Lockstep (· = ·) results (c.fail fault) (d.fail fault) := by
  obtain ⟨n, uidcnt, rfl⟩ := beside.same
  exact .error rfl

theorem Beside.release (beside : Beside shared c d) (op : Packet K → Op K) :
    SideBySide shared (c.release op) (d.release op) := by
  refine beside.pkt.bind ?_
  rintro p _ rfl
  obtain ⟨n, uidcnt, rfl⟩ := beside.same
  exact .ok ⟨beside.factor, beside.nodes, n, uidcnt, rfl⟩

theorem Beside.targetRecv (beside : Beside shared c d) :
    SideBySide shared c.targetRecv d.targetRecv :=
  beside.release _

theorem Beside.free (beside : Beside shared c d) : SideBySide shared c.free d.free :=
  beside.release _

variable [Arithmetic K]

theorem Beside.memorize (beside : Beside shared c d) :
    SideBySide shared c.memorize d.memorize := by
  have entered := beside.enter .memorize
  refine entered.pkt.bind ?_
  rintro p _ rfl
  obtain ⟨n, uidcnt, rfl⟩ := beside.same
  refine (entered.lift _).bind ?_
  rintro found _ rfl
  cases found with
  | some i =>
      refine (entered.lift _).bind ?_
      rintro entry _ rfl
      refine (entered.lift _).bind ?_
      rintro ah _ rfl
      exact .ok (entered.store _)
  | none =>
      refine (entered.lift _).bind ?_
      rintro ah _ rfl
      exact .ok (entered.store _)

omit [Arithmetic K] in
theorem Beside.createBackwardAntPkt (beside : Beside shared c d) :
    SideBySide shared c.createBackwardAntPkt d.createBackwardAntPkt := by
  have entered := beside.enter .createBackwardAntPkt
  refine entered.pkt.bind ?_
  rintro p _ rfl
  obtain ⟨n, uidcnt, rfl⟩ := beside.same
  refine (entered.lift _).bind ?_
  rintro entry _ rfl
  exact (entered.store _).targetRecv

omit [Arithmetic K] in
theorem Beside.backwardAntPkt (beside : Beside shared c d) :
    SideBySide shared c.backwardAntPkt d.backwardAntPkt := by
  have entered := beside.enter .backwardAntPkt
  refine entered.pkt.bind ?_
  rintro p _ rfl
  obtain ⟨n, uidcnt, rfl⟩ := beside.same
  refine (entered.lift _).bind ?_
  rintro found _ rfl
  cases found with
  | some i =>
      refine (entered.lift _).bind ?_
      rintro entry _ rfl
      exact (entered.store _).targetRecv
  | none => exact entered.fail _

theorem Beside.updateFrom (ah : HdrAntPkt K) (next : NsAddr) {c d : Call K}
    (beside : Beside shared c d) (index count : ℕ) :
    SideBySide shared (Call.updateFrom ah next index count c)
      (Call.updateFrom ah next index count d) := by
  induction count generalizing index c d with
  | zero => exact .ok beside
  | succ count inductionHypothesis =>
      refine (beside.lift _).bind ?_
      rintro entry _ rfl
      apply inductionHypothesis
      obtain ⟨n, uidcnt, rfl⟩ := beside.same
      exact ⟨beside.factor, beside.nodes, n, uidcnt, rfl⟩

/-- An update overwrites `N`, with the same value in both calls. -/
theorem Beside.updateTable (sim : Sim) (beside : Beside shared c d) :
    SideBySide shared (c.updateTable sim) (d.updateTable sim) := by
  have entered := beside.enter .updateTable
  refine entered.pkt.bind ?_
  rintro p _ rfl
  obtain ⟨n, uidcnt, rfl⟩ := beside.same
  refine (entered.lift _).bind ?_
  rintro i _ rfl
  refine (entered.lift _).bind ?_
  rintro entry _ rfl
  apply Beside.updateFrom
  exact ⟨beside.factor, beside.nodes, sim.getNumNeighbors c.agent.addr, uidcnt, rfl⟩

variable [LinearOrder K] {sim : Sim}

theorem Beside.calcNext (beside : Beside shared c d) (dest parent : NsAddr) :
    Lockstep (· = ·) (fun first second => first.1 = second.1 ∧ Beside shared first.2 second.2)
      (c.calcNext sim dest parent) (d.calcNext sim dest parent) := by
  obtain ⟨n, uidcnt, rfl⟩ := beside.same
  rw [Call.calcNext, Call.calcNext,
    Rtable.calcNext_congr sim (c.withShared n uidcnt).globals.n c.globals.n]
  have called : ∀ result, Beside shared (c.enter (.calcNext dest parent result))
      ((c.withShared n uidcnt).enter (.calcNext dest parent result)) :=
    fun result => beside.enter _
  simp only [Call.withShared] at called ⊢
  cases Rtable.calcNext sim c.globals.n c.agent.rtable c.agent.addr dest parent c.draws with
  | ret next => exact .ok ⟨rfl, called _⟩
  | offEnd => exact .ok ⟨rfl, called _⟩
  | looping => exact (called _).fail .looping

theorem Beside.forwardAntPkt (beside : Beside shared c d) :
    SideBySide shared (c.forwardAntPkt sim) (d.forwardAntPkt sim) := by
  have entered := beside.enter .forwardAntPkt
  refine entered.pkt.bind ?_
  rintro p _ rfl
  refine (entered.calcNext _ _).bind ?_
  rintro ⟨next, after⟩ ⟨_, after'⟩ ⟨rfl, called⟩
  have agent := called.agent
  simp only at agent ⊢
  rw [agent]
  split
  · exact called.free
  · refine called.pkt.bind ?_
    rintro p _ rfl
    exact (called.store _).targetRecv

theorem Beside.recvAntPkt (beside : Beside shared c d) :
    SideBySide shared (c.recvAntPkt sim) (d.recvAntPkt sim) := by
  refine beside.pkt.bind ?_
  rintro p _ rfl
  rw [beside.agent]
  split
  · exact beside.fail .assertion
  · split
    · exact beside.fail .assertion
    · cases p.cmn.direction with
      | down =>
          simp only
          split
          · exact beside.memorize.bind fun _ _ after => after.createBackwardAntPkt
          · exact beside.memorize.bind fun _ _ after => after.forwardAntPkt
      | up =>
          simp only
          split
          · exact (beside.updateTable sim).bind fun _ _ after => after.free
          · exact (beside.updateTable sim).bind fun _ _ after => after.backwardAntPkt
      | none => exact .ok beside

variable (sim) in
theorem Beside.recv (beside : Beside shared c d) :
    SideBySide shared (c.recv sim) (d.recv sim) := by
  refine beside.pkt.bind ?_
  rintro p _ rfl
  rw [beside.agent]
  split
  · split
    · exact beside.release _
    · exact .ok beside
  · split
    · exact beside.recvAntPkt
    · exact beside.release _

end Call

end AntAodv
