import AntAodv.Agent.Memory
import AntAodv.Library.Lockstep
import AntAodv.Rtable.NextHop

/-!
# What the choices of a call depend on

Two calls of agents in the same state, with the same draws and with packets that
differ in their times only, make the same choices and leave the agents in the same
state.  Of the process-wide variables only `r`, in an update, and `NUM_NODES`, in
the choice of a destination, have a part in that.
-/

namespace AntAodv

variable {K : Type}

/-- The places a call sends ants to. -/
inductive Choice where
  | destination (dest : NsAddr)
  | next (dest parent : NsAddr) (result : NextHop)
  | hop (next : NsAddr)

def Op.choice : Op K → Option Choice
  | .calcDestination dest => some (.destination dest)
  | .calcNext dest parent result => some (.next dest parent result)
  | .handed p => some (.hop p.ip.daddr)
  | _ => none

/-- The destinations and next hops chosen, in order. -/
def choices (log : List (Op K)) : List Choice := log.filterMap Op.choice

/-- Packets that differ in their times, identities and other fields no choice
depends on. -/
structure Packet.Alike (p q : Packet K) : Prop where
  ptype : p.cmn.ptype = q.cmn.ptype
  direction : p.cmn.direction = q.cmn.direction
  numForwards : p.cmn.numForwards = q.cmn.numForwards
  saddr : p.ip.saddr = q.ip.saddr
  sport : p.ip.sport = q.ip.sport
  daddr : p.ip.daddr = q.ip.daddr
  dport : p.ip.dport = q.ip.dport
  pktSrc : p.ant.pktSrc = q.ant.pktSrc
  pktDst : p.ant.pktDst = q.ant.pktDst
  pktMemSize : p.ant.pktMemSize = q.ant.pktMemSize
  addresses : p.ant.pktMemory.map Memory.nodeAddr = q.ant.pktMemory.map Memory.nodeAddr

theorem Packet.Alike.refl (p : Packet K) : p.Alike p :=
  ⟨rfl, rfl, rfl, rfl, rfl, rfl, rfl, rfl, rfl, rfl, rfl⟩

/-- Packets stay alike with memories of the same addresses. -/
theorem Packet.Alike.withMemory {p q : Packet K} (similar : p.Alike q)
    {slots slots' : List (Memory K)}
    (addresses : slots.map Memory.nodeAddr = slots'.map Memory.nodeAddr) (size : ℕ) :
    Packet.Alike { p with ant := { p.ant with pktMemory := slots, pktMemSize := size } }
      { q with ant := { q.ant with pktMemory := slots', pktMemSize := size } } :=
  ⟨similar.ptype, similar.direction, similar.numForwards, similar.saddr, similar.sport,
    similar.daddr, similar.dport, similar.pktSrc, similar.pktDst, rfl, addresses⟩

/-- Packets stay alike when they are sent on to the same node. -/
theorem Packet.Alike.sent {p q : Packet K} (similar : p.Alike q) {addr addr' next next' : NsAddr}
    (sameAddr : addr = addr') (same : next = next') :
    Packet.Alike
      { p with
        cmn := { p.cmn with direction := .up, ptype := ptAnt, nextHop := next }
        ip := { p.ip with saddr := addr, daddr := next } }
      { q with
        cmn := { q.cmn with direction := .up, ptype := ptAnt, nextHop := next' }
        ip := { q.ip with saddr := addr', daddr := next' } } :=
  ⟨rfl, rfl, similar.numForwards, sameAddr, similar.sport, same, similar.dport, similar.pktSrc,
    similar.pktDst, similar.pktMemSize, similar.addresses⟩

/-- Calls at the same state of an agent, for packets that are alike, with the same
choices made so far. -/
structure Call.Alike (c d : Call K) : Prop where
  agent : c.agent = d.agent
  raws : c.raws = d.raws
  draws : c.draws = d.draws
  junk : c.junk = d.junk
  held : Option.Rel Packet.Alike c.held d.held
  choices : choices c.log = choices d.log

/-- Calls that fail the same way, after the same choices. -/
def Failure.Alike (first second : Failure K) : Prop :=
  first.fault = second.fault ∧ choices first.log = choices second.log

namespace HdrAntPkt

/-- Memories with the same addresses. -/
def SameAddresses (ah bh : HdrAntPkt K) : Prop :=
  ah.pktMemory.map Memory.nodeAddr = bh.pktMemory.map Memory.nodeAddr

variable {ah bh : HdrAntPkt K}

theorem SameAddresses.length (same : ah.SameAddresses bh) :
    ah.pktMemory.length = bh.pktMemory.length := by
  simpa using congrArg List.length same

theorem SameAddresses.read (same : ah.SameAddresses bh) {index index' : ℤ}
    (sameIndex : index = index') :
    Lockstep (· = ·) (fun entry other => entry.nodeAddr = other.nodeAddr)
      (ah.read index) (bh.read index') := by
  subst sameIndex
  cases index with
  | ofNat index =>
      have slots := congrArg (fun addresses : List NsAddr => addresses[index]?) same
      simp only [List.getElem?_map] at slots
      rw [HdrAntPkt.read, HdrAntPkt.read]
      cases first : ah.pktMemory[index]? with
      | none =>
          rw [first, Option.map_none, eq_comm, Option.map_eq_none_iff] at slots
          rw [slots]
          exact .error rfl
      | some entry =>
          rw [first, Option.map_some, eq_comm, Option.map_eq_some_iff] at slots
          obtain ⟨other, second, address⟩ := slots
          rw [second]
          exact .ok address.symm
  | negSucc index => exact .error rfl

theorem SameAddresses.write (same : ah.SameAddresses bh) (index : ℕ) (entry other : Memory K)
    (address : entry.nodeAddr = other.nodeAddr) :
    Lockstep (· = ·) (fun after after' => after.SameAddresses after' ∧
        after = { ah with pktMemory := after.pktMemory } ∧
        after' = { bh with pktMemory := after'.pktMemory })
      (ah.write index entry) (bh.write index other) := by
  rw [HdrAntPkt.write, HdrAntPkt.write, same.length]
  split
  · refine .ok ⟨?_, rfl, rfl⟩
    have addresses := same
    simp only [SameAddresses, List.map_set, address] at addresses ⊢
    rw [addresses]
  · exact .error rfl

theorem SameAddresses.scanUp (same : ah.SameAddresses bh) (addr : NsAddr) (index count : ℕ) :
    Lockstep (· = ·) (· = ·) (ah.scanUp addr index count) (bh.scanUp addr index count) := by
  induction count generalizing index with
  | zero => exact .ok rfl
  | succ count inductionHypothesis =>
      refine (same.read rfl).bind fun entry other address => ?_
      rw [address]
      split
      · exact .ok rfl
      · exact inductionHypothesis (index + 1)

theorem SameAddresses.scanDown (same : ah.SameAddresses bh) (addr : NsAddr) (count : ℕ) :
    Lockstep (· = ·) (· = ·) (ah.scanDown addr count) (bh.scanDown addr count) := by
  induction count with
  | zero => exact .ok rfl
  | succ count inductionHypothesis =>
      refine (same.read rfl).bind fun entry other address => ?_
      rw [address]
      split
      · exact .ok rfl
      · exact inductionHypothesis

theorem scanUnbounded_congr {slots slots' : List (Memory K)}
    (same : slots.map Memory.nodeAddr = slots'.map Memory.nodeAddr) (addr : NsAddr)
    (index : ℕ) : scanUnbounded addr index slots = scanUnbounded addr index slots' := by
  induction slots generalizing slots' index with
  | nil =>
      rw [List.map_nil, eq_comm, List.map_eq_nil_iff] at same
      rw [same]
  | cons entry slots inductionHypothesis =>
      rcases List.map_eq_cons_iff.mp same.symm with ⟨other, rest, rfl, address, addresses⟩
      rw [scanUnbounded, scanUnbounded, address, inductionHypothesis addresses.symm]

theorem SameAddresses.shiftTimes [Add K] (same : ah.SameAddresses bh) (extra extra' : K)
    (count : ℕ) :
    Lockstep (· = ·) (fun after after' => after.SameAddresses after' ∧
        after = { ah with pktMemory := after.pktMemory } ∧
        after' = { bh with pktMemory := after'.pktMemory })
      (ah.shiftTimes extra count) (bh.shiftTimes extra' count) := by
  induction count with
  | zero => exact .ok ⟨same, rfl, rfl⟩
  | succ count inductionHypothesis =>
      refine inductionHypothesis.bind fun after after' shifted => ?_
      obtain ⟨addresses, header, header'⟩ := shifted
      refine (addresses.read rfl).bind fun entry other address => ?_
      refine (addresses.write count { entry with tripTime := entry.tripTime + extra }
        { other with tripTime := other.tripTime + extra' } address).mono ?_
      rintro last last' ⟨written, kept, kept'⟩
      exact ⟨written, by rw [kept, header], by rw [kept', header']⟩

end HdrAntPkt

namespace Call

/-- Both calls return alike, or both fail alike. -/
abbrev Together (first second : Except (Failure K) (Call K)) : Prop :=
  Lockstep Failure.Alike Alike first second

variable {c d : Call K} {p q : Packet K}

theorem choices_append (early late : List (Op K)) :
    AntAodv.choices (early ++ late) = AntAodv.choices early ++ AntAodv.choices late :=
  List.filterMap_append

theorem Alike.enter (alike : c.Alike d) {op op' : Op K} (same : op.choice = op'.choice) :
    (c.enter op).Alike (d.enter op') := by
  refine ⟨alike.agent, alike.raws, alike.draws, alike.junk, alike.held, ?_⟩
  simp only [Call.enter, choices_append, alike.choices]
  simp [AntAodv.choices, List.filterMap_cons, same]

theorem Alike.store (alike : c.Alike d) (similar : p.Alike q) : (c.store p).Alike (d.store q) :=
  ⟨alike.agent, alike.raws, alike.draws, alike.junk, .some similar, alike.choices⟩

theorem Alike.fail {α β : Type} {results : α → β → Prop} (alike : c.Alike d) (fault : Fault) :
    Lockstep Failure.Alike results (c.fail fault) (d.fail fault) :=
  .error ⟨rfl, alike.choices⟩

theorem Alike.lift {α β : Type} {results : α → β → Prop} (alike : c.Alike d)
    {first : Except Fault α} {second : Except Fault β}
    (related : Lockstep (· = ·) results first second) :
    Lockstep Failure.Alike results (c.lift first) (d.lift second) := by
  cases related with
  | ok same => exact .ok same
  | error same => exact .error ⟨same, alike.choices⟩

theorem Alike.pkt (alike : c.Alike d) : Lockstep Failure.Alike Packet.Alike c.pkt d.pkt := by
  have related := alike.held
  rw [Call.pkt, Call.pkt]
  generalize c.held = first, d.held = second at related
  cases related with
  | some similar => exact .ok similar
  | none => exact alike.fail .released

theorem Alike.held_some (alike : c.Alike d) (held : c.held = some p) :
    ∃ q, d.held = some q ∧ p.Alike q := by
  have related := alike.held
  rw [held] at related
  generalize d.held = other at related
  cases related with
  | some similar => exact ⟨_, rfl, similar⟩

theorem Alike.release (alike : c.Alike d) {op : Packet K → Op K}
    (same : ∀ p q, p.Alike q → (op p).choice = (op q).choice) :
    Together (c.release op) (d.release op) := by
  refine alike.pkt.bind fun p q similar => .ok ?_
  have after := alike.enter (same p q similar)
  exact ⟨after.agent, after.raws, after.draws, after.junk, .none, after.choices⟩

theorem Alike.targetRecv (alike : c.Alike d) : Together c.targetRecv d.targetRecv :=
  alike.release fun p q similar => by simp [Op.choice, similar.daddr]

theorem Alike.free (alike : c.Alike d) : Together c.free d.free := alike.release fun _ _ _ => rfl

theorem Alike.drop (alike : c.Alike d) : Together c.drop d.drop := alike.release fun _ _ _ => rfl

variable [Arithmetic K]

theorem Alike.memorize (alike : c.Alike d) : Together c.memorize d.memorize := by
  have entered : (c.enter .memorize).Alike (d.enter .memorize) := alike.enter rfl
  refine entered.pkt.bind fun p q similar => ?_
  have addresses : p.ant.SameAddresses q.ant := similar.addresses
  have addr : (c.enter .memorize).agent.addr = (d.enter .memorize).agent.addr := by
    rw [entered.agent]
  rw [addr, similar.pktMemSize]
  refine (entered.lift (addresses.scanUp _ 0 _)).bind ?_
  rintro found _ rfl
  cases found with
  | some i =>
      refine (entered.lift (addresses.read rfl)).bind fun entry other _ => ?_
      have shortened : HdrAntPkt.SameAddresses { p.ant with pktMemSize := i + 1 }
          { q.ant with pktMemSize := i + 1 } := addresses
      refine (entered.lift (shortened.shiftTimes _ _ (i + 1))).bind ?_
      rintro ah bh ⟨same, header, header'⟩
      rw [header, header']
      exact .ok (entered.store (similar.withMemory same _))
  | none =>
      refine Lockstep.bind (entered.lift (addresses.write _ _ _ rfl)) ?_
      rintro ah bh ⟨same, header, header'⟩
      rw [header, header', similar.pktMemSize]
      exact .ok (entered.store (similar.withMemory same _))

omit [Arithmetic K] in
theorem Alike.createBackwardAntPkt (alike : c.Alike d) :
    Together c.createBackwardAntPkt d.createBackwardAntPkt := by
  have entered : (c.enter .createBackwardAntPkt).Alike (d.enter .createBackwardAntPkt) :=
    alike.enter rfl
  refine entered.pkt.bind fun p q similar => ?_
  have swapped : HdrAntPkt.SameAddresses
      { p.ant with pktSrc := p.ant.pktDst, pktDst := p.ant.pktSrc }
      { q.ant with pktSrc := q.ant.pktDst, pktDst := q.ant.pktSrc } := similar.addresses
  have turned : Packet.Alike
      { p with ant := { p.ant with pktSrc := p.ant.pktDst, pktDst := p.ant.pktSrc } }
      { q with ant := { q.ant with pktSrc := q.ant.pktDst, pktDst := q.ant.pktSrc } } :=
    ⟨similar.ptype, similar.direction, similar.numForwards, similar.saddr, similar.sport,
      similar.daddr, similar.dport, similar.pktDst, similar.pktSrc, similar.pktMemSize,
      similar.addresses⟩
  have index := congrArg (fun size : ℕ => (size : ℤ) - 2) similar.pktMemSize
  refine (entered.lift (swapped.read index)).bind fun entry other address => ?_
  exact (entered.store (turned.sent (congrArg Antnet.addr entered.agent) address)).targetRecv

omit [Arithmetic K] in
theorem Alike.backwardAntPkt (alike : c.Alike d) :
    Together c.backwardAntPkt d.backwardAntPkt := by
  have entered : (c.enter .backwardAntPkt).Alike (d.enter .backwardAntPkt) := alike.enter rfl
  refine entered.pkt.bind fun p q similar => ?_
  have addresses : p.ant.SameAddresses q.ant := similar.addresses
  have addr := congrArg Antnet.addr entered.agent
  rw [addr, similar.pktMemSize]
  refine (entered.lift (addresses.scanDown _ _)).bind ?_
  rintro found _ rfl
  cases found with
  | some i =>
      refine (entered.lift (addresses.read rfl)).bind fun entry other address => ?_
      exact (entered.store (similar.sent rfl address)).targetRecv
  | none => exact entered.fail _

/-- An update depends on the shared factor `r`. -/
theorem Alike.rtableUpdate (alike : c.Alike d) (factor : c.globals.r = d.globals.r)
    {dest dest' next next' : NsAddr} (sameDest : dest = dest') (sameNext : next = next') :
    (c.rtableUpdate dest next).Alike (d.rtableUpdate dest' next') := by
  subst sameDest sameNext
  have entered : (c.enter (.update dest next)).Alike (d.enter (.update dest next)) :=
    alike.enter rfl
  refine ⟨?_, alike.raws, alike.draws, alike.junk, alike.held, entered.choices⟩
  simp only [Call.rtableUpdate, alike.agent, factor]

theorem Alike.updateFrom {ah bh : HdrAntPkt K} (addresses : ah.SameAddresses bh)
    {next next' : NsAddr} (same : next = next') {c d : Call K} (alike : c.Alike d)
    (factor : c.globals.r = d.globals.r) (index count : ℕ) :
    Together (Call.updateFrom ah next index count c) (Call.updateFrom bh next' index count d) := by
  induction count generalizing index c d with
  | zero => exact .ok alike
  | succ count inductionHypothesis =>
      refine (alike.lift (addresses.read rfl)).bind fun entry other address => ?_
      exact inductionHypothesis (alike.rtableUpdate factor address same) factor (index + 1)

theorem Alike.updateTable (sim : Sim) (alike : c.Alike d) (factor : c.globals.r = d.globals.r) :
    Together (c.updateTable sim) (d.updateTable sim) := by
  have entered : (c.enter .updateTable).Alike (d.enter .updateTable) := alike.enter rfl
  refine entered.pkt.bind fun p q similar => ?_
  have addresses : p.ant.SameAddresses q.ant := similar.addresses
  have addr := congrArg Antnet.addr entered.agent
  rw [addr, similar.pktMemSize, HdrAntPkt.scanUnbounded_congr addresses]
  refine Lockstep.bind (entered.lift (.refl (fun _ => rfl) (fun _ => rfl) _)) ?_
  rintro i _ rfl
  refine (entered.lift (addresses.read rfl)).bind fun entry other address => ?_
  refine Alike.updateFrom addresses address ?_ ?_ _ _
  · exact ⟨entered.agent, entered.raws, entered.draws, entered.junk, entered.held,
      entered.choices⟩
  · exact factor

variable [LinearOrder K]

theorem Alike.calcNext {sim : Sim} (alike : c.Alike d) (dest parent : NsAddr) :
    Lockstep Failure.Alike (fun first second => first.1 = second.1 ∧ first.2.Alike second.2)
      (c.calcNext sim dest parent) (d.calcNext sim dest parent) := by
  rw [Call.calcNext, Call.calcNext, alike.agent, alike.draws,
    Rtable.calcNext_congr sim c.globals.n d.globals.n]
  have called : ∀ result, (c.enter (.calcNext dest parent result)).Alike
      (d.enter (.calcNext dest parent result)) := fun _ => alike.enter rfl
  cases Rtable.calcNext sim d.globals.n d.agent.rtable d.agent.addr dest parent d.draws with
  | ret next => exact .ok ⟨rfl, called _⟩
  | offEnd => exact .ok ⟨alike.junk, called _⟩
  | looping => exact (called _).fail .looping

theorem Alike.forwardAntPkt {sim : Sim} (alike : c.Alike d) :
    Together (c.forwardAntPkt sim) (d.forwardAntPkt sim) := by
  have entered : (c.enter .forwardAntPkt).Alike (d.enter .forwardAntPkt) := alike.enter rfl
  refine entered.pkt.bind fun p q similar => ?_
  rw [similar.saddr, similar.pktDst]
  refine (entered.calcNext _ _).bind ?_
  rintro ⟨next, after⟩ ⟨_, after'⟩ ⟨rfl, called⟩
  have addr := congrArg Antnet.addr called.agent
  simp only at addr ⊢
  rw [addr]
  split
  · exact called.free
  · refine called.pkt.bind fun p q similar => ?_
    have sent := called.store (c := after) (d := after') (p := { p with
        cmn := { p.cmn with nextHop := next }
        ip := { p.ip with saddr := after.agent.addr, daddr := next } }) (q := { q with
        cmn := { q.cmn with nextHop := next }
        ip := { q.ip with saddr := after'.agent.addr, daddr := next } })
      ⟨similar.ptype, similar.direction, similar.numForwards, addr, similar.sport, rfl,
        similar.dport, similar.pktSrc, similar.pktDst, similar.pktMemSize, similar.addresses⟩
    rw [addr] at sent
    exact sent.targetRecv

/-- A new ant depends on the shared number of nodes. -/
theorem Alike.sendAntPkt {sim : Sim} (alike : c.Alike d)
    (nodes : c.globals.numNodes = d.globals.numNodes) :
    Together (c.sendAntPkt sim) (d.sendAntPkt sim) := by
  rw [Call.sendAntPkt, Call.sendAntPkt]
  simp only [allocpkt, alike.agent, alike.raws, nodes]
  have allocated : Call.Alike
      { c with
        agent := { d.agent with antSeqNum := d.agent.antSeqNum + 1 }
        raws := d.raws
        uidcnt := c.uidcnt + 1 }
      { d with
        agent := { d.agent with antSeqNum := d.agent.antSeqNum + 1 }
        uidcnt := d.uidcnt + 1 } :=
    ⟨rfl, rfl, alike.draws, alike.junk, alike.held, alike.choices⟩
  cases Rtable.calcDestination sim d.globals.numNodes d.agent.addr d.raws with
  | none => exact allocated.fail .looping
  | some dest =>
      have same : (Op.calcDestination (K := K) dest).choice = Op.choice (.calcDestination dest) := rfl
      have entered := allocated.enter same
      simp only
      refine Lockstep.bind (entered.lift (.refl (fun _ => rfl) (fun _ => rfl) _)) ?_
      rintro ah _ rfl
      refine Lockstep.bind (Alike.calcNext (entered.store ?_) dest d.agent.addr) ?_
      · exact ⟨rfl, rfl, rfl, rfl, rfl, rfl, rfl, rfl, rfl, rfl, rfl⟩
      · rintro ⟨next, after⟩ ⟨_, after'⟩ ⟨rfl, called⟩
        simp only
        split
        · exact called.free
        · refine called.pkt.bind fun p q similar => ?_
          refine Alike.targetRecv (called.store ?_)
          exact ⟨similar.ptype, similar.direction, similar.numForwards, rfl, similar.sport, rfl,
            similar.dport, similar.pktSrc, similar.pktDst, similar.pktMemSize, similar.addresses⟩

/-- Only a backward ant makes the outcome depend on the shared factor. -/
theorem Alike.recv {sim : Sim} (alike : c.Alike d) (held : c.held = some p)
    (factor : p.cmn.direction = .up → c.globals.r = d.globals.r) :
    Together (c.recv sim) (d.recv sim) := by
  obtain ⟨q, held', similar⟩ := alike.held_some held
  have addr := congrArg Antnet.addr alike.agent
  rw [Call.recv, Call.recv, pkt_of_held held, pkt_of_held held', ok_bind, ok_bind, similar.saddr,
    similar.numForwards, similar.ptype, addr]
  split
  · split
    · exact alike.drop
    · exact .ok alike
  · split
    · rw [recvAntPkt, recvAntPkt, pkt_of_held held, pkt_of_held held', ok_bind, ok_bind,
        similar.sport, similar.dport, similar.pktDst, similar.direction, addr]
      split
      · exact alike.fail .assertion
      · split
        · exact alike.fail .assertion
        · cases direction : q.cmn.direction with
          | down =>
              simp only
              split
              · exact alike.memorize.bind fun _ _ after => after.createBackwardAntPkt
              · exact alike.memorize.bind fun _ _ after => after.forwardAntPkt
          | none => exact .ok alike
          | up =>
              have updated := alike.updateTable sim (factor (similar.direction.trans direction))
              simp only
              split
              · exact updated.bind fun _ _ after => after.free
              · exact updated.bind fun _ _ after => after.backwardAntPkt
    · exact alike.drop

end Call

end AntAodv
