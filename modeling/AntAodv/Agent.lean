import AntAodv.Packet
import AntAodv.Rtable

/-!
# The AntNet agent

`antnet.cc`: what an agent does on a start command, when its ant timer expires
and when it receives a packet.  A call works on the state of its agent, the
process-wide variables and the packet it holds, and logs what it does.  A packet
that was given to the target, freed or dropped is no longer held, and every
access to a header is through the held packet.
-/

namespace AntAodv

/-- The state of an agent.  Its address serves as `addr()` and `ra_addr()`, both
the address of its node. -/
structure Antnet (K : Type) where
  addr : NsAddr
  rtable : Rtable K
  antSeqNum : UInt8
  rFactor : K
  numNodes : ℤ
  /-- Whether `ant_timer_` is pending. -/
  timerPending : Bool

/-- What a call does, besides changing the state of its agent. -/
inductive Op (K : Type) where
  | memorize
  | forwardAntPkt
  | createBackwardAntPkt
  | updateTable
  | backwardAntPkt
  /-- `rtable_.calc_destination` returns `dest`. -/
  | calcDestination (dest : NsAddr)
  /-- `rtable_.calc_next` is called for `dest` and `parent`. -/
  | calcNext (dest parent : NsAddr) (result : NextHop)
  /-- `rtable_.update(dest, next)` is called. -/
  | update (dest next : NsAddr)
  /-- The packet is handed to `target_`. -/
  | handed (p : Packet K)
  | freed (p : Packet K)
  /-- The packet is dropped with reason `DROP_RTR_ROUTE_LOOP`. -/
  | dropped (p : Packet K)
  deriving DecidableEq

/-- Whether an operation gives the packet away. -/
def Op.isDisposal {K : Type} : Op K → Bool
  | .handed _ => true
  | .freed _ => true
  | .dropped _ => true
  | _ => false

/-- A call that does not return, with what it did so far. -/
structure Failure (K : Type) where
  fault : Fault
  log : List (Op K)

/-- The state of a call. -/
structure Call (K : Type) where
  agent : Antnet K
  globals : Globals K
  /-- `CURRENT_TIME`. -/
  now : K
  /-- The identity of the next packet to be allocated. -/
  uidcnt : ℕ
  /-- Raw outputs of the generator for `uniform(int)`. -/
  raws : List ℕ
  /-- Results of `uniform(1.0)`. -/
  draws : List K
  /-- The value of a `calc_next` that runs off its end. -/
  junk : NsAddr
  held : Option (Packet K)
  log : List (Op K)

namespace Call

variable {K : Type}

def enter (c : Call K) (op : Op K) : Call K := { c with log := c.log ++ [op] }

def fail {α : Type} (c : Call K) (fault : Fault) : Except (Failure K) α :=
  .error ⟨fault, c.log⟩

def lift {α : Type} (c : Call K) : Except Fault α → Except (Failure K) α
  | .ok value => .ok value
  | .error fault => c.fail fault

/-- The headers of the held packet. -/
def pkt (c : Call K) : Except (Failure K) (Packet K) :=
  match c.held with
  | some p => .ok p
  | none => c.fail .released

def store (c : Call K) (p : Packet K) : Call K := { c with held := some p }

/-- Give the held packet away. -/
def release (c : Call K) (op : Packet K → Op K) : Except (Failure K) (Call K) := do
  let p ← c.pkt
  .ok { c with held := none, log := c.log ++ [op p] }

/-- `target_->recv(p)`. -/
def targetRecv (c : Call K) : Except (Failure K) (Call K) := c.release .handed

/-- `Packet::free(p)`. -/
def free (c : Call K) : Except (Failure K) (Call K) := c.release .freed

/-- `drop(p, DROP_RTR_ROUTE_LOOP)`. -/
def drop (c : Call K) : Except (Failure K) (Call K) := c.release .dropped

section Field

variable [Arithmetic K]

/-- `allocpkt()`: a packet with a new identity, between the routing ports. -/
def allocpkt (sim : Sim) (c : Call K) : Packet K × Call K :=
  let p : Packet K := Packet.alloc sim.slots
  ({ p with
      cmn := { p.cmn with uid := c.uidcnt }
      ip := { p.ip with sport := rtPort, dport := rtPort } },
    { c with uidcnt := c.uidcnt + 1 })

/-- `rtable_.update(dest, next)`. -/
def rtableUpdate (c : Call K) (dest next : NsAddr) : Call K :=
  { c with
    agent := { c.agent with rtable := Rtable.update c.globals.r c.agent.rtable dest next }
    log := c.log ++ [.update dest next] }

/-- Method to build the memory of a forward ant. -/
def memorize (c : Call K) : Except (Failure K) (Call K) := do
  let c := c.enter .memorize
  let p ← c.pkt
  let time := c.now - p.ant.pktStartTime
  match ← c.lift (p.ant.scanUp c.agent.addr 0 p.ant.pktMemSize) with
  | some i =>
      -- node revisited: remove the loop and the corresponding memory
      let entry ← c.lift (p.ant.read i)
      let t := time - entry.tripTime
      let ah ← c.lift ({ p.ant with pktMemSize := i + 1 }.shiftTimes t (i + 1))
      .ok (c.store { p with ant := ah })
  | none =>
      let ah ← c.lift (p.ant.write p.ant.pktMemSize ⟨c.agent.addr, time⟩)
      .ok (c.store { p with ant := { ah with pktMemSize := ah.pktMemSize + 1 } })

/-- Method to create a backward ant when a forward ant reaches its destination. -/
def createBackwardAntPkt (c : Call K) : Except (Failure K) (Call K) := do
  let c := c.enter .createBackwardAntPkt
  let p ← c.pkt
  let ah := { p.ant with pktSrc := p.ant.pktDst, pktDst := p.ant.pktSrc }
  let index : ℤ := ah.pktMemSize - 2
  let entry ← c.lift (ah.read index)
  let c := c.store { p with
    ant := ah
    cmn := { p.cmn with direction := .up, ptype := ptAnt, nextHop := entry.nodeAddr }
    ip := { p.ip with saddr := c.agent.addr, daddr := entry.nodeAddr } }
  c.targetRecv

/-- Method to send a backward ant to the next hop its memory gives. -/
def backwardAntPkt (c : Call K) : Except (Failure K) (Call K) := do
  let c := c.enter .backwardAntPkt
  let p ← c.pkt
  match ← c.lift (p.ant.scanDown c.agent.addr p.ant.pktMemSize) with
  | some i =>
      let index : ℤ := i - 1
      let entry ← c.lift (p.ant.read index)
      let c := c.store { p with
        cmn := { p.cmn with direction := .up, ptype := ptAnt, nextHop := entry.nodeAddr }
        ip := { p.ip with saddr := c.agent.addr, daddr := entry.nodeAddr } }
      c.targetRecv
  -- `index` was never assigned
  | none => c.fail (.memoryIndex none)

/-- The updates for the destinations in `count` slots from `index` on. -/
def updateFrom (ah : HdrAntPkt K) (next : NsAddr) :
    (index count : ℕ) → Call K → Except (Failure K) (Call K)
  | _, 0, c => .ok c
  | index, count + 1, c => do
      let entry ← c.lift (ah.read index)
      updateFrom ah next (index + 1) count (c.rtableUpdate entry.nodeAddr next)

def updateTable (sim : Sim) (c : Call K) : Except (Failure K) (Call K) := do
  let c := c.enter .updateTable
  let p ← c.pkt
  let i ← c.lift (HdrAntPkt.scanUnbounded c.agent.addr 0 p.ant.pktMemory)
  let entry ← c.lift (p.ant.read (i + 1 : ℕ))
  let c := { c with
    globals := { c.globals with n := sim.getNumNeighbors c.agent.addr } }
  updateFrom p.ant entry.nodeAddr (i + 1) (p.ant.pktMemSize - (i + 1)) c

def initializeRtable (sim : Sim) (c : Call K) : Call K :=
  let self := c.agent
  let globals := { c.globals with numNodes := self.numNodes, r := self.rFactor }
  let numNb := sim.getNumNeighbors self.addr
  let rtable := (List.range globals.numNodes.toNat).foldl (fun rt (i : ℕ) =>
    if self.addr ≠ i then
      (sim.neighborList self.addr).foldl
        (fun rt neighb => Rtable.addEntry rt i neighb (1 / (numNb : K))) rt
    else rt) self.rtable
  { c with globals := globals, agent := { self with rtable := rtable } }

/-- The command `start`. -/
def start (sim : Sim) (c : Call K) : Call K :=
  let c := c.initializeRtable sim
  { c with agent := { c.agent with timerPending := true } }

/-- The command `stop`. -/
def stop (c : Call K) : Call K :=
  { c with agent := { c.agent with timerPending := false } }

variable [LinearOrder K]

/-- `rtable_.calc_next(addr(), dest, parent)`. -/
def calcNext (sim : Sim) (c : Call K) (dest parent : NsAddr) :
    Except (Failure K) (NsAddr × Call K) :=
  let result := Rtable.calcNext sim c.globals.n c.agent.rtable c.agent.addr dest parent c.draws
  let c := c.enter (.calcNext dest parent result)
  match result with
  | .ret next => .ok (next, c)
  | .offEnd => .ok (c.junk, c)
  | .looping => c.fail .looping

/-- Method to send a forward ant, called when the ant timer expires. -/
def sendAntPkt (sim : Sim) (c : Call K) : Except (Failure K) (Call K) := do
  let self := c.agent.addr
  let (p, c) := c.allocpkt sim
  let seqNum := c.agent.antSeqNum
  let c := { c with agent := { c.agent with antSeqNum := seqNum + 1 } }
  match Rtable.calcDestination sim c.globals.numNodes self c.raws with
  | none => c.fail .looping
  | some dest =>
      let c := c.enter (.calcDestination dest)
      let ah ← c.lift (p.ant.write 0 ⟨self, 0⟩)
      let p := { p with
        ant := { ah with
          pktType := forwardAnt
          pktSrc := self
          pktLen := antSize
          pktSeqNum := seqNum
          pktStartTime := c.now
          pktDst := dest
          pktMemSize := 1 }
        cmn := { p.cmn with
          ptype := ptAnt
          direction := .down
          size := sim.ipHdrLen + antSize.toNat
          error := 0
          addrType := nsAfInet } }
      let c := c.store p
      let (next, c) ← c.calcNext sim dest self
      if next = self then c.free
      else
        let p ← c.pkt
        let c := c.store { p with
          cmn := { p.cmn with nextHop := next }
          ip := { p.ip with saddr := self, daddr := next, ttl := 2 * c.globals.numNodes } }
        c.targetRecv

/-- Method to send a forward ant to the next hop the AntNet algorithm gives. -/
def forwardAntPkt (sim : Sim) (c : Call K) : Except (Failure K) (Call K) := do
  let c := c.enter .forwardAntPkt
  let p ← c.pkt
  let parent := p.ip.saddr
  let (next, c) ← c.calcNext sim p.ant.pktDst parent
  -- dead end
  if next = c.agent.addr ∨ next = parent then c.free
  else
    let p ← c.pkt
    let c := c.store { p with
      cmn := { p.cmn with nextHop := next }
      ip := { p.ip with saddr := c.agent.addr, daddr := next } }
    c.targetRecv

def recvAntPkt (sim : Sim) (c : Call K) : Except (Failure K) (Call K) := do
  let p ← c.pkt
  if p.ip.sport ≠ rtPort then c.fail .assertion
  else if p.ip.dport ≠ rtPort then c.fail .assertion
  else
    match p.cmn.direction with
    | .down =>
        if c.agent.addr = p.ant.pktDst then
          let c ← c.memorize
          c.createBackwardAntPkt
        else
          let c ← c.memorize
          c.forwardAntPkt sim
    | .up =>
        if c.agent.addr = p.ant.pktDst then
          -- travel complete
          let c ← c.updateTable sim
          c.free
        else
          let c ← c.updateTable sim
          c.backwardAntPkt
    | .none => .ok c

/-- Receive packets. -/
def recv (sim : Sim) (c : Call K) : Except (Failure K) (Call K) := do
  let p ← c.pkt
  if p.ip.saddr = c.agent.addr then
    if p.cmn.numForwards > 0 then c.drop
    -- the packet of the agent's own node is neither sent on nor released
    else .ok c
  else if p.cmn.ptype = ptAnt then c.recvAntPkt sim
  else c.drop

end Field

end Call

end AntAodv
