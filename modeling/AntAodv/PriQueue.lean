import AntAodv.Library.Transition
import AntAodv.Packet
import Mathlib.Data.List.Pairwise
import Mathlib.Data.List.Range

/-!
# The interface queue

`priqueue.cc` and `drop-tail.cc`: a queue that puts packets of routing protocols and
backward ants in front of all others, and the priority this gives them.
`PacketQueue` is a list, and `Queue::recv` a parameter.
-/

namespace AntAodv

/-- A packet object, known by the number of its arrival. -/
structure Arrival (K : Type) where
  number : ℕ
  packet : Packet K
  deriving DecidableEq

/-- What a queue does with a packet. -/
inductive QueueOp (K : Type) where
  | sent (p : Arrival K)
  /-- The packet is dropped, with these packets left in the queue. -/
  | dropped (p : Arrival K) (left : List (Arrival K))
  deriving DecidableEq

/-- The settings of a queue. -/
structure QueueParams where
  preferRoutingProtocols : ℤ
  qlim : ℤ
  /-- Whether the queue is measured in bytes. -/
  qib : Bool
  meanPktsize : ℤ
  dropFront : Bool
  deriving DecidableEq

/-- The state of a queue, with what it has done so far. -/
structure PriQueue (K : Type) where
  blocked : Bool
  q : List (Arrival K)
  log : List (QueueOp K)
  deriving DecidableEq

namespace PriQueue

variable {K : Type}

/-- `q_->byteLength()`. -/
def byteLength (pq : PriQueue K) : ℤ := (pq.q.map fun p => p.packet.cmn.size).sum

/-- `drop(p)`. -/
def drop (pq : PriQueue K) (p : Arrival K) : PriQueue K :=
  { pq with log := pq.log ++ [.dropped p pq.q] }

/-- `q_->remove(p)`. -/
def remove (pq : PriQueue K) (p : Arrival K) : PriQueue K :=
  { pq with q := pq.q.eraseP fun other => other.number = p.number }

/-- `DropTail::deque`. -/
def deque (pq : PriQueue K) : Option (Arrival K) × PriQueue K :=
  (pq.q.head?, { pq with q := pq.q.tail })

/-- `DropTail::enque`. -/
def enque (params : QueueParams) (pq : PriQueue K) (p : Arrival K) : PriQueue K :=
  let qlimBytes := params.qlim * params.meanPktsize
  if (params.qib = false ∧ (pq.q.length : ℤ) + 1 ≥ params.qlim) ∨
      (params.qib = true ∧ pq.byteLength + p.packet.cmn.size ≥ qlimBytes) then
    -- the queue would overflow with this packet
    if params.dropFront then
      let pq := { pq with q := pq.q ++ [p] }
      match pq.deque with
      | (some pp, pq) => pq.drop pp
      | (none, pq) => pq
    else pq.drop p
  else { pq with q := pq.q ++ [p] }

/-- Send one packet on, unless the queue is blocked. -/
def sendUnblocked (pq : PriQueue K) : PriQueue K :=
  if pq.blocked then pq
  else
    match pq.deque with
    | (some p, pq) => { pq with blocked := true, log := pq.log ++ [.sent p] }
    | (none, pq) => pq

def recvHighPriority (params : QueueParams) (pq : PriQueue K) (p : Arrival K) : PriQueue K :=
  -- insert the packet at the front of the queue
  let pq := { pq with q := p :: pq.q }
  let pq :=
    if (pq.q.length : ℤ) ≥ params.qlim then
      match pq.q[pq.q.length - 1]? with
      | some toDrop => (pq.remove toDrop).drop toDrop
      | none => pq
    else pq
  pq.sendUnblocked

/-- `PriQueue::recv`, where `base` is `Queue::recv`. -/
def recv (base : PriQueue K → Arrival K → PriQueue K) (params : QueueParams) (pq : PriQueue K)
    (p : Arrival K) : PriQueue K :=
  if params.preferRoutingProtocols ≠ 0 then
    if p.packet.cmn.ptype = ptDsr ∨ p.packet.cmn.ptype = ptMessage ∨
        p.packet.cmn.ptype = ptTora ∨ p.packet.cmn.ptype = ptAodv ∨
        p.packet.cmn.ptype = ptAomdv ∨ p.packet.cmn.ptype = ptMdart then
      pq.recvHighPriority params p
    else if p.packet.cmn.ptype = ptAnt then
      if p.packet.cmn.direction = .up then pq.recvHighPriority params p
      else base pq p
    else base pq p
  else base pq p

/-- A packet leaves the queue, if there is one, and `blocked_` is set. -/
def resume (pq : PriQueue K) (blocked : Bool) : PriQueue K :=
  match pq.deque with
  | (some p, pq) => { pq with blocked := blocked, log := pq.log ++ [.sent p] }
  | (none, pq) => { pq with blocked := blocked }

end PriQueue

/-- A queue with all packets that have arrived at it. -/
structure Interface (K : Type) where
  pq : PriQueue K
  arrived : List (Arrival K)
  deriving DecidableEq

inductive QueueEvent (K : Type) where
  | arrive (packet : Packet K)
  | dequeue (blocked : Bool)

/-- The next packet to arrive. -/
def Interface.arrival {K : Type} (state : Interface K) (packet : Packet K) : Arrival K :=
  ⟨state.arrived.length, packet⟩

/-- The interface after an event. -/
def Interface.handle {K : Type} (base : PriQueue K → Arrival K → PriQueue K)
    (params : QueueParams) (state : Interface K) : QueueEvent K → Interface K
  | .arrive packet =>
      { pq := state.pq.recv base params (state.arrival packet)
        arrived := state.arrived ++ [state.arrival packet] }
  | .dequeue blocked => { state with pq := state.pq.resume blocked }

/-- The runs of an interface queue that is empty at first. -/
def interfaceQueue {K : Type} (base : PriQueue K → Arrival K → PriQueue K)
    (params : QueueParams) : TransitionSystem (Interface K) (QueueEvent K) where
  init state := state.pq.q = [] ∧ state.pq.log = [] ∧ state.arrived = []
  step state event state' := state' = state.handle base params event

end AntAodv
