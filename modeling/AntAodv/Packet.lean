import AntAodv.Common

/-!
# Packets

The header fields the agent reads or writes (`packet.h`, `ip.h`, `ant_pkt.h`)
and the accesses to the route memory of an ant.
-/

namespace AntAodv

/-- `hdr_cmn::dir_t`. -/
inductive Dir where
  | down
  | none
  | up
  deriving DecidableEq

/-- `hdr_cmn`. -/
structure HdrCmn where
  ptype : PacketT
  size : ℤ
  uid : ℕ
  error : ℤ
  direction : Dir
  nextHop : NsAddr
  addrType : ℤ
  numForwards : ℤ
  deriving DecidableEq

/-- `hdr_ip`. -/
structure HdrIp where
  saddr : NsAddr
  sport : ℤ
  daddr : NsAddr
  dport : ℤ
  ttl : ℤ
  deriving DecidableEq

/-- `struct memory`. -/
structure Memory (K : Type) where
  nodeAddr : NsAddr
  tripTime : K
  deriving DecidableEq

/-- `hdr_ant_pkt`.  `pktMemory` holds every slot of the array, those beyond
`pktMemSize` included. -/
structure HdrAntPkt (K : Type) where
  pktType : UInt8
  pktSrc : NsAddr
  pktDst : NsAddr
  pktLen : UInt16
  pktSeqNum : UInt8
  pktStartTime : K
  pktMemory : List (Memory K)
  pktMemSize : ℕ
  deriving DecidableEq

structure Packet (K : Type) where
  cmn : HdrCmn
  ip : HdrIp
  ant : HdrAntPkt K
  deriving DecidableEq

/-- `Packet::alloc`: all header bits zero, the direction down and the next hop
not yet set. -/
def Packet.alloc {K : Type} [Zero K] (slots : ℕ) : Packet K where
  cmn := ⟨0, 0, 0, 0, .down, -2, 0, 0⟩
  ip := ⟨0, 0, 0, 0, 0⟩
  ant := ⟨0, 0, 0, 0, 0, 0, List.replicate slots ⟨0, 0⟩, 0⟩

/-- What the code leaves undefined, and calls that have not ended. -/
inductive Fault where
  /-- `pkt_memory_` is accessed at an index outside the array, or at one that
  was never assigned. -/
  | memoryIndex (index : Option ℤ)
  /-- A header is accessed, or the packet given away, after the packet was given
  away. -/
  | released
  | assertion
  /-- A `do`-`while` loop over random draws has used up the draws given. -/
  | looping
  deriving DecidableEq

namespace HdrAntPkt

variable {K : Type}

/-- The entries of the memory in use. -/
def live (ah : HdrAntPkt K) : List (Memory K) := ah.pktMemory.take ah.pktMemSize

/-- The addresses in the memory in use. -/
def path (ah : HdrAntPkt K) : List NsAddr := ah.live.map Memory.nodeAddr

/-- Read `pkt_memory_[index]`. -/
def read (ah : HdrAntPkt K) (index : ℤ) : Except Fault (Memory K) :=
  match index with
  | .ofNat i =>
      match ah.pktMemory[i]? with
      | some entry => .ok entry
      | none => .error (.memoryIndex (some index))
  | .negSucc _ => .error (.memoryIndex (some index))

/-- Write `pkt_memory_[index]`. -/
def write (ah : HdrAntPkt K) (index : ℕ) (entry : Memory K) : Except Fault (HdrAntPkt K) :=
  if index < ah.pktMemory.length then
    .ok { ah with pktMemory := ah.pktMemory.set index entry }
  else .error (.memoryIndex (some index))

/-- The scan of `memorize` for `addr`, `count` slots from `index` on. -/
def scanUp (ah : HdrAntPkt K) (addr : NsAddr) : (index count : ℕ) → Except Fault (Option ℕ)
  | _, 0 => .ok none
  | index, count + 1 => do
      let entry ← ah.read index
      if entry.nodeAddr = addr then .ok (some index)
      else ah.scanUp addr (index + 1) count

/-- The scan of `backward_ant_pkt` for `addr`, from slot `count - 1` down. -/
def scanDown (ah : HdrAntPkt K) (addr : NsAddr) : (count : ℕ) → Except Fault (Option ℕ)
  | 0 => .ok none
  | index + 1 => do
      let entry ← ah.read index
      if entry.nodeAddr = addr then .ok (some index)
      else ah.scanDown addr index

/-- The scan `for(i=0; pkt_memory_[i].node_addr != addr; i++)`, which has no
bound: behind the last slot it leaves the array. -/
def scanUnbounded (addr : NsAddr) : (index : ℕ) → List (Memory K) → Except Fault ℕ
  | index, [] => .error (.memoryIndex (some index))
  | index, entry :: slots =>
      if entry.nodeAddr = addr then .ok index else scanUnbounded addr (index + 1) slots

/-- Add `extra` to the trip times of the first `count` slots. -/
def shiftTimes [Add K] (extra : K) : (count : ℕ) → HdrAntPkt K → Except Fault (HdrAntPkt K)
  | 0, ah => .ok ah
  | count + 1, ah => do
      let ah ← ah.shiftTimes extra count
      let entry ← ah.read count
      ah.write count { entry with tripTime := entry.tripTime + extra }

end HdrAntPkt

end AntAodv
