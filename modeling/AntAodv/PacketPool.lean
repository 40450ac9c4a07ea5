import AntAodv.Library.Linked
import AntAodv.Library.Transition
import AntAodv.Packet
import Mathlib.Data.Finset.Card
import Mathlib.Data.Multiset.Count

/-!
# The pool of packet objects

`packet.h`: packets are allocated from a free list, which is linked through the objects
themselves, and go back to it when their last reference is freed.  The data of a packet
are objects of their own, which a packet deletes with itself.
-/

namespace AntAodv

/-- A packet with all header bits zero. -/
def Packet.blank {K : Type} [Zero K] (slots : ℕ) : Packet K where
  cmn := ⟨0, 0, 0, 0, .none, 0, 0, 0⟩
  ip := ⟨0, 0, 0, 0, 0⟩
  ant := ⟨0, 0, 0, 0, 0, 0, List.replicate slots ⟨0, 0⟩, 0⟩

/-- A `Packet` object.  Objects and data are known by their addresses. -/
structure PacketObject (K : Type) where
  bits : Packet K
  data : Option ℕ
  fflag : Bool
  refCount : ℤ
  next : Option ℕ
  uid : ℤ
  time : K

/-- The objects made so far, the free list, and the data that are not deleted. -/
structure PacketPool (K D : Type) where
  size : ℕ
  object : ℕ → PacketObject K
  free : Option ℕ
  data : ℕ → Option D
  dataCount : ℕ

namespace PacketPool

variable {K D : Type}

def modify (pool : PacketPool K D) (p : ℕ) (change : PacketObject K → PacketObject K) :
    PacketPool K D :=
  { pool with object := Function.update pool.object p (change (pool.object p)) }

/-- `new` data of a packet. -/
def newData (pool : PacketPool K D) (content : D) : ℕ × PacketPool K D :=
  (pool.dataCount, { pool with
    data := Function.update pool.data pool.dataCount (some content)
    dataCount := pool.dataCount + 1 })

/-- `delete`, of data that were not deleted before. -/
def deleteData (pool : PacketPool K D) : Option ℕ → Option (PacketPool K D)
  | none => some pool
  | some d =>
      match pool.data d with
      | some _ => some { pool with data := Function.update pool.data d none }
      | none => none

/-- `p->refcopy()`. -/
def refcopy (pool : PacketPool K D) (p : ℕ) : PacketPool K D :=
  pool.modify p fun o => { o with refCount := o.refCount + 1 }

/-- `p->allocdata(n)`; the new data have no content yet. -/
def allocdata (pool : PacketPool K D) (p : ℕ) (junk : D) : Option (PacketPool K D) :=
  if (pool.object p).data = none then
    let (d, pool) := pool.newData junk
    some (pool.modify p fun o => { o with data := some d })
  else none

/-- `p->setdata(d)` for new data, or for none. -/
def setdata (pool : PacketPool K D) (p : ℕ) (content : Option D) : Option (PacketPool K D) := do
  let pool ← pool.deleteData (pool.object p).data
  match content with
  | some content =>
      let (d, pool) := pool.newData content
      some (pool.modify p fun o => { o with data := some d })
  | none => some (pool.modify p fun o => { o with data := none })

variable [Zero K]

/-- `Packet::alloc()`. -/
def alloc (slots : ℕ) (pool : PacketPool K D) : Option (ℕ × PacketPool K D) :=
  match pool.free with
  | some p =>
      if (pool.object p).fflag = false ∧ (pool.object p).data = none then
        some (p, { pool with free := (pool.object p).next }.modify p fun o =>
          { o with uid := 0, time := 0, bits := Packet.alloc slots, fflag := true, next := none })
      else none
  | none =>
      some (pool.size, { pool with
        size := pool.size + 1
        object := Function.update pool.object pool.size
          ⟨Packet.alloc slots, none, true, 0, none, 0, 0⟩ })

/-- `Packet::alloc(n)` for a positive `n`. -/
def allocWith (slots : ℕ) (pool : PacketPool K D) (junk : D) : Option (ℕ × PacketPool K D) := do
  let (p, pool) ← pool.alloc slots
  let pool ← pool.allocdata p junk
  some (p, pool)

/-- `Packet::free(p)`. -/
def freePacket (slots : ℕ) (pool : PacketPool K D) (p : ℕ) : Option (PacketPool K D) :=
  let o := pool.object p
  if o.fflag then
    if o.refCount = 0 then
      if o.uid ≤ 0 then do
        let pool ← pool.deleteData o.data
        let pool := pool.modify p fun o =>
          { o with data := none, bits := Packet.blank slots, next := pool.free, fflag := false }
        some { pool with free := some p }
      else none
    else some (pool.modify p fun o => { o with refCount := o.refCount - 1 })
  else some pool

/-- `p->copy()`. -/
def copy (slots : ℕ) (pool : PacketPool K D) (p : ℕ) : Option (ℕ × PacketPool K D) := do
  let (q, pool) ← pool.alloc slots
  let pool := pool.modify q fun o => { o with bits := (pool.object p).bits }
  match (pool.object p).data with
  | some d =>
      let content ← pool.data d
      let (d', pool) := pool.newData content
      some (q, pool.modify q fun o => { o with data := some d' })
  | none => some (q, pool)

end PacketPool

/-- What the users of packets do with them. -/
inductive PoolCommand (K D : Type) where
  | alloc
  | allocWith (junk : D)
  | allocdata (p : ℕ) (junk : D)
  | setdata (p : ℕ) (content : Option D)
  | free (p : ℕ)
  | refcopy (p : ℕ)
  | copy (p : ℕ)
  /-- The header is written. -/
  | write (p : ℕ) (bits : Packet K)
  /-- The packet is put into a list: its `next_` is written. -/
  | link (p : ℕ) (next : Option ℕ)
  /-- The scheduler gives it an identity as an event, or takes it back. -/
  | event (p : ℕ) (uid : ℤ) (time : K)

/-- The packet a command is given. -/
def PoolCommand.packet {K D : Type} : PoolCommand K D → Option ℕ
  | .alloc => none
  | .allocWith _ => none
  | .allocdata p _ => some p
  | .setdata p _ => some p
  | .free p => some p
  | .refcopy p => some p
  | .copy p => some p
  | .write p _ => some p
  | .link p _ => some p
  | .event p _ _ => some p

/-- The pool with the references its users hold. -/
structure PoolUsers (K D : Type) where
  pool : PacketPool K D
  held : Multiset ℕ
  /-- The most packets that were ever held at once. -/
  peak : ℕ

namespace PoolUsers

variable {K D : Type}

/-- The users hold these references of a pool. -/
def hold (state : PoolUsers K D) (held : Multiset ℕ) (pool : PacketPool K D) : PoolUsers K D where
  pool := pool
  held := held
  peak := max state.peak held.toFinset.card

/-- A user works only with packets that it holds, allocates data only where there are none,
and gives no packet away that the scheduler still has. -/
def Enabled (state : PoolUsers K D) (command : PoolCommand K D) : Prop :=
  (∀ p ∈ command.packet, p ∈ state.held) ∧
    (∀ p junk, command = .allocdata p junk → (state.pool.object p).data = none) ∧
    ∀ p, command = .free p → state.held.count p = 1 → (state.pool.object p).uid ≤ 0

variable [Zero K]

def exec (slots : ℕ) (state : PoolUsers K D) : PoolCommand K D → Option (PoolUsers K D)
  | .alloc => (state.pool.alloc slots).map fun (p, pool) => state.hold (p ::ₘ state.held) pool
  | .allocWith junk => (state.pool.allocWith slots junk).map fun (p, pool) =>
      state.hold (p ::ₘ state.held) pool
  | .allocdata p junk => (state.pool.allocdata p junk).map (state.hold state.held)
  | .setdata p content => (state.pool.setdata p content).map (state.hold state.held)
  | .free p => (state.pool.freePacket slots p).map (state.hold (state.held.erase p))
  | .refcopy p => some (state.hold (p ::ₘ state.held) (state.pool.refcopy p))
  | .copy p => (state.pool.copy slots p).map fun (q, pool) => state.hold (q ::ₘ state.held) pool
  | .write p bits => some (state.hold state.held (state.pool.modify p fun o =>
      { o with bits := bits }))
  | .link p next => some (state.hold state.held (state.pool.modify p fun o =>
      { o with next := next }))
  | .event p uid time => some (state.hold state.held (state.pool.modify p fun o =>
      { o with uid := uid, time := time }))

end PoolUsers

/-- The runs of the users of a pool that is empty at first. -/
def packetPool (K D : Type) [Zero K] (slots : ℕ) :
    TransitionSystem (PoolUsers K D) (PoolCommand K D) where
  init state := state.pool.size = 0 ∧ state.pool.free = none ∧ (∀ d, state.pool.data d = none) ∧
    state.held = 0 ∧ state.peak = 0
  step state command state' := state.Enabled command ∧ state.exec slots command = some state'

end AntAodv
