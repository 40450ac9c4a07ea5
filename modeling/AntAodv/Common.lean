import Mathlib.Algebra.Order.Field.Basic
import Mathlib.Data.Finset.Image
import Mathlib.Data.Finset.Range

/-!
# Constants and surroundings of an agent

The constants of `antnet_common.h` and `ant_pkt.h`, the three process-wide
variables of `antnet_rtable.cc`, and what the simulator outside these files
gives to an agent.  `double` is any linearly ordered type with the operations the
sources use; where a result needs them to be exact, it is about an ordered field.
-/

namespace AntAodv

/-- `nsaddr_t`. -/
abbrev NsAddr := ℤ

/-- `MAX_NUM_NODES`. -/
def maxNumNodes : ℕ := 16

/-- `ANT_SIZE`. -/
def antSize : UInt16 := 7

/-- `FORWARD_ANT`. -/
def forwardAnt : UInt8 := 0x01

/-- The operations on `double` that the sources use.  No law is assumed of them. -/
class Arithmetic (K : Type) where
  zero : K
  one : K
  add : K → K → K
  sub : K → K → K
  mul : K → K → K
  div : K → K → K
  natCast : ℕ → K
  intCast : ℤ → K

section Arithmetic

variable {K : Type}

instance (priority := low) [Arithmetic K] : Zero K := ⟨Arithmetic.zero⟩

instance (priority := low) [Arithmetic K] : One K := ⟨Arithmetic.one⟩

instance (priority := low) [Arithmetic K] : Add K := ⟨Arithmetic.add⟩

instance (priority := low) [Arithmetic K] : Sub K := ⟨Arithmetic.sub⟩

instance (priority := low) [Arithmetic K] : Mul K := ⟨Arithmetic.mul⟩

instance (priority := low) [Arithmetic K] : Div K := ⟨Arithmetic.div⟩

instance (priority := low) [Arithmetic K] : NatCast K := ⟨Arithmetic.natCast⟩

instance (priority := low) [Arithmetic K] : IntCast K := ⟨Arithmetic.intCast⟩

/-- The operations of a field. -/
instance (priority := low) exactArithmetic [Field K] : Arithmetic K :=
  ⟨0, 1, (· + ·), (· - ·), (· * ·), (· / ·), Nat.cast, Int.cast⟩

/-- No operation rounds: they are those of a linearly ordered field. -/
def Exact (K : Type) [arithmetic : Arithmetic K] [LinearOrder K] : Prop :=
  ∃ _ : Field K, IsStrictOrderedRing K ∧ arithmetic = exactArithmetic

theorem exact_of_field {K : Type} [Field K] [LinearOrder K] [IsStrictOrderedRing K] : Exact K :=
  ⟨inferInstance, inferInstance, rfl⟩

end Arithmetic

/-- `ALPHA`. -/
def alpha {K : Type} [Arithmetic K] : K := 45 / 100

/-- `packet_t`, a number. -/
abbrev PacketT := ℕ

/-- `PT_ANT`. -/
def ptAnt : PacketT := 73

/-! The other types `PT_…` that the sources name. -/

def ptTcp : PacketT := 0

def ptUdp : PacketT := 1

def ptCbr : PacketT := 2

def ptAck : PacketT := 5

def ptMessage : PacketT := 13

def ptArp : PacketT := 34

def ptMac : PacketT := 35

def ptTora : PacketT := 36

def ptDsr : PacketT := 37

def ptAodv : PacketT := 38

def ptImep : PacketT := 39

def ptSctp : PacketT := 55

def ptSmac : PacketT := 57

def ptAomdv : PacketT := 61

def ptMdart : PacketT := 72

/-- `RT_PORT`, the port of the routing agent. -/
def rtPort : ℤ := 255

/-- `NS_AF_INET`. -/
def nsAfInet : ℤ := 2

/-- The process-wide variables `r`, `N` and `NUM_NODES`, shared by all agents. -/
structure Globals (K : Type) where
  r : K
  n : ℤ
  numNodes : ℤ

/-- The side of the simulator an agent relies on: the nodes with their neighbour
lists and link queues, the random number generator, and the number of slots of
`pkt_memory_` (`MAX_NUM_NODES` in the code). -/
structure Sim where
  nodes : Finset NsAddr
  neighborList : NsAddr → List NsAddr
  queueLength : NsAddr → NsAddr → ℕ
  /-- `RNG::uniform(int)`, as a function of the generator's raw output. -/
  uniform : ℕ → ℤ → ℤ
  uniform_range : ∀ raw bound, 0 < bound → 0 ≤ uniform raw bound ∧ uniform raw bound < bound
  ipHdrLen : ℤ
  slots : ℕ

/-- `get_num_neighbors`. -/
def Sim.getNumNeighbors (sim : Sim) (nodeAddr : NsAddr) : ℕ :=
  (sim.neighborList nodeAddr).length

/-- `get_queue_length`. -/
def Sim.getQueueLength (sim : Sim) (node1 node2 : NsAddr) : ℕ :=
  sim.queueLength node1 node2

/-- A topology without queued packets, with a generator that reduces its raw
outputs modulo the bound. -/
def Sim.idle (nodes : Finset NsAddr) (neighborList : NsAddr → List NsAddr) (slots : ℕ) : Sim where
  nodes := nodes
  neighborList := neighborList
  queueLength _ _ := 0
  uniform raw bound := raw % bound
  uniform_range _ _ positive :=
    ⟨Int.emod_nonneg _ positive.ne', Int.emod_lt_of_pos _ positive⟩
  ipHdrLen := 20
  slots := slots

/-- The nodes `0`, ..., `count - 1` in a line. -/
def Sim.line (count slots : ℕ) : Sim :=
  .idle ((Finset.range count).map ⟨fun node : ℕ => (node : ℤ), Nat.cast_injective⟩)
    (fun node => (if node = 0 then [] else [node - 1]) ++
      if node + 1 < count then [node + 1] else []) slots

theorem Sim.mem_line {count slots : ℕ} {node : ℤ} :
    node ∈ (Sim.line count slots).nodes ↔ 0 ≤ node ∧ node < count := by
  simp only [Sim.line, Sim.idle, Finset.mem_map, Finset.mem_range, Function.Embedding.coeFn_mk]
  constructor
  · rintro ⟨index, below, rfl⟩
    omega
  · intro inside
    exact ⟨node.toNat, by omega, by omega⟩

theorem Sim.nodup_line {count slots : ℕ} (node : ℤ) :
    ((Sim.line count slots).neighborList node).Nodup := by
  have apart : node - 1 ≠ node + 1 := by omega
  simp only [Sim.line, Sim.idle]
  split <;> split <;> simp [apart]

/-- With two nodes or more, every node of a line has a neighbour. -/
theorem Sim.line_connected {count slots : ℕ} (two : 2 ≤ count) (node : ℤ) :
    (Sim.line count slots).neighborList node ≠ [] := by
  by_cases first : node = 0
  · subst first
    have more : (0 : ℤ) + 1 < count := by omega
    simp only [Sim.line, Sim.idle, if_pos more]
    simp
  · simp [Sim.line, Sim.idle, first]

end AntAodv
