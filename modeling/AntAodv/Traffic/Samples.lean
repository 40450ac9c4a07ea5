import AntAodv.Agent.Memory
import AntAodv.Library.Smoothing
import AntAodv.Traffic

/-!
# The samples of an ant

Every node an ant visited after this one gives one sample: its trip time counted
from this node.  A call of `update_traffic` is three passes over the samples of
its ant, and what it leaves is a function of all samples so far.
-/

namespace AntAodv

namespace HdrAntPkt

variable {K : Type} [Field K]

/-- The destinations behind `addr` in memory, with their trip times from there. -/
def sampled (addr : NsAddr) (ah : HdrAntPkt K) : List (NsAddr × K) :=
  match ah.live.dropWhile (fun entry => decide (entry.nodeAddr ≠ addr)) with
  | [] => []
  | self :: rest => rest.map fun entry => (entry.nodeAddr, entry.tripTime - self.tripTime)

theorem sampled_eq {addr : NsAddr} {ah : HdrAntPkt K} {before rest : List (Memory K)}
    {self : Memory K} (split : ah.live = before ++ self :: rest)
    (fresh : addr ∉ before.map Memory.nodeAddr) (found : self.nodeAddr = addr) :
    ah.sampled addr = rest.map fun entry => (entry.nodeAddr, entry.tripTime - self.tripTime) := by
  have others : ∀ entry ∈ before, decide (entry.nodeAddr ≠ addr) = true := by
    intro entry member
    apply decide_eq_true
    rintro rfl
    exact fresh (List.mem_map_of_mem member)
  rw [sampled, split, List.dropWhile_append_of_pos others,
    List.dropWhile_cons_of_neg (by simp [found])]

variable [LinearOrder K]

/-- An ant that visited other nodes after `addr`, each later than `addr`. -/
structure Feeds (addr : NsAddr) (ah : HdrAntPkt K) : Prop where
  bounded : ah.pktMemSize ≤ ah.pktMemory.length
  visited : addr ∈ ah.path.dropLast
  positive : ∀ sample ∈ ah.sampled addr, 0 < sample.2

/-- An ant that visited distinct nodes one after the other, and other nodes after
`addr`. -/
structure Travelled (addr : NsAddr) (ah : HdrAntPkt K) : Prop where
  bounded : ah.pktMemSize ≤ ah.pktMemory.length
  distinct : ah.path.Nodup
  visited : addr ∈ ah.path.dropLast
  increasing : (ah.live.map Memory.tripTime).Pairwise (· < ·)

omit [Field K] [LinearOrder K] in
/-- The memory around the first slot of `addr`. -/
theorem exists_split {addr : NsAddr} {ah : HdrAntPkt K} (visited : addr ∈ ah.path.dropLast) :
    ∃ before self next rest, ah.live = before ++ self :: next :: rest ∧
      addr ∉ before.map Memory.nodeAddr ∧ self.nodeAddr = addr := by
  obtain ⟨before, self, after, split, fresh, found⟩ :=
    exists_first_slot (List.mem_of_mem_dropLast visited)
  cases after with
  | nil =>
      -- the node would be the last one only
      rw [path, split, List.map_append, List.map_singleton, List.dropLast_concat] at visited
      exact absurd visited fresh
  | cons next rest => exact ⟨before, self, next, rest, split, fresh, found⟩

theorem Travelled.feeds [IsStrictOrderedRing K] {addr : NsAddr} {ah : HdrAntPkt K}
    (travelled : ah.Travelled addr) : ah.Feeds addr := by
  refine ⟨travelled.bounded, travelled.visited, ?_⟩
  obtain ⟨before, self, next, rest, split, fresh, found⟩ := exists_split travelled.visited
  have increasing := travelled.increasing
  rw [split, List.map_append, List.map_cons] at increasing
  have later := (List.pairwise_cons.mp (List.pairwise_append.mp increasing).2.1).1
  rw [sampled_eq split fresh found]
  intro sample member
  rcases List.mem_map.mp member with ⟨entry, inRest, rfl⟩
  exact sub_pos.mpr (later _ (List.mem_map_of_mem inRest))

end HdrAntPkt

namespace Traffic

variable {K : Type}

@[simp]
theorem ofMemory_ok {α : Type} (value : α) : ofMemory (.ok value) = .ok value := rfl

/-- `body` for each sample in order. -/
def forSamples (body : NsAddr → K → Traffic K → Except TrafficFault (Traffic K)) :
    List (NsAddr × K) → Traffic K → Except TrafficFault (Traffic K)
  | [], t => .ok t
  | (dest, tt) :: samples, t => do
      let t ← body dest tt t
      forSamples body samples t

variable [Field K]

theorem forSlots_eq {ah : HdrAntPkt K} {before rest : List (Memory K)}
    (split : ah.live = before ++ rest) (initialtt : K)
    (body : NsAddr → K → Traffic K → Except TrafficFault (Traffic K)) (t : Traffic K) :
    forSlots ah initialtt body before.length rest.length t =
      forSamples body (rest.map fun entry => (entry.nodeAddr, entry.tripTime - initialtt)) t := by
  induction rest generalizing before t with
  | nil => rfl
  | cons head rest inductionHypothesis =>
      have further : ah.live = (before ++ [head]) ++ rest := by simpa using split
      have remaining := inductionHypothesis further
      simp only [List.length_append, List.length_singleton] at remaining
      rw [List.length_cons, forSlots, HdrAntPkt.read_live split, ofMemory_ok, ok_bind]
      simp only [remaining]
      rfl

/-- What a call reads of its ant, and its loops as passes over the samples. -/
theorem exists_slots {addr : NsAddr} {ah : HdrAntPkt K}
    (bounded : ah.pktMemSize ≤ ah.pktMemory.length) (visited : addr ∈ ah.path.dropLast) :
    ∃ (i : ℕ) (self next : Memory K),
      HdrAntPkt.scanUnbounded addr 0 ah.pktMemory = .ok i ∧ ah.read i = .ok self ∧
      ah.read ((i + 1 : ℕ) : ℤ) = .ok next ∧
      ∀ body t, forSlots ah self.tripTime body (i + 1) (ah.pktMemSize - (i + 1)) t =
        forSamples body (ah.sampled addr) t := by
  obtain ⟨before, self, next, rest, split, fresh, found⟩ := HdrAntPkt.exists_split visited
  have order : ah.live = (before ++ [self]) ++ next :: rest := by simpa using split
  have scan : HdrAntPkt.scanUnbounded addr 0 ah.pktMemory = .ok before.length := by
    rw [HdrAntPkt.pktMemory_eq, split, List.append_assoc, List.cons_append,
      HdrAntPkt.scanUnbounded_found fresh found, Nat.zero_add]
  have slot : ah.read ((before.length + 1 : ℕ) : ℤ) = .ok next := by
    simpa using HdrAntPkt.read_live order
  have count : ah.pktMemSize - (before.length + 1) = (next :: rest).length := by
    rw [← HdrAntPkt.length_live bounded, split]
    simp only [List.length_append, List.length_cons]
    omega
  have loop := fun body t => forSlots_eq order self.tripTime body t
  simp only [List.length_append, List.length_singleton] at loop
  refine ⟨before.length, self, next, scan, HdrAntPkt.read_live split, slot, ?_⟩
  intro body t
  rw [count, loop, HdrAntPkt.sampled_eq split fresh found]

variable [LinearOrder K]

/-- A call is three passes over the samples of its ant. -/
theorem updateTraffic_eq (sqrt : K → K) {addr : NsAddr} {ah : HdrAntPkt K}
    (bounded : ah.pktMemSize ≤ ah.pktMemory.length) (visited : addr ∈ ah.path.dropLast)
    (t : Traffic K) :
    t.updateTraffic sqrt addr ah = (do
      let t ← forSamples (fun dest tt t => .ok (t.updateWindow dest tt)) (ah.sampled addr) t
      let t ← forSamples updateState (ah.sampled addr) t
      forSamples (findR sqrt) (ah.sampled addr) t) := by
  obtain ⟨i, self, next, scan, slot, slotNext, loop⟩ := exists_slots bounded visited
  rw [updateTraffic, scan]
  simp only [ofMemory_ok, ok_bind, slot, slotNext, loop]

end Traffic

end AntAodv
