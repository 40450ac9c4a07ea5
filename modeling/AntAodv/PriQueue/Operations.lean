import AntAodv.PriQueue.Priority
import Mathlib.Algebra.Order.BigOperators.Group.List
import Mathlib.Data.List.ReduceOption

/-!
# Taking packets out of the interface queue

The operations of `priqueue.cc` and `drop-tail.cc` that neither receive a packet nor
send one: the two filters, `shrink_queue` and `Terminate`.  A filter takes packets out
of the queue without dropping them.
-/

namespace AntAodv

namespace PriQueue

variable {K S : Type}

/-- `DropTail::getlength`. -/
def getlength (pq : PriQueue K) : ℕ := pq.q.length

theorem length_remove {pq : PriQueue K} {p : Arrival K} (waiting : p ∈ pq.q) :
    (pq.remove p).q.length + 1 = pq.q.length := by
  have found : ∃ other ∈ pq.q, decide (other.number = p.number) = true := ⟨p, waiting, by simp⟩
  obtain ⟨other, membership, same⟩ := found
  have shorter := List.length_eraseP_of_mem (p := fun other : Arrival K =>
    decide (other.number = p.number)) membership same
  have positive := List.length_pos_of_mem waiting
  simp only [remove]
  omega

/-- `PriQueue::filter(PacketFilter, void*)` from index `i` on, with a filter that may
change the data it is given.  The packets it takes out come first. -/
def filterFrom (filter : Arrival K → S → Bool × S) (data : S) (pq : PriQueue K) (i : ℕ) :
    List (Arrival K) × S × PriQueue K :=
  if inside : i < pq.q.length then
    let p := pq.q[i]
    let (matched, data) := filter p data
    if matched then
      let (taken, data, rest) := filterFrom filter data (pq.remove p) i
      (p :: taken, data, rest)
    else filterFrom filter data pq (i + 1)
  else ([], data, pq)
termination_by pq.q.length - i
decreasing_by
  · have waiting : pq.q[i] ∈ pq.q := List.getElem_mem inside
    have shorter := length_remove waiting
    omega
  · omega

/-- `PriQueue::filter(PacketFilter, void*)`. -/
def filter (filter : Arrival K → S → Bool × S) (data : S) (pq : PriQueue K) :
    List (Arrival K) × S × PriQueue K :=
  pq.filterFrom filter data 0

/-- The scan of `filter(nsaddr_t)`: the first packet for the next hop `id`, and the
packet before it. -/
def findNextHop (id : NsAddr) : Option (Arrival K) → List (Arrival K) →
    Option (Arrival K × Option (Arrival K))
  | _, [] => none
  | pp, p :: rest =>
      if p.packet.cmn.nextHop = id then some (p, pp) else findNextHop id (some p) rest

/-- `q_->remove(p, pp)`: the packet behind `pp` is unlinked. -/
def removeBehind (pp : Arrival K) : List (Arrival K) → List (Arrival K)
  | [] => []
  | first :: rest =>
      if first.number = pp.number then first :: rest.tail else first :: removeBehind pp rest

/-- `PriQueue::filter(nsaddr_t)`. -/
def filterNextHop (id : NsAddr) (pq : PriQueue K) : Option (Arrival K) × PriQueue K :=
  match findNextHop id none pq.q with
  | none => (none, pq)
  | some (p, none) => (some p, pq.remove p)
  | some (p, some pp) => (some p, { pq with q := removeBehind pp pq.q })

/-- The condition of the loop of `shrink_queue`. -/
def Overfull (params : QueueParams) (pq : PriQueue K) : Prop :=
  (params.qib = false ∧ (pq.q.length : ℤ) > params.qlim) ∨
    (params.qib = true ∧ pq.byteLength > params.qlim * params.meanPktsize)

instance (params : QueueParams) (pq : PriQueue K) : Decidable (pq.Overfull params) :=
  inferInstanceAs (Decidable (_ ∨ _))

/-- `DropTail::shrink_queue`; `none` when it takes a packet from an empty queue. -/
def shrinkQueue (params : QueueParams) (pq : PriQueue K) : Option (PriQueue K) :=
  if pq.Overfull params then
    if params.dropFront then
      match _ : pq.q with
      | [] => none
      | pp :: rest => shrinkQueue params ({ pq with q := rest }.drop pp)
    else
      match _ : pq.q.getLast? with
      | none => none
      | some pp => shrinkQueue params ((pq.remove pp).drop pp)
  else some pq
termination_by pq.q.length
decreasing_by
  · rename_i waiting
    simp [drop, waiting]
  · rename_i tail
    have shorter := length_remove (List.mem_of_getLast? tail)
    simp only [drop]
    omega

/-- `PriQueue::Terminate`. -/
def terminate (pq : PriQueue K) : PriQueue K :=
  match _ : pq.q with
  | [] => pq
  | p :: rest => terminate ({ pq with q := rest }.drop p)
termination_by pq.q.length
decreasing_by
  rename_i waiting
  simp [drop, waiting]

/-! ### What the filters do -/

/-- The packets a filter takes and those it leaves, when each packet of a list is
shown to it once, in order. -/
def select (filter : Arrival K → S → Bool × S) (data : S) :
    List (Arrival K) → List (Arrival K) × S × List (Arrival K)
  | [] => ([], data, [])
  | p :: rest =>
      let (matched, data) := filter p data
      let (taken, data, kept) := select filter data rest
      if matched then (p :: taken, data, kept) else (taken, data, p :: kept)

section Distinct

variable {pq : PriQueue K} {before rest : List (Arrival K)} {p pp : Arrival K}

theorem removeBehind_middle
    (distinct : ((before ++ pp :: p :: rest).map Arrival.number).Nodup) :
    removeBehind pp (before ++ pp :: p :: rest) = before ++ pp :: rest := by
  induction before with
  | nil => simp [removeBehind]
  | cons first before inductionHypothesis =>
      simp only [List.cons_append, List.map_cons, List.nodup_cons] at distinct
      have other : first.number ≠ pp.number := by
        intro same
        exact distinct.1 (by simp [same])
      rw [List.cons_append, removeBehind, if_neg other, inductionHypothesis distinct.2]
      rfl

theorem filterFrom_eq (filter : Arrival K → S → Bool × S) (data : S)
    (distinct : ((before ++ rest).map Arrival.number).Nodup) (waiting : pq.q = before ++ rest) :
    pq.filterFrom filter data before.length =
      let (taken, data, kept) := select filter data rest
      (taken, data, { pq with q := before ++ kept }) := by
  induction rest generalizing before data pq with
  | nil =>
      rw [filterFrom, dif_neg (by simp [waiting])]
      simp [select, ← waiting]
  | cons p rest inductionHypothesis =>
      have inside : before.length < pq.q.length := by simp [waiting]
      have here : pq.q[before.length] = p := by simp [waiting]
      rw [filterFrom, dif_pos inside, here, select]
      rcases answer : filter p data with ⟨matched, data'⟩
      cases matched with
      | true =>
          have fewer : ((before ++ rest).map Arrival.number).Nodup :=
            distinct.sublist (((List.sublist_cons_self p rest).append_left before).map _)
          have removed := remove_middle distinct waiting
          have later := @inductionHypothesis { pq with q := before ++ rest } before data' fewer rfl
          simp only [answer, if_true, removed, later]
      | false =>
          have moved : before ++ p :: rest = (before ++ [p]) ++ rest := by simp
          have later := @inductionHypothesis pq (before ++ [p]) data' (moved ▸ distinct)
            (moved ▸ waiting)
          rw [List.length_append, List.length_singleton] at later
          simp only [answer, Bool.false_eq_true, if_false, later, List.append_assoc,
            List.singleton_append]

/-- The filter is shown every packet once, in the order of the queue. -/
theorem filter_eq (filter : Arrival K → S → Bool × S) (data : S)
    (distinct : (pq.q.map Arrival.number).Nodup) :
    pq.filter filter data =
      let (taken, data, kept) := select filter data pq.q
      (taken, data, { pq with q := kept }) :=
  @filterFrom_eq K S pq [] pq.q filter data distinct rfl

/-- The scan ends at the first packet for the next hop, with its predecessor. -/
theorem findNextHop_cases (id : NsAddr) (last : Option (Arrival K)) (q : List (Arrival K)) :
    (findNextHop id last q = none ∧ ∀ p ∈ q, p.packet.cmn.nextHop ≠ id) ∨
      ∃ before p rest, q = before ++ p :: rest ∧ p.packet.cmn.nextHop = id ∧
        (∀ other ∈ before, other.packet.cmn.nextHop ≠ id) ∧
        findNextHop id last q = some (p, before.getLast?.or last) := by
  induction q generalizing last with
  | nil => exact .inl ⟨rfl, by simp⟩
  | cons first q inductionHypothesis =>
      by_cases found : first.packet.cmn.nextHop = id
      · apply Or.inr
        exact ⟨[], first, q, rfl, found, by simp, by simp [findNextHop, found]⟩
      · have onward : findNextHop id last (first :: q) = findNextHop id (some first) q := by
          simp [findNextHop, found]
        rcases inductionHypothesis (some first) with ⟨absent, others⟩ |
          ⟨before, p, rest, rfl, hop, others, result⟩
        · apply Or.inl
          exact ⟨onward.trans absent, by simpa [found] using others⟩
        · apply Or.inr
          refine ⟨first :: before, p, rest, rfl, hop, by simpa [found] using others, ?_⟩
          rw [onward, result, List.getLast?_cons]
          cases before.getLast? <;> rfl

/-- `filter(nsaddr_t)` takes the first packet for the next hop out of the queue, wherever
it stands. -/
theorem filterNextHop_cases (id : NsAddr) (distinct : (pq.q.map Arrival.number).Nodup) :
    (pq.filterNextHop id = (none, pq) ∧ ∀ p ∈ pq.q, p.packet.cmn.nextHop ≠ id) ∨
      ∃ before p rest, pq.q = before ++ p :: rest ∧ p.packet.cmn.nextHop = id ∧
        (∀ other ∈ before, other.packet.cmn.nextHop ≠ id) ∧
        pq.filterNextHop id = (some p, { pq with q := before ++ rest }) := by
  rcases findNextHop_cases id none pq.q with ⟨absent, others⟩ |
    ⟨before, p, rest, waiting, hop, others, result⟩
  · apply Or.inl
    exact ⟨by simp [filterNextHop, absent], others⟩
  · apply Or.inr
    refine ⟨before, p, rest, waiting, hop, others, ?_⟩
    rw [waiting] at distinct
    rcases List.eq_nil_or_concat before with rfl | ⟨before, pp, rfl⟩
    · rw [filterNextHop, result]
      simp [remove_middle distinct waiting]
    · rw [filterNextHop, result]
      simp only [List.concat_eq_append, List.append_assoc, List.singleton_append] at distinct waiting
      simp [waiting, removeBehind_middle distinct]

/-- The results of `count` calls of `filter(nsaddr_t)`, one after the other. -/
def callFilter (id : NsAddr) : (count : ℕ) → PriQueue K → List (Option (Arrival K)) × PriQueue K
  | 0, pq => ([], pq)
  | count + 1, pq =>
      let (p, pq) := pq.filterNextHop id
      let (ps, pq) := callFilter id count pq
      (p :: ps, pq)

/-- The calls return the packets for the next hop in the order of the queue, and a null
pointer once there are none. -/
theorem callFilter_eq (id : NsAddr) (count : ℕ) (distinct : (pq.q.map Arrival.number).Nodup)
    (enough : pq.q.countP (fun p => p.packet.cmn.nextHop = id) ≤ count) :
    (callFilter id count pq).1.reduceOption = pq.q.filter (fun p => p.packet.cmn.nextHop = id) ∧
      (callFilter id count pq).2 =
        { pq with q := pq.q.filter fun p => p.packet.cmn.nextHop ≠ id } := by
  induction count generalizing pq with
  | zero =>
      have others : ∀ p ∈ pq.q, ¬ p.packet.cmn.nextHop = id := by
        simpa [List.countP_eq_zero] using enough
      have all : (pq.q.filter fun p => p.packet.cmn.nextHop ≠ id) = pq.q := by
        simpa using others
      have none : (pq.q.filter fun p => p.packet.cmn.nextHop = id) = [] := by
        simpa using others
      rw [all, none]
      exact ⟨rfl, rfl⟩
  | succ count inductionHypothesis =>
      rcases filterNextHop_cases id distinct with ⟨result, others⟩ |
        ⟨before, p, rest, waiting, hop, others, result⟩
      · have few : pq.q.countP (fun p => p.packet.cmn.nextHop = id) ≤ count := by
          rw [List.countP_eq_zero.mpr (by simpa using others)]
          exact Nat.zero_le count
        simpa [callFilter, result, List.reduceOption_cons_of_none] using
          inductionHypothesis distinct few
      · have fewer : ((before ++ rest).map Arrival.number).Nodup := by
          rw [waiting] at distinct
          exact distinct.sublist (((List.sublist_cons_self p rest).append_left before).map _)
        have none : before.filter (fun p => p.packet.cmn.nextHop = id) = [] := by
          simpa using others
        have few : (before ++ rest).countP (fun p => p.packet.cmn.nextHop = id) ≤ count := by
          rw [waiting, List.countP_append, List.countP_cons_of_pos (by simpa using hop)] at enough
          rw [List.countP_append]
          omega
        obtain ⟨taken, left⟩ := @inductionHypothesis { pq with q := before ++ rest } fewer few
        rw [callFilter, result]
        rw [List.reduceOption_cons_of_some, taken, left, waiting]
        simp [none, hop]

/-- A filter without data takes the packets it matches. -/
theorem select_eq (matched : Arrival K → Bool) (q : List (Arrival K)) :
    select (fun p data => (matched p, data)) () q =
      (q.filter matched, (), q.filter fun p => ¬ matched p) := by
  induction q with
  | nil => rfl
  | cons p q inductionHypothesis =>
      simp only [select, inductionHypothesis]
      cases answer : matched p <;> simp [answer]

/-- Calling `filter(nsaddr_t)` until it returns a null pointer takes the packets that
`filter(PacketFilter, void*)` takes with a filter for the next hop, in the same order, and
leaves the same queue: that of the other packets, in their order. -/
theorem filters_agree (pq : PriQueue K) (id : NsAddr) (count : ℕ)
    (distinct : (pq.q.map Arrival.number).Nodup)
    (enough : pq.q.countP (fun p => p.packet.cmn.nextHop = id) ≤ count) :
    ((callFilter id count pq).1.reduceOption, (), (callFilter id count pq).2) =
        pq.filter (fun p data => (p.packet.cmn.nextHop = id, data)) () ∧
      (callFilter id count pq).2.q = pq.q.filter fun p => p.packet.cmn.nextHop ≠ id := by
  obtain ⟨taken, left⟩ := callFilter_eq id count distinct enough
  rw [filter_eq _ _ distinct, select_eq, taken, left]
  simp

/-! ### What `shrink_queue` does -/

/-- What the queue may hold, in packets or in bytes. -/
def limit (params : QueueParams) : ℤ :=
  if params.qib then params.qlim * params.meanPktsize else params.qlim

/-- The packets in the order in which `shrink_queue` takes them. -/
def sheddingOrder (params : QueueParams) (q : List (Arrival K)) : List (Arrival K) :=
  if params.dropFront then q else q.reverse

/-- The queue without the first `count` packets in that order. -/
def remaining (params : QueueParams) (count : ℕ) (q : List (Arrival K)) : List (Arrival K) :=
  sheddingOrder params ((sheddingOrder params q).drop count)

@[simp]
theorem sheddingOrder_sheddingOrder (params : QueueParams) (q : List (Arrival K)) :
    sheddingOrder params (sheddingOrder params q) = q := by
  unfold sheddingOrder
  split <;> simp

theorem remaining_remaining (params : QueueParams) (first second : ℕ) (q : List (Arrival K)) :
    remaining params second (remaining params first q) = remaining params (first + second) q := by
  simp [remaining]

@[simp]
theorem length_sheddingOrder (params : QueueParams) (q : List (Arrival K)) :
    (sheddingOrder params q).length = q.length := by
  unfold sheddingOrder
  split <;> simp

theorem length_remaining (params : QueueParams) (count : ℕ) (q : List (Arrival K)) :
    (remaining params count q).length = q.length - count := by
  simp [remaining]

theorem remaining_sublist (params : QueueParams) (count : ℕ) (q : List (Arrival K)) :
    (remaining params count q).Sublist q := by
  unfold remaining sheddingOrder
  split
  · exact List.drop_sublist count q
  · simpa using (List.drop_sublist count q.reverse).reverse

theorem overfull_congr {params : QueueParams} {pq pq' : PriQueue K} (same : pq'.q = pq.q) :
    pq'.Overfull params ↔ pq.Overfull params := by
  rw [Overfull, Overfull, byteLength, byteLength, same]

/-- An overfull queue loses one packet at a time. -/
theorem shrinkQueue_step {params : QueueParams} (distinct : (pq.q.map Arrival.number).Nodup)
    (overfull : pq.Overfull params) (waiting : pq.q ≠ []) :
    ∃ pp, (sheddingOrder params pq.q).take 1 = [pp] ∧
      pq.shrinkQueue params = shrinkQueue params
        ⟨pq.blocked, remaining params 1 pq.q, pq.log ++ [.dropped pp (remaining params 1 pq.q)]⟩ := by
  cases front : params.dropFront with
  | true =>
      obtain ⟨pp, rest, split⟩ := List.exists_cons_of_ne_nil waiting
      refine ⟨pp, by simp [sheddingOrder, front, split], ?_⟩
      rw [shrinkQueue, if_pos overfull, if_pos front]
      split
      · rename_i empty
        exact absurd empty waiting
      · rename_i other others same
        rw [split] at same
        cases same
        simp [remaining, sheddingOrder, front, split, drop]
  | false =>
      obtain ⟨front', pp, split⟩ := (List.eq_nil_or_concat pq.q).resolve_left waiting
      rw [List.concat_eq_append] at split
      have removed := remove_last (split ▸ distinct) split
      refine ⟨pp, by simp [sheddingOrder, front, split], ?_⟩
      rw [shrinkQueue, if_pos overfull, if_neg (by simp [front])]
      split
      · rename_i empty
        simp [split] at empty
      · rename_i other same
        have last : other = pp := by simpa [split, eq_comm] using same
        rw [last, removed]
        simp [remaining, sheddingOrder, front, split, drop]

/-- The queue after a call of `shrink_queue` that has dropped `count` packets, no more than
it had to. -/
structure Shrunk (params : QueueParams) (count : ℕ) (pq pq' : PriQueue K) : Prop where
  q : pq'.q = remaining params count pq.q
  fits : ¬ pq'.Overfull params
  needed : ∀ fewer < count, Overfull params { pq with q := remaining params fewer pq.q }
  blocked : pq'.blocked = pq.blocked
  log : ∃ ops, pq'.log = pq.log ++ ops ∧ sentPackets ops = [] ∧
    droppedPackets ops = (sheddingOrder params pq.q).take count

theorem not_overfull_nil {params : QueueParams} (nonneg : 0 ≤ limit params) (empty : pq.q = []) :
    ¬ pq.Overfull params := by
  unfold limit at nonneg
  rintro (⟨packets, tooMany⟩ | ⟨bytes, tooMany⟩)
  · simp only [packets, Bool.false_eq_true, if_false] at nonneg
    simp only [empty, List.length_nil, Nat.cast_zero] at tooMany
    omega
  · simp only [bytes, if_true] at nonneg
    simp only [byteLength, empty, List.map_nil, List.sum_nil] at tooMany
    omega

theorem shrinkQueue_nil {params : QueueParams} (empty : pq.q = [])
    (overfull : pq.Overfull params) : pq.shrinkQueue params = none := by
  rw [shrinkQueue, if_pos overfull]
  split
  · split
    · rfl
    · rename_i waiting
      simp [empty] at waiting
  · split
    · rfl
    · rename_i last
      simp [empty] at last

theorem Shrunk.refl {params : QueueParams} (fits : ¬ pq.Overfull params) :
    Shrunk params 0 pq pq where
  q := by simp [remaining]
  fits := fits
  needed := by simp
  blocked := rfl
  log := ⟨[], by simp [sentPackets, droppedPackets]⟩

theorem Shrunk.step {params : QueueParams} {count : ℕ} {pp : Arrival K} {pq' : PriQueue K}
    (overfull : pq.Overfull params) (first : (sheddingOrder params pq.q).take 1 = [pp])
    (shrunk : Shrunk params count
      ⟨pq.blocked, remaining params 1 pq.q, pq.log ++ [.dropped pp (remaining params 1 pq.q)]⟩
      pq') :
    Shrunk params (1 + count) pq pq' where
  q := by rw [shrunk.q, remaining_remaining]
  fits := shrunk.fits
  needed := by
    intro fewer below
    cases fewer with
    | zero =>
        refine (overfull_congr ?_).mpr overfull
        simp [remaining]
    | succ fewer =>
        refine (overfull_congr ?_).mpr (shrunk.needed fewer (by omega))
        rw [remaining_remaining, Nat.add_comm]
  blocked := shrunk.blocked
  log := by
    obtain ⟨ops, log, sent, dropped⟩ := shrunk.log
    have rest : (sheddingOrder params pq.q).drop 1 =
        sheddingOrder params (remaining params 1 pq.q) := by simp [remaining]
    refine ⟨.dropped pp (remaining params 1 pq.q) :: ops, by simp [log], sent, ?_⟩
    rw [List.take_add, first, rest, ← dropped]
    rfl

/-- The loop ends with a queue that fits, or comes to an empty queue that does not. -/
theorem shrinkQueue_cases (params : QueueParams) (distinct : (pq.q.map Arrival.number).Nodup) :
    (∃ count pq', pq.shrinkQueue params = some pq' ∧ Shrunk params count pq pq') ∨
      pq.shrinkQueue params = none ∧ limit params < 0 := by
  induction size : pq.q.length generalizing pq with
  | zero =>
      have empty := List.length_eq_zero_iff.mp size
      by_cases overfull : pq.Overfull params
      · apply Or.inr
        refine ⟨shrinkQueue_nil empty overfull, ?_⟩
        by_contra nonneg
        exact not_overfull_nil (not_lt.mp nonneg) empty overfull
      · apply Or.inl
        exact ⟨0, pq, by rw [shrinkQueue, if_neg overfull], .refl overfull⟩
  | succ size' inductionHypothesis =>
      by_cases overfull : pq.Overfull params
      · have waiting : pq.q ≠ [] := by
          intro empty
          simp [empty] at size
        obtain ⟨pp, first, shrinks⟩ := shrinkQueue_step distinct overfull waiting
        have fewer := distinct.sublist ((remaining_sublist params 1 pq.q).map _)
        have shorter : (remaining params 1 pq.q).length = size' := by
          rw [length_remaining, size]
          rfl
        rw [shrinks]
        rcases @inductionHypothesis
          ⟨pq.blocked, remaining params 1 pq.q, pq.log ++ [.dropped pp (remaining params 1 pq.q)]⟩
          fewer shorter with ⟨count, pq', result, shrunk⟩ | crashed
        · apply Or.inl
          exact ⟨1 + count, pq', result, .step overfull first shrunk⟩
        · apply Or.inr
          exact crashed
      · apply Or.inl
        exact ⟨0, pq, by rw [shrinkQueue, if_neg overfull], .refl overfull⟩

/-- A limit below zero makes every queue overfull. -/
theorem overfull_of_negative {params : QueueParams} (negative : limit params < 0)
    (sizes : ∀ p ∈ pq.q, 0 ≤ p.packet.cmn.size) : pq.Overfull params := by
  unfold limit at negative
  cases bytes : params.qib with
  | true =>
      apply Or.inr
      have nonneg : 0 ≤ pq.byteLength := List.sum_nonneg (by simpa using sizes)
      simp only [bytes, if_true] at negative
      exact ⟨bytes, by omega⟩
  | false =>
      apply Or.inl
      simp only [bytes, Bool.false_eq_true, if_false] at negative
      exact ⟨bytes, by omega⟩

theorem shrinkQueue_of_negative {params : QueueParams} (negative : limit params < 0)
    (sizes : ∀ p ∈ pq.q, 0 ≤ p.packet.cmn.size) (distinct : (pq.q.map Arrival.number).Nodup) :
    pq.shrinkQueue params = none := by
  have overfull := overfull_of_negative negative sizes
  induction size : pq.q.length generalizing pq with
  | zero =>
      exact shrinkQueue_nil (List.length_eq_zero_iff.mp size) overfull
  | succ size' inductionHypothesis =>
      have waiting : pq.q ≠ [] := by
        intro empty
        simp [empty] at size
      obtain ⟨pp, _, shrinks⟩ := shrinkQueue_step distinct overfull waiting
      have kept := remaining_sublist params 1 pq.q
      have sizes' : ∀ p ∈ remaining params 1 pq.q, 0 ≤ p.packet.cmn.size :=
        fun p membership => sizes p (kept.subset membership)
      have shorter : (remaining params 1 pq.q).length = size' := by
        rw [length_remaining, size]
        rfl
      rw [shrinks]
      exact inductionHypothesis sizes' (distinct.sublist (kept.map _))
        (overfull_of_negative negative sizes') shorter

/-- `shrink_queue` ends unless the limit is below zero, and drops from the end that
`drop_front_` names the fewest packets that bring the queue to its limit. -/
theorem shrinkQueue_fewest (params : QueueParams) (pq : PriQueue K)
    (sizes : ∀ p ∈ pq.q, 0 ≤ p.packet.cmn.size) (distinct : (pq.q.map Arrival.number).Nodup) :
    (pq.shrinkQueue params = none ↔ limit params < 0) ∧
      ∀ pq', pq.shrinkQueue params = some pq' → ∃ count, Shrunk params count pq pq' := by
  rcases shrinkQueue_cases params distinct with ⟨count, pq', result, shrunk⟩ | ⟨result, negative⟩
  · rw [result]
    refine ⟨⟨nofun, fun negative => ?_⟩, ?_⟩
    · rw [shrinkQueue_of_negative negative sizes distinct] at result
      cases result
    · rintro _ ⟨⟩
      exact ⟨count, shrunk⟩
  · rw [result]
    exact ⟨⟨fun _ => negative, fun _ => rfl⟩, nofun⟩

/-- `Terminate` drops all packets in their order. -/
theorem terminate_eq (pq : PriQueue K) :
    ∃ ops, pq.terminate = ⟨pq.blocked, [], pq.log ++ ops⟩ ∧ sentPackets ops = [] ∧
      droppedPackets ops = pq.q := by
  rcases pq with ⟨blocked, q, log⟩
  induction q generalizing log with
  | nil =>
      refine ⟨[], ?_, rfl, rfl⟩
      rw [terminate]
      simp
  | cons p q inductionHypothesis =>
      obtain ⟨ops, rest, sent, dropped⟩ := inductionHypothesis (log ++ [.dropped p q])
      refine ⟨.dropped p q :: ops, ?_, sent, congrArg (p :: ·) dropped⟩
      rw [terminate]
      simpa [drop] using rest

end Distinct

/-! ### A queue of three packets -/

/-- A packet of 500 bytes for a next hop. -/
def packetTo (hop : NsAddr) : Packet ℤ :=
  let p : Packet ℤ := Packet.alloc 0
  { p with cmn := { p.cmn with size := 500, nextHop := hop } }

def threePackets : PriQueue ℤ :=
  ⟨true, [⟨0, packetTo 1⟩, ⟨1, packetTo 2⟩, ⟨2, packetTo 1⟩], []⟩

theorem filters_agree_threePackets :
    (callFilter 1 3 threePackets).2.q =
      threePackets.q.filter fun p => p.packet.cmn.nextHop ≠ 1 :=
  (filters_agree threePackets 1 3 (by decide) (by decide)).2

/-- Two of the packets exceed a limit of 500 bytes. -/
theorem shrinkQueue_fewest_threePackets :
    ∃ pq' count, threePackets.shrinkQueue ⟨1, 1, true, 500, false⟩ = some pq' ∧
      Shrunk ⟨1, 1, true, 500, false⟩ count threePackets pq' := by
  obtain ⟨ends, fewest⟩ := shrinkQueue_fewest ⟨1, 1, true, 500, false⟩ threePackets
    (by decide) (by decide)
  cases result : threePackets.shrinkQueue ⟨1, 1, true, 500, false⟩ with
  | none => exact absurd (ends.mp result) (by decide)
  | some pq' =>
      obtain ⟨count, shrunk⟩ := fewest pq' result
      exact ⟨pq', count, rfl, shrunk⟩

end PriQueue

end AntAodv
