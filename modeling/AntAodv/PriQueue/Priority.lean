import AntAodv.PriQueue

/-!
# Priority in the interface queue

However packets arrive and leave, those with high priority stand in front of the
others, which stay in their order of arrival and are the first to be dropped.
-/

namespace AntAodv

variable {K : Type}

/-- The packets that `PriQueue::recv` puts at the front. -/
def Arrival.HighPriority (p : Arrival K) : Prop :=
  p.packet.cmn.ptype ∈ [ptDsr, ptMessage, ptTora, ptAodv, ptAomdv, ptMdart] ∨
    p.packet.cmn.ptype = ptAnt ∧ p.packet.cmn.direction = .up

instance (p : Arrival K) : Decidable p.HighPriority :=
  inferInstanceAs (Decidable (_ ∨ _))

/-- What the simulator's `Queue::recv` does: it enqueues the packet and sends one on,
unless the queue is blocked. -/
def EnqueuesAndSends (params : QueueParams) (base : PriQueue K → Arrival K → PriQueue K) :
    Prop :=
  ∀ pq p, base pq p = (pq.enque params p).sendUnblocked

/-- A queue that prefers routing protocols, counts packets and drops at its end. -/
structure QueueParams.Prefers (params : QueueParams) : Prop where
  preferRoutingProtocols : params.preferRoutingProtocols ≠ 0
  qib : params.qib = false
  dropFront : params.dropFront = false

/-- The packets sent on, in order. -/
def sentPackets (log : List (QueueOp K)) : List (Arrival K) :=
  log.filterMap fun
    | .sent p => some p
    | .dropped _ _ => none

/-- The packets dropped, in order. -/
def droppedPackets (log : List (QueueOp K)) : List (Arrival K) :=
  log.filterMap fun
    | .sent _ => none
    | .dropped p _ => some p

section Log

variable (log : List (QueueOp K)) (p : Arrival K) (left : List (Arrival K))

@[simp]
theorem sentPackets_sent : sentPackets (log ++ [.sent p]) = sentPackets log ++ [p] := by
  simp [sentPackets]

@[simp]
theorem sentPackets_dropped : sentPackets (log ++ [.dropped p left]) = sentPackets log := by
  simp [sentPackets]

@[simp]
theorem droppedPackets_sent : droppedPackets (log ++ [.sent p]) = droppedPackets log := by
  simp [droppedPackets]

@[simp]
theorem droppedPackets_dropped :
    droppedPackets (log ++ [.dropped p left]) = droppedPackets log ++ [p] := by
  simp [droppedPackets]

end Log

namespace PriQueue

/-- The packets the queue holds or has given away. -/
def account (pq : PriQueue K) : List (Arrival K) :=
  pq.q ++ (sentPackets pq.log ++ droppedPackets pq.log)

/-- The priority of the packets in a queue and of those it has dropped. -/
structure Prioritized (params : QueueParams) (pq : PriQueue K) : Prop where
  order : pq.q.Pairwise fun first second => second.HighPriority → first.HighPriority
  arrival : (pq.q.filter fun p => ¬ p.HighPriority).Pairwise fun first second =>
    first.number < second.number
  bound : (pq.q.length : ℤ) < max 1 params.qlim
  eviction : ∀ p left, .dropped p left ∈ pq.log → p.HighPriority →
    ∀ other ∈ left, other.HighPriority

variable {params : QueueParams} {pq : PriQueue K} {p last : Arrival K} {rest front : List (Arrival K)}

/-! ### What each operation does -/

theorem sendUnblocked_cases (pq : PriQueue K) :
    pq.sendUnblocked = pq ∨ ∃ p rest, pq.q = p :: rest ∧
      pq.sendUnblocked = ⟨true, rest, pq.log ++ [.sent p]⟩ := by
  rcases pq with ⟨blocked, q, log⟩
  unfold sendUnblocked
  split
  · apply Or.inl
    rfl
  · cases q with
    | nil =>
        apply Or.inl
        rfl
    | cons p rest =>
        apply Or.inr
        exact ⟨p, rest, rfl, rfl⟩

theorem resume_cases (pq : PriQueue K) (blocked : Bool) :
    pq.resume blocked = { pq with blocked := blocked } ∨ ∃ p rest, pq.q = p :: rest ∧
      pq.resume blocked = ⟨blocked, rest, pq.log ++ [.sent p]⟩ := by
  rcases pq with ⟨before, q, log⟩
  unfold resume
  cases q with
  | nil =>
      apply Or.inl
      rfl
  | cons p rest =>
      apply Or.inr
      exact ⟨p, rest, rfl, rfl⟩

/-- An ordinary packet goes to the end, or is dropped. -/
theorem enque_cases (prefers : params.Prefers) (pq : PriQueue K) (p : Arrival K) :
    (pq.q.length : ℤ) + 1 < params.qlim ∧
        pq.enque params p = { pq with q := pq.q ++ [p] } ∨
      pq.enque params p = pq.drop p := by
  unfold enque
  by_cases full : (pq.q.length : ℤ) + 1 ≥ params.qlim
  · apply Or.inr
    simp [prefers.qib, prefers.dropFront, full]
  · apply Or.inl
    exact ⟨not_le.mp full, by simp [prefers.qib, full]⟩

/-- A packet whose number no packet before it has is the one `remove` takes. -/
theorem remove_middle {before rest : List (Arrival K)} {p : Arrival K}
    (distinct : ((before ++ p :: rest).map Arrival.number).Nodup)
    (waiting : pq.q = before ++ p :: rest) : pq.remove p = { pq with q := before ++ rest } := by
  have absent : ∀ other ∈ before, ¬ (decide (other.number = p.number)) = true := by
    intro other membership same
    rw [List.map_append, List.nodup_append] at distinct
    exact distinct.2.2 _ (List.mem_map_of_mem membership) _ (by simp) (of_decide_eq_true same)
  unfold remove
  rw [waiting, List.eraseP_append_right _ absent]
  simp

theorem remove_last (distinct : ((front ++ [last]).map Arrival.number).Nodup)
    (waiting : pq.q = front ++ [last]) : pq.remove last = { pq with q := front } := by
  rw [remove_middle distinct waiting, List.append_nil]

/-- A packet with high priority goes to the front, and pushes the last packet out
when the queue is full. -/
theorem recvHighPriority_cases (params : QueueParams) (pq : PriQueue K) {p : Arrival K}
    (distinct : ((p :: pq.q).map Arrival.number).Nodup) :
    (pq.q.length : ℤ) + 1 < params.qlim ∧
        pq.recvHighPriority params p = { pq with q := p :: pq.q }.sendUnblocked ∨
      ∃ front last, p :: pq.q = front ++ [last] ∧
        pq.recvHighPriority params p =
          ({ pq with q := front }.drop last).sendUnblocked := by
  unfold recvHighPriority
  by_cases full : (pq.q.length : ℤ) + 1 ≥ params.qlim
  · apply Or.inr
    obtain ⟨front, last, split⟩ : ∃ front last, p :: pq.q = front ++ [last] := by
      refine ⟨(p :: pq.q).dropLast, (p :: pq.q).getLast (by simp), ?_⟩
      exact (List.dropLast_concat_getLast (by simp)).symm
    refine ⟨front, last, split, ?_⟩
    have size : pq.q.length = front.length := by
      have lengths := congrArg List.length split
      simpa using lengths
    rw [split] at distinct
    have removed : remove { pq with q := p :: pq.q } last = { pq with q := front } :=
      remove_last distinct split
    have found : (p :: pq.q)[pq.q.length]? = some last := by
      rw [split, size]
      simp
    simp only [List.length_cons, Nat.cast_add, Nat.cast_one, ge_iff_le, full, if_true,
      Nat.add_sub_cancel, found, removed]
  · apply Or.inl
    refine ⟨not_le.mp full, ?_⟩
    simp [full]

theorem recv_of_highPriority (prefers : params.Prefers)
    (base : PriQueue K → Arrival K → PriQueue K) (pq : PriQueue K) (high : p.HighPriority) :
    pq.recv base params p = pq.recvHighPriority params p := by
  unfold recv
  rw [if_pos prefers.preferRoutingProtocols]
  rcases high with routing | ⟨ant, up⟩
  · rw [if_pos (by simpa using routing)]
  · rw [if_neg (by simp [ant, ptAnt, ptDsr, ptMessage, ptTora, ptAodv, ptAomdv, ptMdart]),
      if_pos ant, if_pos up]

theorem recv_of_ordinary (prefers : params.Prefers)
    {base : PriQueue K → Arrival K → PriQueue K} (documented : EnqueuesAndSends params base)
    (pq : PriQueue K) (ordinary : ¬ p.HighPriority) :
    pq.recv base params p = (pq.enque params p).sendUnblocked := by
  rw [Arrival.HighPriority, not_or, not_and] at ordinary
  unfold recv
  rw [if_pos prefers.preferRoutingProtocols, if_neg (by simpa using ordinary.1)]
  split
  · rename_i ant
    rw [if_neg (ordinary.2 ant)]
    exact documented pq p
  · exact documented pq p

/-! ### Every operation keeps the priority -/

theorem Prioritized.sent (prioritized : Prioritized params pq) (waiting : pq.q = p :: rest)
    (blocked : Bool) : Prioritized params ⟨blocked, rest, pq.log ++ [.sent p]⟩ := by
  have order := prioritized.order
  have arrival := prioritized.arrival
  have bound := prioritized.bound
  rw [waiting] at order arrival bound
  refine ⟨(List.pairwise_cons.mp order).2, ?_, ?_, ?_⟩
  · exact arrival.sublist ((List.sublist_cons_self p rest).filter _)
  · rw [List.length_cons, Nat.cast_succ] at bound
    simp only
    omega
  · intro dropped left logged
    apply prioritized.eviction dropped left
    simpa using logged

theorem Prioritized.sendUnblocked (prioritized : Prioritized params pq) :
    Prioritized params pq.sendUnblocked := by
  rcases pq.sendUnblocked_cases with same | ⟨p, rest, waiting, sent⟩
  · rw [same]
    exact prioritized
  · rw [sent]
    exact prioritized.sent waiting true

theorem Prioritized.resume (prioritized : Prioritized params pq) (blocked : Bool) :
    Prioritized params (pq.resume blocked) := by
  rcases pq.resume_cases blocked with same | ⟨p, rest, waiting, sent⟩
  · rw [same]
    exact ⟨prioritized.order, prioritized.arrival, prioritized.bound, prioritized.eviction⟩
  · rw [sent]
    exact prioritized.sent waiting blocked

theorem Prioritized.enque (prefers : params.Prefers) (prioritized : Prioritized params pq)
    (ordinary : ¬ p.HighPriority) (latest : ∀ other ∈ pq.q, other.number < p.number) :
    Prioritized params (pq.enque params p) := by
  rcases pq.enque_cases prefers p with ⟨room, stored⟩ | dropped
  · rw [stored]
    refine ⟨?_, ?_, ?_, prioritized.eviction⟩
    · rw [List.pairwise_append]
      refine ⟨prioritized.order, List.pairwise_singleton _ _, ?_⟩
      intro other _ added membership high
      exact absurd (List.mem_singleton.mp membership ▸ high) ordinary
    · rw [List.filter_append, List.pairwise_append]
      refine ⟨prioritized.arrival, ?_, ?_⟩
      · exact (List.pairwise_singleton _ _).sublist List.filter_sublist
      · intro other earlier added membership
        rw [List.mem_singleton.mp (List.mem_filter.mp membership).1]
        exact latest other (List.mem_filter.mp earlier).1
    · rw [List.length_append, List.length_singleton, Nat.cast_succ]
      exact room.trans_le (le_max_right 1 params.qlim)
  · rw [dropped]
    refine ⟨prioritized.order, prioritized.arrival, prioritized.bound, ?_⟩
    intro evicted left logged high
    simp only [drop, List.mem_append, List.mem_singleton, QueueOp.dropped.injEq] at logged
    rcases logged with earlier | ⟨rfl, rfl⟩
    · exact prioritized.eviction evicted left earlier high
    · exact absurd high ordinary

/-- A packet with high priority in front of a queue. -/
theorem Prioritized.cons (prioritized : Prioritized params pq) (high : p.HighPriority) :
    (p :: pq.q).Pairwise (fun first second => second.HighPriority → first.HighPriority) ∧
      ((p :: pq.q).filter fun other => ¬ other.HighPriority).Pairwise fun first second =>
        first.number < second.number := by
  constructor
  · exact List.pairwise_cons.mpr ⟨fun _ _ _ => high, prioritized.order⟩
  · rw [List.filter_cons_of_neg (by simpa using high)]
    exact prioritized.arrival

theorem Prioritized.recvHighPriority (prioritized : Prioritized params pq)
    (high : p.HighPriority) (distinct : ((p :: pq.q).map Arrival.number).Nodup) :
    Prioritized params (pq.recvHighPriority params p) := by
  obtain ⟨order, arrival⟩ := prioritized.cons high
  rcases pq.recvHighPriority_cases params distinct with ⟨room, stored⟩ | ⟨front, last, split, full⟩
  · rw [stored]
    apply Prioritized.sendUnblocked
    refine ⟨order, arrival, ?_, prioritized.eviction⟩
    rw [List.length_cons, Nat.cast_succ]
    exact room.trans_le (le_max_right 1 params.qlim)
  · rw [full]
    apply Prioritized.sendUnblocked
    have kept := List.sublist_append_left front [last]
    have size : pq.q.length = front.length := by
      have lengths := congrArg List.length split
      simpa using lengths
    rw [split] at order arrival
    refine ⟨order.sublist kept, arrival.sublist (kept.filter _), ?_, ?_⟩
    · simp only [drop, ← size]
      exact prioritized.bound
    · intro evicted left logged isHigh
      simp only [drop, List.mem_append, List.mem_singleton, QueueOp.dropped.injEq] at logged
      rcases logged with earlier | ⟨rfl, rfl⟩
      · exact prioritized.eviction evicted left earlier isHigh
      · intro other membership
        exact (List.pairwise_append.mp order).2.2 other membership _ (by simp) isHigh

theorem Prioritized.recv (prefers : params.Prefers)
    {base : PriQueue K → Arrival K → PriQueue K} (documented : EnqueuesAndSends params base)
    (prioritized : Prioritized params pq) (latest : ∀ other ∈ pq.q, other.number < p.number)
    (distinct : ((p :: pq.q).map Arrival.number).Nodup) :
    Prioritized params (pq.recv base params p) := by
  by_cases high : p.HighPriority
  · rw [recv_of_highPriority prefers base pq high]
    exact prioritized.recvHighPriority high distinct
  · rw [recv_of_ordinary prefers documented pq high]
    exact (prioritized.enque prefers high latest).sendUnblocked

/-! ### Every operation accounts for its packets -/

theorem account_sent (pq : PriQueue K) (waiting : pq.q = p :: rest) (blocked : Bool) :
    (⟨blocked, rest, pq.log ++ [.sent p]⟩ : PriQueue K).account.Perm pq.account := by
  simp only [account, sentPackets_sent, droppedPackets_sent, waiting]
  have moved : (rest ++ sentPackets pq.log ++ p :: droppedPackets pq.log).Perm
      (p :: (rest ++ sentPackets pq.log ++ droppedPackets pq.log)) := List.perm_middle
  simpa using moved

theorem account_drop (pq : PriQueue K) (p : Arrival K) :
    (pq.drop p).account.Perm (p :: pq.account) := by
  simp only [account, drop, sentPackets_dropped, droppedPackets_dropped, ← List.append_assoc]
  exact List.perm_append_singleton p _

theorem account_sendUnblocked (pq : PriQueue K) : pq.sendUnblocked.account.Perm pq.account := by
  rcases pq.sendUnblocked_cases with same | ⟨p, rest, waiting, sent⟩
  · rw [same]
  · rw [sent]
    exact pq.account_sent waiting true

theorem account_resume (pq : PriQueue K) (blocked : Bool) :
    (pq.resume blocked).account.Perm pq.account := by
  rcases pq.resume_cases blocked with same | ⟨p, rest, waiting, sent⟩
  · rw [same]
    exact .refl _
  · rw [sent]
    exact pq.account_sent waiting blocked

theorem account_recv (prefers : params.Prefers) {base : PriQueue K → Arrival K → PriQueue K}
    (documented : EnqueuesAndSends params base)
    (distinct : ((p :: pq.q).map Arrival.number).Nodup) :
    (pq.recv base params p).account.Perm (p :: pq.account) := by
  by_cases high : p.HighPriority
  · rw [recv_of_highPriority prefers base pq high]
    rcases pq.recvHighPriority_cases params distinct with
      ⟨_, stored⟩ | ⟨front, last, split, full⟩
    · rw [stored]
      exact account_sendUnblocked _
    · rw [full]
      refine (account_sendUnblocked _).trans ((account_drop _ last).trans ?_)
      simp only [account, ← List.cons_append, split, List.append_assoc]
      exact List.perm_middle.symm
  · rw [recv_of_ordinary prefers documented pq high]
    refine (account_sendUnblocked _).trans ?_
    rcases pq.enque_cases prefers p with ⟨_, stored⟩ | dropped
    · rw [stored]
      simp only [account, List.append_assoc]
      exact List.perm_middle
    · rw [dropped]
      exact account_drop pq p

end PriQueue

/-! ### Runs of the queue -/

/-- The queue keeps the priority, and every packet that has arrived is in the queue,
sent or dropped, in one of these places and once. -/
structure Interface.Prioritized (params : QueueParams) (state : Interface K) : Prop where
  queue : state.pq.Prioritized params
  numbered : state.arrived.map Arrival.number = List.range state.arrived.length
  conserved : state.pq.account.Perm state.arrived

namespace Interface.Prioritized

variable {params : QueueParams} {state : Interface K}

theorem numbers (prioritized : state.Prioritized params) :
    (state.pq.account.map Arrival.number).Perm (List.range state.arrived.length) := by
  rw [← prioritized.numbered]
  exact prioritized.conserved.map _

/-- A packet that arrives now is the latest. -/
theorem latest (prioritized : state.Prioritized params) :
    ∀ other ∈ state.pq.q, other.number < state.arrived.length := by
  intro other waiting
  have inside : other.number ∈ state.pq.account.map Arrival.number :=
    List.mem_map_of_mem (List.mem_append_left _ waiting)
  exact List.mem_range.mp (prioritized.numbers.mem_iff.mp inside)

theorem distinct (prioritized : state.Prioritized params) (packet : Packet K) :
    ((state.arrival packet :: state.pq.q).map Arrival.number).Nodup := by
  rw [List.map_cons, List.nodup_cons]
  constructor
  · intro membership
    rcases List.mem_map.mp membership with ⟨other, waiting, same⟩
    exact (prioritized.latest other waiting).ne same
  · have all := prioritized.numbers.nodup_iff.mpr List.nodup_range
    exact all.sublist ((List.sublist_append_left _ _).map _)

theorem initial (start : state.pq.q = [] ∧ state.pq.log = [] ∧ state.arrived = []) :
    state.Prioritized params := by
  obtain ⟨empty, quiet, none⟩ := start
  refine ⟨⟨?_, ?_, ?_, ?_⟩, ?_, ?_⟩
  · simp [empty]
  · simp [empty]
  · simp [empty]
  · simp [quiet]
  · simp [none]
  · simp [PriQueue.account, empty, quiet, none, sentPackets, droppedPackets]

theorem handle (prefers : params.Prefers) {base : PriQueue K → Arrival K → PriQueue K}
    (documented : EnqueuesAndSends params base) (prioritized : state.Prioritized params)
    (event : QueueEvent K) : (state.handle base params event).Prioritized params := by
  cases event with
  | arrive packet =>
      have distinct := prioritized.distinct packet
      refine ⟨prioritized.queue.recv prefers documented prioritized.latest distinct, ?_, ?_⟩
      · simp [Interface.handle, Interface.arrival, prioritized.numbered, List.range_succ]
      · refine (PriQueue.account_recv prefers documented distinct).trans ?_
        refine (prioritized.conserved.cons _).trans ?_
        exact (List.perm_append_singleton _ _).symm
  | dequeue blocked =>
      refine ⟨prioritized.queue.resume blocked, prioritized.numbered, ?_⟩
      exact (PriQueue.account_resume _ blocked).trans prioritized.conserved

end Interface.Prioritized

/-- Packets with high priority, backward ants among them, have it in every state of
the queue. -/
theorem routing_packets_preferred {params : QueueParams} (prefers : params.Prefers)
    {base : PriQueue K → Arrival K → PriQueue K} (documented : EnqueuesAndSends params base)
    {state : Interface K} (reached : (interfaceQueue base params).Reachable state) :
    state.Prioritized params ∧ ∀ p : Arrival K, p.packet.cmn.ptype = ptAnt →
      (p.HighPriority ↔ p.packet.cmn.direction = .up) := by
  constructor
  · refine reached.invariant (Interface.Prioritized params) (fun _ start => .initial start) ?_
    rintro first event _ prioritized rfl
    exact prioritized.handle prefers documented event
  · intro p ant
    simp [Arrival.HighPriority, ant, ptAnt, ptDsr, ptMessage, ptTora, ptAodv, ptAomdv, ptMdart]

/-- A packet of a type and a direction. -/
def packetOf (ptype : PacketT) (direction : Dir) : Packet ℤ :=
  let p : Packet ℤ := Packet.alloc 0
  { p with cmn := { p.cmn with ptype := ptype, direction := direction } }

/-- A backward ant overtakes a forward ant in a blocked queue and pushes a packet of
type 2 out, as only two packets may stay. -/
theorem routing_packets_preferred_full :
    let params : QueueParams := ⟨1, 3, false, 500, false⟩
    let base : PriQueue ℤ → Arrival ℤ → PriQueue ℤ := fun pq p => (pq.enque params p).sendUnblocked
    let start : Interface ℤ := ⟨⟨true, [], []⟩, []⟩
    let state := ((start.handle base params (.arrive (packetOf ptAnt .down))).handle base params
      (.arrive (packetOf 2 .down))).handle base params (.arrive (packetOf ptAnt .up))
    (interfaceQueue base params).Reachable state ∧
      state.pq.q.map Arrival.number = [2, 0] ∧
      (droppedPackets state.pq.log).map Arrival.number = [1] ∧
      state.Prioritized params := by
  intro params base start state
  have reached : (interfaceQueue base params).Reachable state :=
    ⟨start, _, ⟨rfl, rfl, rfl⟩, .snoc (.snoc (.snoc (.refl start) rfl) rfl) rfl⟩
  exact ⟨reached, by decide, by decide,
    (routing_packets_preferred ⟨by decide, rfl, rfl⟩ (fun _ _ => rfl) reached).1⟩

end AntAodv
