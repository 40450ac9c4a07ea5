import AntAodv.PriQueue.Operations

/-!
# Conservation in the interface queue

Whatever its settings, and however they change while it runs, the queue neither loses nor
duplicates a packet, and keeps its packets in the order in which it put them in line.
-/

namespace AntAodv

variable {K S : Type}

namespace PriQueue

/-- The line of packets after `p` has arrived, before any packet leaves. -/
def insertion (params : QueueParams) (p : Arrival K) (q : List (Arrival K)) :
    List (Arrival K) :=
  if params.preferRoutingProtocols ≠ 0 ∧ p.HighPriority then p :: q else q ++ [p]

theorem insertion_perm (params : QueueParams) (p : Arrival K) (q : List (Arrival K)) :
    (insertion params p q).Perm (p :: q) := by
  unfold insertion
  split
  · exact .refl _
  · exact List.perm_append_singleton p q

/-- From the packets `line` an operation leaves some in the queue, sends or drops some,
and gives `taken` away; those it sends stood in front of those it leaves. -/
structure Passes (line : List (Arrival K)) (pq pq' : PriQueue K) (ops : List (QueueOp K))
    (taken : List (Arrival K)) : Prop where
  log : pq'.log = pq.log ++ ops
  conserved : (pq'.q ++ (sentPackets ops ++ droppedPackets ops) ++ taken).Perm line
  order : (sentPackets ops ++ pq'.q).Sublist line

variable {params : QueueParams} {pq pq' : PriQueue K} {p : Arrival K} {line : List (Arrival K)}
  {ops : List (QueueOp K)} {taken : List (Arrival K)}

theorem sentPackets_append (early late : List (QueueOp K)) :
    sentPackets (early ++ late) = sentPackets early ++ sentPackets late :=
  List.filterMap_append

theorem droppedPackets_append (early late : List (QueueOp K)) :
    droppedPackets (early ++ late) = droppedPackets early ++ droppedPackets late :=
  List.filterMap_append

theorem recv_eq (base : PriQueue K → Arrival K → PriQueue K) (params : QueueParams)
    (pq : PriQueue K) (p : Arrival K) :
    pq.recv base params p =
      if params.preferRoutingProtocols ≠ 0 ∧ p.HighPriority then pq.recvHighPriority params p
      else base pq p := by
  have types : p.packet.cmn.ptype = ptAnt →
      p.packet.cmn.ptype ∉ [ptDsr, ptMessage, ptTora, ptAodv, ptAomdv, ptMdart] := by
    intro ant
    simp [ant, ptAnt, ptDsr, ptMessage, ptTora, ptAodv, ptAomdv, ptMdart]
  unfold recv Arrival.HighPriority
  grind

namespace Passes

theorem refl (pq : PriQueue K) : Passes pq.q pq pq [] [] where
  log := by simp
  conserved := by simp [sentPackets, droppedPackets]
  order := List.Sublist.refl _

theorem trans {middle : PriQueue K} {later : List (QueueOp K)} {takenLater : List (Arrival K)}
    (first : Passes line pq middle ops taken)
    (second : Passes middle.q middle pq' later takenLater) :
    Passes line pq pq' (ops ++ later) (taken ++ takenLater) where
  log := by rw [second.log, first.log, List.append_assoc]
  conserved := by
    refine List.Perm.trans ?_ first.conserved
    rw [sentPackets_append, droppedPackets_append]
    have moved := second.conserved.append_right
      ((sentPackets ops ++ droppedPackets ops) ++ taken)
    refine List.Perm.trans ?_ (moved.trans (by simp))
    classical
    rw [List.perm_iff_count]
    intro one
    simp only [List.count_append]
    omega
  order := by
    refine List.Sublist.trans ?_ first.order
    rw [sentPackets_append, List.append_assoc]
    exact second.order.append_left _

/-- The first packet of the line is sent. -/
theorem sent {rest : List (Arrival K)} (waiting : pq.q = p :: rest) (blocked : Bool) :
    Passes pq.q pq ⟨blocked, rest, pq.log ++ [.sent p]⟩ [.sent p] [] where
  log := rfl
  conserved := by
    rw [waiting]
    simp [sentPackets, droppedPackets]
  order := by
    rw [waiting]
    exact List.Sublist.refl _

/-- One packet of the line is dropped, and the others stay. -/
theorem dropped {before after : List (Arrival K)} (split : line = before ++ p :: after) :
    Passes line pq ({ pq with q := before ++ after }.drop p) [.dropped p (before ++ after)] [] where
  log := rfl
  conserved := by
    rw [split]
    simpa [drop, sentPackets, droppedPackets] using
      List.Perm.append_left before (List.perm_append_singleton p after)
  order := by
    rw [split]
    exact (List.sublist_cons_self p after).append_left before

theorem q_sublist (passes : Passes line pq pq' ops taken) : pq'.q.Sublist line :=
  (List.sublist_append_right _ _).trans passes.order

theorem line_sublist (passes : Passes line pq pq' ops taken) :
    (sentPackets pq'.log ++ pq'.q).Sublist (sentPackets pq.log ++ line) := by
  rw [passes.log, sentPackets_append, List.append_assoc]
  exact passes.order.append_left _

/-- What the queue holds or has given away, with the packets taken before. -/
theorem account (passes : Passes line pq pq' ops taken) (before : List (Arrival K)) :
    (pq'.account ++ (before ++ taken)).Perm
      (line ++ (sentPackets pq.log ++ droppedPackets pq.log) ++ before) := by
  have moved := passes.conserved.append_right
    ((sentPackets pq.log ++ droppedPackets pq.log) ++ before)
  rw [PriQueue.account, passes.log, sentPackets_append, droppedPackets_append]
  refine List.Perm.trans ?_ (moved.trans (by simp))
  classical
  rw [List.perm_iff_count]
  intro one
  simp only [List.count_append]
  omega

theorem sendUnblocked (pq : PriQueue K) : ∃ ops, Passes pq.q pq pq.sendUnblocked ops [] := by
  rcases pq.sendUnblocked_cases with same | ⟨p, rest, waiting, result⟩
  · rw [same]
    exact ⟨[], .refl pq⟩
  · rw [result]
    exact ⟨_, .sent waiting true⟩

theorem resume (pq : PriQueue K) (blocked : Bool) :
    ∃ ops, Passes pq.q pq (pq.resume blocked) ops [] := by
  rcases pq.resume_cases blocked with same | ⟨p, rest, waiting, result⟩
  · rw [same]
    exact ⟨[], ⟨by simp, (Passes.refl pq).conserved, (Passes.refl pq).order⟩⟩
  · rw [result]
    exact ⟨_, .sent waiting blocked⟩

/-- A packet the queue has no room for is dropped, or drives the first packet out. -/
theorem enque (params : QueueParams) (pq : PriQueue K) (p : Arrival K) :
    ∃ ops, Passes (pq.q ++ [p]) pq (pq.enque params p) ops [] := by
  unfold PriQueue.enque
  simp only
  split
  · split
    · obtain ⟨first, rest, split⟩ := List.exists_cons_of_ne_nil
        (List.append_ne_nil_of_right_ne_nil pq.q (List.cons_ne_nil p []))
      simp only [deque, split, List.head?_cons, List.tail_cons]
      exact ⟨_, @dropped K pq first (first :: rest) [] rest rfl⟩
    · have gone := @dropped K pq p _ pq.q [] rfl
      rw [List.append_nil] at gone
      exact ⟨_, gone⟩
  · exact ⟨[], by simp, by simp [sentPackets, droppedPackets], List.Sublist.refl _⟩

theorem recvHighPriority (params : QueueParams) (pq : PriQueue K) {p : Arrival K}
    (distinct : ((p :: pq.q).map Arrival.number).Nodup) :
    ∃ ops, Passes (p :: pq.q) pq (pq.recvHighPriority params p) ops [] := by
  rcases pq.recvHighPriority_cases params distinct with ⟨_, stored⟩ | ⟨front, last, split, full⟩
  · rw [stored]
    obtain ⟨ops, passes⟩ := sendUnblocked { pq with q := p :: pq.q }
    exact ⟨ops, passes.log, passes.conserved, passes.order⟩
  · rw [full]
    have gone := @dropped K pq last _ front [] split
    rw [List.append_nil] at gone
    obtain ⟨ops, passes⟩ := sendUnblocked ({ pq with q := front }.drop last)
    exact ⟨_, gone.trans passes⟩

/-- A packet that arrives is put in line, and one packet may be dropped and one sent. -/
theorem recv {base : PriQueue K → Arrival K → PriQueue K} (documented : EnqueuesAndSends params base)
    (pq : PriQueue K) {p : Arrival K} (distinct : ((p :: pq.q).map Arrival.number).Nodup) :
    ∃ ops, Passes (insertion params p pq.q) pq (pq.recv base params p) ops [] := by
  have ordinary : ∃ ops, Passes (pq.q ++ [p]) pq (base pq p) ops [] := by
    obtain ⟨stored, first⟩ := enque params pq p
    obtain ⟨sent, second⟩ := sendUnblocked (pq.enque params p)
    rw [documented]
    exact ⟨_, first.trans second⟩
  rw [recv_eq, insertion]
  split
  · exact recvHighPriority params pq distinct
  · exact ordinary

theorem select (filter : Arrival K → S → Bool × S) (data : S) (q : List (Arrival K)) :
    ((PriQueue.select filter data q).2.2 ++ (PriQueue.select filter data q).1).Perm q ∧
      (PriQueue.select filter data q).2.2.Sublist q := by
  induction q generalizing data with
  | nil => exact ⟨.refl _, .refl _⟩
  | cons p q inductionHypothesis =>
      obtain ⟨conserved, order⟩ := inductionHypothesis (filter p data).2
      cases matched : (filter p data).1 with
      | true =>
          simp only [PriQueue.select, matched, if_true]
          exact ⟨List.perm_middle.trans (conserved.cons p), order.cons p⟩
      | false =>
          simp only [PriQueue.select, matched, Bool.false_eq_true, if_false]
          exact ⟨conserved.cons p, order.cons_cons p⟩

theorem filter (filter : Arrival K → S → Bool × S) (data : S)
    (distinct : (pq.q.map Arrival.number).Nodup) :
    Passes pq.q pq (pq.filter filter data).2.2 [] (pq.filter filter data).1 := by
  obtain ⟨conserved, order⟩ := select filter data pq.q
  rw [filter_eq filter data distinct]
  exact ⟨by simp, by simpa [sentPackets, droppedPackets] using conserved, order⟩

theorem filterNextHop (id : NsAddr) (distinct : (pq.q.map Arrival.number).Nodup) :
    Passes pq.q pq (pq.filterNextHop id).2 [] (pq.filterNextHop id).1.toList := by
  rcases filterNextHop_cases id distinct with ⟨result, _⟩ |
    ⟨before, p, rest, waiting, _, _, result⟩
  · rw [result]
    exact .refl pq
  · rw [result, waiting]
    refine ⟨by simp, ?_, (List.sublist_cons_self p rest).append_left before⟩
    simpa [sentPackets, droppedPackets] using
      List.Perm.append_left before (List.perm_append_singleton p rest)

theorem shrinkQueue (distinct : (pq.q.map Arrival.number).Nodup)
    (result : pq.shrinkQueue params = some pq') :
    ∃ ops, Passes pq.q pq pq' ops [] := by
  rcases shrinkQueue_cases params distinct with ⟨count, last, shrinks, shrunk⟩ | ⟨crashed, _⟩
  · cases result.symm.trans shrinks
    obtain ⟨ops, log, sent, dropped⟩ := shrunk.log
    have reordered : ∀ q : List (Arrival K), (sheddingOrder params q).Perm q := by
      intro q
      unfold sheddingOrder
      split
      · exact .refl q
      · exact List.reverse_perm q
    refine ⟨ops, log, ?_, ?_⟩
    · rw [shrunk.q, sent, dropped, List.nil_append, List.append_nil, remaining]
      refine ((reordered _).append_right _).trans (List.perm_append_comm.trans ?_)
      rw [List.take_append_drop]
      exact reordered pq.q
    · rw [shrunk.q, sent]
      exact remaining_sublist params count pq.q
  · rw [crashed] at result
    cases result

theorem terminate (pq : PriQueue K) : ∃ ops, Passes pq.q pq pq.terminate ops [] := by
  obtain ⟨ops, result, sent, dropped⟩ := terminate_eq pq
  rw [result]
  refine ⟨ops, rfl, ?_, ?_⟩
  · simp [sent, dropped]
  · simp [sent]

end Passes

end PriQueue

/-! ### A queue whose settings change -/

/-- A queue with its settings and the packets its filters have taken. -/
structure ManagedQueue (K : Type) where
  params : QueueParams
  interface : Interface K
  taken : List (Arrival K)

/-- What may happen to a queue: besides arrivals and departures, new values of the bound
variables, calls of the filters, and the commands `shrink-queue` and `reset`. -/
inductive QueueCommand (K S : Type) where
  | queue (event : QueueEvent K)
  | configure (params : QueueParams)
  | filter (filter : Arrival K → S → Bool × S) (data : S)
  | filterNextHop (id : NsAddr)
  | shrinkQueue
  | reset

/-- The queue after a command, where `base` is `Queue::recv`. -/
def ManagedQueue.handle (base : QueueParams → PriQueue K → Arrival K → PriQueue K)
    (state : ManagedQueue K) : QueueCommand K S → Option (ManagedQueue K)
  | .queue event =>
      some { state with
        interface := state.interface.handle (base state.params) state.params event }
  | .configure params => some { state with params := params }
  | .filter filter data =>
      let (taken, _, pq) := state.interface.pq.filter filter data
      some { state with
        interface := { state.interface with pq := pq }
        taken := state.taken ++ taken }
  | .filterNextHop id =>
      let (p, pq) := state.interface.pq.filterNextHop id
      some { state with
        interface := { state.interface with pq := pq }
        taken := state.taken ++ p.toList }
  | .shrinkQueue =>
      (state.interface.pq.shrinkQueue state.params).map fun pq =>
        { state with interface := { state.interface with pq := pq } }
  | .reset =>
      some { state with interface := { state.interface with pq := state.interface.pq.terminate } }

/-- The runs of a queue that is empty at first and only ever has allowed settings. -/
def managedQueue (S : Type) (base : QueueParams → PriQueue K → Arrival K → PriQueue K)
    (allowed : QueueParams → Prop) : TransitionSystem (ManagedQueue K) (QueueCommand K S) where
  init state := allowed state.params ∧ state.interface.pq.q = [] ∧ state.interface.pq.log = [] ∧
    state.interface.arrived = [] ∧ state.taken = []
  step state command state' :=
    (∀ params, command = .configure params → allowed params) ∧
      state.handle base command = some state'

/-- All packets that have arrived are in one place.  Packets that are never put in front
stand in line in the order of their arrival; those that always are, with the latest first. -/
structure ManagedQueue.Accounted (allowed : QueueParams → Prop) (state : ManagedQueue K) :
    Prop where
  settings : allowed state.params
  numbered : state.interface.arrived.map Arrival.number =
    List.range state.interface.arrived.length
  conserved : (state.interface.pq.account ++ state.taken).Perm state.interface.arrived
  inOrder : ∀ steady : Arrival K → Bool,
    (∀ params p, allowed params → params.preferRoutingProtocols ≠ 0 → p.HighPriority →
      steady p = false) →
    ((sentPackets state.interface.pq.log ++ state.interface.pq.q).filter steady).Pairwise
      fun first second => first.number < second.number
  latestFirst : (∀ params, allowed params → params.preferRoutingProtocols ≠ 0) →
    (state.interface.pq.q.filter fun p => p.HighPriority).Pairwise
      fun first second => second.number < first.number

namespace ManagedQueue.Accounted

variable {allowed : QueueParams → Prop} {state : ManagedQueue K}

theorem initial {base : QueueParams → PriQueue K → Arrival K → PriQueue K}
    (start : (managedQueue S base allowed).init state) : state.Accounted allowed := by
  obtain ⟨settings, empty, quiet, none, untaken⟩ := start
  refine ⟨settings, by simp [none], ?_, ?_, ?_⟩
  · simp [PriQueue.account, empty, quiet, none, untaken, sentPackets, droppedPackets]
  · simp [empty, quiet, sentPackets]
  · simp [empty]

theorem numbers (accounted : state.Accounted allowed) :
    ((state.interface.pq.account ++ state.taken).map Arrival.number).Perm
      (List.range state.interface.arrived.length) := by
  rw [← accounted.numbered]
  exact accounted.conserved.map _

theorem latest (accounted : state.Accounted allowed) :
    ∀ other ∈ state.interface.pq.account ++ state.taken,
      other.number < state.interface.arrived.length := by
  intro other membership
  exact List.mem_range.mp (accounted.numbers.mem_iff.mp (List.mem_map_of_mem membership))

theorem distinct (accounted : state.Accounted allowed) :
    (state.interface.pq.q.map Arrival.number).Nodup := by
  have all := accounted.numbers.nodup_iff.mpr List.nodup_range
  refine all.sublist (List.Sublist.map _ ?_)
  rw [PriQueue.account, List.append_assoc]
  exact List.sublist_append_left _ _

theorem distinct_arrival (accounted : state.Accounted allowed) (packet : Packet K) :
    ((state.interface.arrival packet :: state.interface.pq.q).map Arrival.number).Nodup := by
  rw [List.map_cons, List.nodup_cons]
  refine ⟨fun membership => ?_, accounted.distinct⟩
  rcases List.mem_map.mp membership with ⟨other, waiting, same⟩
  refine (accounted.latest other ?_).ne same
  simp [PriQueue.account, waiting]

/-- An operation without an arrival. -/
theorem stay {pq : PriQueue K} {ops : List (QueueOp K)} {taken : List (Arrival K)}
    (accounted : state.Accounted allowed)
    (passes : PriQueue.Passes state.interface.pq.q state.interface.pq pq ops taken) :
    Accounted allowed { state with
      interface := { state.interface with pq := pq }, taken := state.taken ++ taken } where
  settings := accounted.settings
  numbered := accounted.numbered
  conserved := (passes.account state.taken).trans accounted.conserved
  inOrder steady unpreferred :=
    (accounted.inOrder steady unpreferred).sublist (passes.line_sublist.filter _)
  latestFirst preferring := (accounted.latestFirst preferring).sublist (passes.q_sublist.filter _)

theorem arrive {base : QueueParams → PriQueue K → Arrival K → PriQueue K}
    (documented : ∀ params, EnqueuesAndSends params (base params))
    (accounted : state.Accounted allowed) (packet : Packet K) :
    Accounted allowed { state with
      interface := state.interface.handle (base state.params) state.params (.arrive packet) } := by
  obtain ⟨ops, passes⟩ := PriQueue.Passes.recv (documented state.params) state.interface.pq
    (accounted.distinct_arrival packet)
  have latest : ∀ other ∈ sentPackets state.interface.pq.log ++ state.interface.pq.q,
      other.number < (state.interface.arrival packet).number := by
    intro other membership
    refine accounted.latest other ?_
    rcases List.mem_append.mp membership with gone | waiting
    · simp [PriQueue.account, gone]
    · simp [PriQueue.account, waiting]
  refine ⟨accounted.settings, ?_, ?_, fun steady unpreferred => ?_, fun preferring => ?_⟩
  · simp [Interface.handle, Interface.arrival, accounted.numbered, List.range_succ]
  · have account := passes.account state.taken
    rw [List.append_nil] at account
    refine account.trans ?_
    have inserted := PriQueue.insertion_perm state.params (state.interface.arrival packet)
      state.interface.pq.q
    refine ((inserted.append_right _).append_right _).trans ?_
    exact (accounted.conserved.cons _).trans (List.perm_append_singleton _ _).symm
  · refine List.Pairwise.sublist (passes.line_sublist.filter _) ?_
    have earlier := accounted.inOrder steady unpreferred
    unfold PriQueue.insertion
    split
    · rename_i high
      have moving := unpreferred _ _ accounted.settings high.1 high.2
      rw [List.filter_append, List.filter_cons_of_neg (by simp [moving]), ← List.filter_append]
      exact earlier
    · rw [← List.append_assoc, List.filter_append, List.pairwise_append]
      refine ⟨earlier, (List.pairwise_singleton _ _).sublist List.filter_sublist, ?_⟩
      intro first isEarlier second isLatest
      rw [List.mem_singleton.mp (List.mem_filter.mp isLatest).1]
      exact latest first (List.mem_filter.mp isEarlier).1
  · refine List.Pairwise.sublist (passes.q_sublist.filter _) ?_
    have before := accounted.latestFirst preferring
    have prefers := preferring _ accounted.settings
    unfold PriQueue.insertion
    split
    · rename_i high
      rw [List.filter_cons_of_pos (by simpa using high.2), List.pairwise_cons]
      refine ⟨fun other membership => ?_, before⟩
      exact latest other (List.mem_append_right _ (List.mem_filter.mp membership).1)
    · rename_i ordinary
      have low : ¬ (state.interface.arrival packet).HighPriority :=
        fun high => ordinary ⟨prefers, high⟩
      rw [List.filter_append, List.filter_cons_of_neg (by simpa using low)]
      simpa using before

/-- A command is an arrival, or lets the packets of the queue pass. -/
theorem step_cases {base : QueueParams → PriQueue K → Arrival K → PriQueue K}
    {state' : ManagedQueue K} {command : QueueCommand K S} (accounted : state.Accounted allowed)
    (step : (managedQueue S base allowed).step state command state') :
    (∃ packet, command = .queue (.arrive packet) ∧ state' = { state with
        interface := state.interface.handle (base state.params) state.params (.arrive packet) }) ∨
      ∃ params pq ops taken, allowed params ∧
        PriQueue.Passes state.interface.pq.q state.interface.pq pq ops taken ∧
        state' = ⟨params, { state.interface with pq := pq }, state.taken ++ taken⟩ := by
  obtain ⟨settings, returned⟩ := step
  have same := accounted.settings
  cases command with
  | queue event =>
      cases returned
      cases event with
      | arrive packet => exact .inl ⟨packet, rfl, rfl⟩
      | dequeue blocked =>
          obtain ⟨ops, passes⟩ := PriQueue.Passes.resume state.interface.pq blocked
          exact .inr ⟨_, _, ops, [], same, passes, by rw [List.append_nil]; rfl⟩
  | configure params =>
      cases returned
      exact .inr ⟨params, _, [], [], settings params rfl, .refl _, by rw [List.append_nil]⟩
  | filter filter data =>
      cases returned
      exact .inr ⟨_, _, _, _, same, .filter filter data accounted.distinct, rfl⟩
  | filterNextHop id =>
      cases returned
      exact .inr ⟨_, _, _, _, same, .filterNextHop id accounted.distinct, rfl⟩
  | shrinkQueue =>
      obtain ⟨pq, shrinks, rfl⟩ := Option.map_eq_some_iff.mp returned
      obtain ⟨ops, passes⟩ := PriQueue.Passes.shrinkQueue accounted.distinct shrinks
      exact .inr ⟨_, pq, ops, [], same, passes, by rw [List.append_nil]⟩
  | reset =>
      cases returned
      obtain ⟨ops, passes⟩ := PriQueue.Passes.terminate state.interface.pq
      exact .inr ⟨_, _, ops, [], same, passes, by rw [List.append_nil]⟩

theorem handle {base : QueueParams → PriQueue K → Arrival K → PriQueue K}
    (documented : ∀ params, EnqueuesAndSends params (base params))
    {state' : ManagedQueue K} {command : QueueCommand K S} (accounted : state.Accounted allowed)
    (step : (managedQueue S base allowed).step state command state') :
    state'.Accounted allowed := by
  rcases accounted.step_cases step with ⟨packet, _, rfl⟩ |
    ⟨params, pq, ops, taken, settings, passes, rfl⟩
  · exact accounted.arrive documented packet
  · obtain ⟨_, numbered, conserved, inOrder, latestFirst⟩ := accounted.stay passes
    exact ⟨settings, numbered, conserved, inOrder, latestFirst⟩

end ManagedQueue.Accounted

variable {allowed : QueueParams → Prop} {state : ManagedQueue K}

/-- In every run of the queue, with whatever settings and whatever is taken out of it,
every packet that has arrived is exactly once in the queue, sent, dropped or taken.  No
packet that is never put in front overtakes another such packet, and packets that always
are leave the queue with the latest first. -/
theorem managed_queue_conserves {base : QueueParams → PriQueue K → Arrival K → PriQueue K}
    (documented : ∀ params, EnqueuesAndSends params (base params))
    (reached : (managedQueue S base allowed).Reachable state) : state.Accounted allowed :=
  reached.invariant (ManagedQueue.Accounted allowed) (fun _ start => .initial start)
    fun _ _ _ accounted step => accounted.handle documented step

/-- A forward ant arrives while routing packets are preferred, then two backward ants while
they are not, and the filter takes one of them. -/
theorem managed_queue_conserves_filtered :
    let base (params : QueueParams) : PriQueue ℤ → Arrival ℤ → PriQueue ℤ :=
      fun pq p => (pq.enque params p).sendUnblocked
    let start : ManagedQueue ℤ := ⟨⟨1, 5, false, 500, false⟩, ⟨⟨true, [], []⟩, []⟩, []⟩
    let commands : List (QueueCommand ℤ Unit) := [.queue (.arrive (packetOf ptAnt .down)),
      .configure ⟨0, 5, false, 500, true⟩, .queue (.arrive (packetOf ptAnt .up)),
      .queue (.arrive (packetOf ptAnt .up)), .filterNextHop (-2), .queue (.dequeue false)]
    ∃ last, commands.foldlM (ManagedQueue.handle base) start = some last ∧
      (last.taken.map Arrival.number, last.interface.pq.q.map Arrival.number) = ([0], [2]) ∧
      last.Accounted fun _ => True := by
  intro base start commands
  have run : ∀ commands : List (QueueCommand ℤ Unit), ∀ first last : ManagedQueue ℤ,
      (managedQueue Unit base fun _ => True).Reachable first →
      commands.foldlM (ManagedQueue.handle base) first = some last →
      (managedQueue Unit base fun _ => True).Reachable last := by
    intro commands
    induction commands with
    | nil =>
        rintro first last reached ⟨⟩
        exact reached
    | cons command commands inductionHypothesis =>
        intro first last reached returned
        obtain ⟨next, now, later⟩ := Option.bind_eq_some_iff.mp returned
        refine inductionHypothesis next last ?_ later
        rcases reached with ⟨state, trace, initial, steps⟩
        exact ⟨state, _, initial, .snoc steps ⟨fun _ _ => trivial, now⟩⟩
  have ended : (commands.foldlM (ManagedQueue.handle base) start).isSome := by decide
  obtain ⟨last, returned⟩ := Option.isSome_iff_exists.mp ended
  refine ⟨last, returned, ?_, ?_⟩
  · have numbers : (commands.foldlM (ManagedQueue.handle base) start).map (fun last =>
        (last.taken.map Arrival.number, last.interface.pq.q.map Arrival.number)) =
        some ([0], [2]) := by decide
    rw [returned] at numbers
    exact Option.some.inj numbers
  · refine @managed_queue_conserves ℤ Unit _ _ base (fun _ _ _ => rfl) ?_
    exact run commands start last ⟨start, [], ⟨trivial, rfl, rfl, rfl, rfl⟩, .refl start⟩ returned

/-! ### The limit of the queue -/

namespace PriQueue

/-- The size of the queue, in the unit of its limit. -/
def occupied (params : QueueParams) (pq : PriQueue K) : ℤ :=
  if params.qib then pq.byteLength else pq.q.length

variable {params : QueueParams} {pq : PriQueue K} {p : Arrival K}

theorem occupied_le {q : List (Arrival K)} (sizes : ∀ p ∈ pq.q, 0 ≤ p.packet.cmn.size)
    (fewer : q.Sublist pq.q) (blocked : Bool) (log : List (QueueOp K)) :
    occupied params ⟨blocked, q, log⟩ ≤ pq.occupied params := by
  unfold occupied
  split
  · exact (fewer.map _).sum_le_sum (by simpa using sizes)
  · exact_mod_cast fewer.length_le

/-- A packet that is stored leaves room below the limit. -/
theorem enque_occupied (settings : params.qib = true → params.dropFront = false)
    (pq : PriQueue K) (p : Arrival K) :
    (pq.enque params p).occupied params ≤ max (pq.occupied params) (limit params - 1) := by
  unfold enque
  simp only
  split
  · split
    · rename_i front
      have packets : params.qib = false := by
        cases bytes : params.qib with
        | true => simp [settings bytes] at front
        | false => rfl
      obtain ⟨first, rest, split⟩ := List.exists_cons_of_ne_nil
        (List.append_ne_nil_of_right_ne_nil pq.q (List.cons_ne_nil p []))
      have size := congrArg List.length split
      simp only [deque, split, List.head?_cons, List.tail_cons, drop, occupied, packets]
      simp at size ⊢
      omega
    · exact le_max_left _ _
  · rename_i room
    apply le_max_of_le_right
    rw [not_or, not_and, not_and] at room
    cases bytes : params.qib with
    | true =>
        have below := not_le.mp (room.2 bytes)
        simp only [occupied, byteLength, limit, bytes, if_true, List.map_append, List.sum_append,
          List.map_singleton, List.sum_singleton] at below ⊢
        omega
    | false =>
        have below := not_le.mp (room.1 bytes)
        simp only [occupied, limit, bytes, Bool.false_eq_true, if_false, List.length_append,
          List.length_singleton] at below ⊢
        push_cast
        omega

theorem recvHighPriority_length {p : Arrival K}
    (distinct : ((p :: pq.q).map Arrival.number).Nodup) :
    ((pq.recvHighPriority params p).q.length : ℤ) ≤ max (pq.q.length : ℤ) (params.qlim - 1) := by
  have shorter : ∀ pq : PriQueue K, pq.sendUnblocked.q.length ≤ pq.q.length := by
    intro pq
    obtain ⟨ops, passes⟩ := Passes.sendUnblocked pq
    exact passes.q_sublist.length_le
  rcases pq.recvHighPriority_cases params distinct with ⟨room, stored⟩ | ⟨front, last, split, full⟩
  · have fewer := shorter { pq with q := p :: pq.q }
    rw [stored]
    simp only [List.length_cons] at fewer
    omega
  · have fewer := shorter ({ pq with q := front }.drop last)
    have kept : ({ pq with q := front }.drop last).q = front := rfl
    have size := congrArg List.length split
    rw [kept] at fewer
    rw [full]
    simp only [List.length_cons, List.length_append, List.length_nil] at size
    omega

theorem recv_occupied {base : PriQueue K → Arrival K → PriQueue K}
    (documented : EnqueuesAndSends params base)
    (settings : params.qib = true →
      params.dropFront = false ∧ params.preferRoutingProtocols = 0)
    (distinct : ((p :: pq.q).map Arrival.number).Nodup)
    (sizes : ∀ other ∈ pq.q ++ [p], 0 ≤ other.packet.cmn.size) :
    (pq.recv base params p).occupied params ≤ max (pq.occupied params) (limit params - 1) := by
  rw [recv_eq]
  split
  · rename_i high
    have packets : params.qib = false := by
      cases bytes : params.qib with
      | true => exact absurd (settings bytes).2 high.1
      | false => rfl
    have length : ((pq.recvHighPriority params p).q.length : ℤ) ≤ _ :=
      recvHighPriority_length distinct
    simpa [occupied, limit, packets] using length
  · rw [documented]
    obtain ⟨ops, stored⟩ := Passes.enque params pq p
    obtain ⟨ops', sends⟩ := Passes.sendUnblocked (pq.enque params p)
    have waiting : ∀ other ∈ (pq.enque params p).q, 0 ≤ other.packet.cmn.size :=
      fun other waiting => sizes other (stored.q_sublist.subset waiting)
    have fewer : (pq.enque params p).sendUnblocked.occupied params ≤ _ :=
      occupied_le waiting sends.q_sublist _ _
    exact fewer.trans (enque_occupied (fun bytes => (settings bytes).1) pq p)

end PriQueue

variable {params : QueueParams} {base : QueueParams → PriQueue K → Arrival K → PriQueue K}

theorem ManagedQueue.Accounted.arrived (accounted : state.Accounted allowed) {p : Arrival K}
    (waiting : p ∈ state.interface.pq.q) : p ∈ state.interface.arrived := by
  refine accounted.conserved.mem_iff.mp ?_
  simp [PriQueue.account, waiting]

/-- With fixed settings the queue keeps below its limit whatever happens: when it counts
packets, and when it counts bytes provided that no packet is put in front and that those
dropped are the latest. -/
theorem managed_queue_bounded (documented : ∀ params, EnqueuesAndSends params (base params))
    (settings : params.qib = true →
      params.dropFront = false ∧ params.preferRoutingProtocols = 0)
    (reached : (managedQueue S base (· = params)).Reachable state)
    (sizes : ∀ p ∈ state.interface.arrived, 0 ≤ p.packet.cmn.size) :
    state.interface.pq.occupied params < max 1 (PriQueue.limit params) := by
  have invariant : state.Accounted (· = params) ∧
      ((∀ p ∈ state.interface.arrived, 0 ≤ p.packet.cmn.size) →
        state.interface.pq.occupied params < max 1 (PriQueue.limit params)) := by
    refine reached.invariant (fun state => state.Accounted (· = params) ∧
      ((∀ p ∈ state.interface.arrived, 0 ≤ p.packet.cmn.size) →
        state.interface.pq.occupied params < max 1 (PriQueue.limit params))) ?_ ?_
    · intro state start
      refine ⟨.initial start, fun _ => ?_⟩
      simp [PriQueue.occupied, PriQueue.byteLength, start.2.1]
    · rintro first command last ⟨accounted, bounded⟩ step
      refine ⟨accounted.handle documented step, fun sizes => ?_⟩
      rcases accounted.step_cases step with ⟨packet, _, rfl⟩ | ⟨_, _, _, _, _, passes, rfl⟩
      · have before : ∀ p ∈ first.interface.arrived, 0 ≤ p.packet.cmn.size :=
          fun p earlier => sizes p (List.mem_append_left _ earlier)
        have waiting : ∀ p ∈ first.interface.pq.q ++ [first.interface.arrival packet],
            0 ≤ p.packet.cmn.size := by
          intro p membership
          rcases List.mem_append.mp membership with earlier | latest
          · exact before p (accounted.arrived earlier)
          · exact sizes p (List.mem_append_right _ latest)
        have received := PriQueue.recv_occupied (documented params) settings
          (accounted.distinct_arrival packet) waiting
        have below := bounded before
        rw [← accounted.settings] at received below ⊢
        refine received.trans_lt (max_lt below ?_)
        omega
      · refine lt_of_le_of_lt ?_ (bounded sizes)
        exact PriQueue.occupied_le (fun p waiting => sizes p (accounted.arrived waiting))
          passes.q_sublist _ _
  exact invariant.2 sizes

/-- Two packets of 500 bytes arrive at a blocked queue for 1000 bytes. -/
theorem managed_queue_bounded_bytes :
    let params : QueueParams := ⟨0, 2, true, 500, false⟩
    let base (params : QueueParams) : PriQueue ℤ → Arrival ℤ → PriQueue ℤ :=
      fun pq p => (pq.enque params p).sendUnblocked
    ∃ last, (managedQueue Unit base (· = params)).Reachable last ∧
      last.interface.pq.q.length = 1 ∧ last.interface.pq.occupied params < 1000 := by
  intro params base
  let start : ManagedQueue ℤ := ⟨params, ⟨⟨true, [], []⟩, []⟩, []⟩
  let next (state : ManagedQueue ℤ) : ManagedQueue ℤ := { state with
    interface :=
      state.interface.handle (base state.params) state.params (.arrive (PriQueue.packetTo 1)) }
  have step : ∀ state, (managedQueue Unit base (· = params)).step state
      (.queue (.arrive (PriQueue.packetTo 1))) (next state) := fun _ => ⟨nofun, rfl⟩
  have reached : (managedQueue Unit base (· = params)).Reachable (next (next start)) :=
    ⟨start, _, ⟨rfl, rfl, rfl, rfl, rfl⟩, .snoc (.single (step start)) (step _)⟩
  refine ⟨_, reached, by decide, ?_⟩
  exact managed_queue_bounded (fun _ _ _ => rfl) (fun _ => ⟨rfl, rfl⟩) reached (by decide)

end AntAodv
