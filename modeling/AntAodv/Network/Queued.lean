import AntAodv.Library.Refinement
import AntAodv.Network.Distribution
import AntAodv.PriQueue.Conservation
import Mathlib.Algebra.BigOperators.Group.Finset.Basic
import Mathlib.Algebra.Order.Group.Multiset
import Mathlib.Tactic.Abel

/-!
# Agents behind interface queues

The network with the interface queue of each node between its agent and the air.  Ants
overtake each other in the queues and are dropped by them, and other traffic shares the
queues; to the agents all this is a run of the network with a medium that loses ants.
-/

namespace AntAodv

variable {K S : Type}

/-- A network with interface queues.  In flight are the packets that a queue has sent. -/
structure QueuedNet (K : Type) where
  net : Net K
  ifq : NsAddr → ManagedQueue K

inductive QueuedEvent (K S : Type) where
  | agent (event : Event K)
  | queue (node : NsAddr) (command : QueueCommand K S)

/-- What a queue has sent since it was `before`. -/
def ManagedQueue.sentSince (before after : ManagedQueue K) : List (Packet K) :=
  ((sentPackets after.interface.pq.log).drop
    (sentPackets before.interface.pq.log).length).map Arrival.packet

namespace QueuedNet

/-- The queue of `node` becomes `after`, and what it has sent is in flight. -/
def pass (state : QueuedNet K) (node : NsAddr) (after : ManagedQueue K) : QueuedNet K where
  net := { state.net with flight := state.net.flight ++ (state.ifq node).sentSince after }
  ifq := Function.update state.ifq node after

section Base

variable (base : QueueParams → PriQueue K → Arrival K → PriQueue K)

/-- The target of the agent at `node` puts a packet into the queue. -/
def accept (node : NsAddr) (state : QueuedNet K) (p : Packet K) : QueuedNet K :=
  let queue := state.ifq node
  state.pass node { queue with
    interface := queue.interface.handle (base queue.params) queue.params (.arrive p) }

/-- The network after a call at `addr` has returned, with the packets it handed to its
target in the queue. -/
def finish (state : QueuedNet K) (addr : NsAddr) (c : Call K) : QueuedNet K :=
  (handed c.log).foldl (accept base addr)
    { state with net := { state.net.finish addr c with flight := state.net.flight } }

variable [Field K] [LinearOrder K]

/-- The network after an event; `none` when a call does not return, or when
`shrink_queue` fails. -/
def exec (sim : Sim) (state : QueuedNet K) : QueuedEvent K S → Option (QueuedNet K)
  | .agent (.tick time) => some { state with net := { state.net with clock := time } }
  | .agent (.start addr) =>
      some (state.finish base addr ((state.net.call addr none [] [] 0).start sim))
  | .agent (.stop addr) => some (state.finish base addr (state.net.call addr none [] [] 0).stop)
  | .agent (.timer addr raws draws junk) =>
      match (state.net.call addr none raws draws junk).sendAntPkt sim with
      | .ok c => some (state.finish base addr c)
      | .error _ => none
  | .agent (.deliver index p draws junk) =>
      match (state.net.call p.ip.daddr (some p) [] draws junk).recv sim with
      | .ok c => some (finish base { state with net := state.net.remove index } p.ip.daddr c)
      | .error _ => none
  | .agent (.lose index) => some { state with net := state.net.remove index }
  | .queue node command => ((state.ifq node).handle base command).map (state.pass node)

end Base

/-- When an event may happen.  Only ants are delivered to the agents, and what others put
into the queues are no ants. -/
def Enabled [Field K] [LinearOrder K] (sim : Sim) (medium : Medium K) (state : QueuedNet K) :
    QueuedEvent K S → Prop
  | .agent event => state.net.Enabled sim medium event ∧
      ∀ p, event.delivered = some p → p.cmn.ptype = ptAnt
  | .queue node command => node ∈ sim.nodes ∧
      ∀ p, command = .queue (.arrive p) → p.cmn.ptype ≠ ptAnt

end QueuedNet

/-- The runs of the network with interface queues, all of them empty at first. -/
def queuedNetwork [Field K] [LinearOrder K] (S : Type) (sim : Sim) (medium : Medium K)
    (params : NsAddr → Params K) (base : QueueParams → PriQueue K → Arrival K → PriQueue K) :
    TransitionSystem (QueuedNet K) (QueuedEvent K S) where
  init state := state.net = Net.initial params ∧
    ∀ node, (managedQueue S base fun _ => True).init (state.ifq node)
  step state event state' := state.Enabled sim medium event ∧ state.exec base sim event = some state'

/-- The medium that may also lose any packet. -/
def Medium.lossy (medium : Medium K) : Medium K := { medium with loses := fun _ => True }

theorem Medium.Faithful.lossy {medium : Medium K} (faithful : medium.Faithful) :
    medium.lossy.Faithful := faithful

/-- What the agents see of an event. -/
inductive Shown (K : Type) where
  | tick (time : K)
  | start (addr : NsAddr)
  | stop (addr : NsAddr)
  | timer (addr : NsAddr) (raws : List ℕ) (draws : List K) (junk : NsAddr)
  | deliver (p : Packet K) (draws : List K) (junk : NsAddr)

def Event.shown : Event K → Option (Shown K)
  | .tick time => some (.tick time)
  | .start addr => some (.start addr)
  | .stop addr => some (.stop addr)
  | .timer addr raws draws junk => some (.timer addr raws draws junk)
  | .deliver _ p draws junk => some (.deliver p draws junk)
  | .lose _ => none

def QueuedEvent.shown : QueuedEvent K S → Option (Shown K)
  | .agent event => event.shown
  | .queue _ _ => none

/-- Two networks that differ at most in the packets in flight. -/
structure Net.SameButFlight (net net' : Net K) : Prop where
  clock : net.clock = net'.clock
  globals : net.globals = net'.globals
  agent : net.agent = net'.agent
  uidcnt : net.uidcnt = net'.uidcnt

theorem Net.SameButFlight.withFlight {net net' : Net K} (agrees : net.SameButFlight net')
    (flight flight' : List (Packet K)) :
    Net.SameButFlight { net with flight := flight } { net' with flight := flight' } :=
  ⟨agrees.clock, agrees.globals, agrees.agent, agrees.uidcnt⟩

theorem Net.SameButFlight.call {net net' : Net K} (agrees : net.SameButFlight net') (addr : NsAddr)
    (held : Option (Packet K)) (raws : List ℕ) (draws : List K) (junk : NsAddr) :
    net.call addr held raws draws junk = net'.call addr held raws draws junk := by
  simp [Net.call, agrees.clock, agrees.globals, agrees.agent, agrees.uidcnt]

theorem Net.SameButFlight.finish {net net' : Net K} (agrees : net.SameButFlight net') (addr : NsAddr)
    (c : Call K) : (net.finish addr c).SameButFlight (net'.finish addr c) where
  clock := agrees.clock
  globals := rfl
  agent := by simp [Net.finish, agrees.agent]
  uidcnt := rfl

namespace QueuedNet

/-- The packets in flight or in a queue. -/
def transit (sim : Sim) (state : QueuedNet K) : Multiset (Packet K) :=
  (state.net.flight : Multiset (Packet K)) +
    ∑ node ∈ sim.nodes, ((state.ifq node).interface.pq.q.map Arrival.packet : Multiset (Packet K))

/-- The network as its agents see it: the ants in the queues are in flight. -/
structure Abstracts (sim : Sim) (state : QueuedNet K) (net : Net K) : Prop where
  agrees : net.SameButFlight state.net
  flight : (net.flight : Multiset (Packet K)) =
    (state.transit sim).filter fun p => p.cmn.ptype = ptAnt
  queues : ∀ node, (state.ifq node).Accounted fun _ => True

variable {sim : Sim} {state : QueuedNet K} {node : NsAddr}

/-- What leaves a queue otherwise than on the air is gone from transit. -/
theorem transit_pass (isNode : node ∈ sim.nodes) {after : ManagedQueue K}
    {line new taken : List (Arrival K)} {ops : List (QueueOp K)}
    (passes : PriQueue.Passes line (state.ifq node).interface.pq after.interface.pq ops taken)
    (arrived : line.Perm (new ++ (state.ifq node).interface.pq.q)) :
    (state.pass node after).transit sim +
        ((droppedPackets ops ++ taken).map Arrival.packet : Multiset (Packet K)) =
      state.transit sim + (new.map Arrival.packet : Multiset (Packet K)) := by
  have sent : (state.ifq node).sentSince after = (sentPackets ops).map Arrival.packet := by
    rw [ManagedQueue.sentSince, passes.log, PriQueue.sentPackets_append, List.drop_left]
  have whole := Multiset.coe_eq_coe.mpr ((passes.conserved.trans arrived).map Arrival.packet)
  have others : ∑ other ∈ sim.nodes.erase node,
        ((Function.update state.ifq node after other).interface.pq.q.map Arrival.packet :
          Multiset (Packet K)) =
      ∑ other ∈ sim.nodes.erase node,
        ((state.ifq other).interface.pq.q.map Arrival.packet : Multiset (Packet K)) := by
    refine Finset.sum_congr rfl fun other membership => ?_
    rw [Function.update_of_ne (Finset.ne_of_mem_erase membership)]
  simp only [transit, pass]
  rw [← Finset.add_sum_erase _ _ isNode, others, ← Finset.add_sum_erase _ _ isNode,
    Function.update_self, sent]
  simp only [List.map_append, ← Multiset.coe_add] at whole ⊢
  calc _ = (state.net.flight : Multiset (Packet K)) +
        ∑ other ∈ sim.nodes.erase node,
          ((state.ifq other).interface.pq.q.map Arrival.packet : Multiset (Packet K)) +
        ((after.interface.pq.q.map Arrival.packet : Multiset (Packet K)) +
          (((sentPackets ops).map Arrival.packet : Multiset (Packet K)) +
            (droppedPackets ops).map Arrival.packet) + taken.map Arrival.packet) := by abel
    _ = _ := by rw [whole]; abel

/-- A packet that an agent puts into its queue is in transit, or drives packets out. -/
theorem transit_accept {base : QueueParams → PriQueue K → Arrival K → PriQueue K}
    (documented : ∀ params, EnqueuesAndSends params (base params)) (isNode : node ∈ sim.nodes)
    (queues : ∀ node, (state.ifq node).Accounted fun _ => True) (p : Packet K) :
    (∃ gone, (state.accept base node p).transit sim + gone = state.transit sim + {p}) ∧
      ∀ node', ((state.accept base node p).ifq node').Accounted fun _ => True := by
  have accounted := queues node
  obtain ⟨ops, passes⟩ := PriQueue.Passes.recv (documented (state.ifq node).params)
    (state.ifq node).interface.pq (accounted.distinct_arrival p)
  constructor
  · have arrived := PriQueue.insertion_perm (state.ifq node).params
      ((state.ifq node).interface.arrival p) (state.ifq node).interface.pq.q
    rw [← List.singleton_append] at arrived
    exact ⟨_, transit_pass isNode passes arrived⟩
  · intro node'
    by_cases same : node' = node
    · subst same
      simp only [accept, pass, Function.update_self]
      exact accounted.arrive documented p
    · simp only [accept, pass, Function.update_of_ne same]
      exact queues node'

/-- What a call hands to its target is in transit afterwards, but for what leaves the queue
otherwise than on the air. -/
theorem transit_foldl_accept {base : QueueParams → PriQueue K → Arrival K → PriQueue K}
    (documented : ∀ params, EnqueuesAndSends params (base params)) (isNode : node ∈ sim.nodes)
    (queues : ∀ node, (state.ifq node).Accounted fun _ => True) (ps : List (Packet K)) :
    (∃ gone, (ps.foldl (accept base node) state).transit sim + gone =
        state.transit sim + (ps : Multiset (Packet K))) ∧
      (∀ node', ((ps.foldl (accept base node) state).ifq node').Accounted fun _ => True) ∧
      ∃ flight, (ps.foldl (accept base node) state).net = { state.net with flight := flight } := by
  induction ps generalizing state with
  | nil => exact ⟨⟨0, by simp⟩, queues, state.net.flight, rfl⟩
  | cons p ps inductionHypothesis =>
      obtain ⟨⟨first, transit⟩, queues'⟩ := transit_accept documented isNode queues p
      obtain ⟨⟨rest, transit'⟩, queues'', flight, net⟩ := inductionHypothesis queues'
      refine ⟨⟨rest + first, ?_⟩, queues'', flight, net⟩
      rw [List.foldl_cons, ← add_assoc, transit', add_right_comm, transit, add_assoc]
      rfl

end QueuedNet

section Refinement

variable [Field K] [LinearOrder K] {sim : Sim} {medium : Medium K} {params : NsAddr → Params K}
  {base : QueueParams → PriQueue K → Arrival K → PriQueue K} {state state' : QueuedNet K}
  {net : Net K}

/-- A lossy medium may lose any of the packets in flight. -/
theorem Net.exists_run_losing {keep gone : Multiset (Packet K)}
    (split : (net.flight : Multiset (Packet K)) = keep + gone) :
    ∃ trace flight, (network sim medium.lossy params).Run net trace { net with flight := flight } ∧
      (flight : Multiset (Packet K)) = keep ∧
      TransitionSystem.observed Event.shown trace = [] := by
  induction gone using Multiset.induction generalizing net with
  | empty => exact ⟨[], net.flight, .refl net, by simpa using split, rfl⟩
  | cons p gone inductionHypothesis =>
      have inFlight : p ∈ net.flight := by
        rw [← Multiset.mem_coe, split]
        simp
      obtain ⟨index, found⟩ := List.getElem?_of_mem inFlight
      obtain ⟨inside, same⟩ := List.getElem?_eq_some_iff.mp found
      have rest : ((net.remove index).flight : Multiset (Packet K)) = keep + gone := by
        have order := Multiset.coe_eq_coe.mpr (List.getElem_cons_eraseIdx_perm inside)
        rw [split, same, ← Multiset.cons_coe, Multiset.add_cons] at order
        exact (Multiset.cons_inj_right p).mp order
      obtain ⟨trace, flight, run, kept, quiet⟩ := inductionHypothesis rest
      have lost : (network sim medium.lossy params).step net (.lose index) (net.remove index) :=
        ⟨⟨p, found, trivial⟩, rfl⟩
      exact ⟨_, flight, .trans (.single lost) run, kept, quiet⟩

namespace QueuedNet

/-- The network catches up with one that has lost some of the packets in transit. -/
theorem Abstracts.of_losing (gone : Multiset (Packet K)) (agrees : net.SameButFlight state.net)
    (flight : (net.flight : Multiset (Packet K)) =
      (state.transit sim + gone).filter fun p => p.cmn.ptype = ptAnt)
    (queues : ∀ node, (state.ifq node).Accounted fun _ => True) :
    ∃ trace net', (network sim medium.lossy params).Run net trace net' ∧
      state.Abstracts sim net' ∧ TransitionSystem.observed Event.shown trace = [] := by
  rw [Multiset.filter_add] at flight
  obtain ⟨trace, flight', run, same, quiet⟩ := Net.exists_run_losing flight
  exact ⟨trace, _, run, ⟨agrees.withFlight flight' state.net.flight, same, queues⟩, quiet⟩

/-- The network follows the return of a call, losing the ants that the queue drops. -/
theorem Abstracts.finish (documented : ∀ params, EnqueuesAndSends params (base params))
    {addr : NsAddr} (isNode : addr ∈ sim.nodes) (abstracts : state.Abstracts sim net)
    {c : Call K} (ants : ∀ p ∈ handed c.log, p.cmn.ptype = ptAnt) :
    ∃ trace net', (network sim medium.lossy params).Run (net.finish addr c) trace net' ∧
      (state.finish base addr c).Abstracts sim net' ∧
      TransitionSystem.observed Event.shown trace = [] := by
  obtain ⟨⟨gone, transit⟩, queues, flight, kept⟩ := @transit_foldl_accept K sim
    { state with net := { state.net.finish addr c with flight := state.net.flight } } addr base
    documented isNode abstracts.queues (handed c.log)
  have agrees := abstracts.agrees.finish addr c
  have same : (net.finish addr c).SameButFlight (state.finish base addr c).net := by
    rw [QueuedNet.finish, kept]
    exact agrees.withFlight _ flight
  refine of_losing gone same ?_ queues
  · have all : (handed c.log : Multiset (Packet K)).filter (fun p => p.cmn.ptype = ptAnt) =
        handed c.log := Multiset.filter_eq_self.mpr (by simpa using ants)
    rw [QueuedNet.finish, transit, Multiset.filter_add, all, Net.finish, ← Multiset.coe_add,
      abstracts.flight]
    rfl

/-- The network takes the step of a call and follows its return. -/
theorem Abstracts.step (documented : ∀ params, EnqueuesAndSends params (base params))
    (faithful : medium.Faithful) {addr : NsAddr} (isNode : addr ∈ sim.nodes)
    {before : Net K} (reached : (network sim medium.lossy params).Reachable before)
    (abstracts : state.Abstracts sim net) {c : Call K} {event : Event K}
    (step : (network sim medium.lossy params).step before event (net.finish addr c)) :
    ∃ trace net', (network sim medium.lossy params).Run before trace net' ∧
      (state.finish base addr c).Abstracts sim net' ∧
      TransitionSystem.observed Event.shown trace = event.shown.toList := by
  have single := TransitionSystem.Run.single step
  have wellFormed := faithful.lossy.wellFormed (reached.run single)
  have ants : ∀ p ∈ handed c.log, p.cmn.ptype = ptAnt := by
    intro p sent
    rcases wellFormed.ants p (List.mem_append_right _ sent) with forward | backward
    · exact forward.ptype
    · exact backward.ptype
  obtain ⟨trace, net', run, abstracts', quiet⟩ := abstracts.finish documented isNode ants
  refine ⟨_, net', single.trans run, abstracts', ?_⟩
  rw [TransitionSystem.observed_append, quiet]
  cases shown : event.shown <;> simp [TransitionSystem.observed, shown]

omit [Field K] [LinearOrder K] in
theorem transit_remove {index : ℕ} {sent : Packet K}
    (found : state.net.flight[index]? = some sent) :
    state.transit sim = sent ::ₘ transit sim { state with net := state.net.remove index } := by
  obtain ⟨inside, same⟩ := List.getElem?_eq_some_iff.mp found
  have order := Multiset.coe_eq_coe.mpr (List.getElem_cons_eraseIdx_perm inside)
  rw [same, ← Multiset.cons_coe] at order
  rw [transit, ← order, Multiset.cons_add]
  rfl

omit [Field K] [LinearOrder K] in
/-- An ant that leaves the air leaves the flight of the network. -/
theorem Abstracts.remove {index : ℕ} {sent : Packet K} (abstracts : state.Abstracts sim net)
    (found : state.net.flight[index]? = some sent) (ant : sent.cmn.ptype = ptAnt) :
    ∃ index', net.flight[index']? = some sent ∧
      Abstracts sim { state with net := state.net.remove index } (net.remove index') := by
  have flight := abstracts.flight
  rw [transit_remove found,
    Multiset.filter_cons_of_pos (p := fun p : Packet K => p.cmn.ptype = ptAnt) _ ant] at flight
  have inFlight : sent ∈ net.flight := by
    rw [← Multiset.mem_coe, flight]
    exact Multiset.mem_cons_self _ _
  obtain ⟨index', found'⟩ := List.getElem?_of_mem inFlight
  obtain ⟨inside, same⟩ := List.getElem?_eq_some_iff.mp found'
  have order := Multiset.coe_eq_coe.mpr (List.getElem_cons_eraseIdx_perm inside)
  rw [same, flight, ← Multiset.cons_coe] at order
  exact ⟨index', found', abstracts.agrees.withFlight _ _, (Multiset.cons_inj_right sent).mp order,
    abstracts.queues⟩

/-- The network follows a queue through which no new ants pass. -/
theorem Abstracts.pass {node : NsAddr} (isNode : node ∈ sim.nodes)
    (abstracts : state.Abstracts sim net) {after : ManagedQueue K}
    {line new taken : List (Arrival K)} {ops : List (QueueOp K)}
    (passes : PriQueue.Passes line (state.ifq node).interface.pq after.interface.pq ops taken)
    (arrived : line.Perm (new ++ (state.ifq node).interface.pq.q))
    (foreign : ∀ p ∈ new, p.packet.cmn.ptype ≠ ptAnt)
    (accounted : after.Accounted fun _ => True) :
    ∃ trace net', (network sim medium.lossy params).Run net trace net' ∧
      (state.pass node after).Abstracts sim net' ∧
      TransitionSystem.observed Event.shown trace = [] := by
  have transit := transit_pass isNode passes arrived
  refine of_losing ((droppedPackets ops ++ taken).map Arrival.packet : Multiset (Packet K))
    (abstracts.agrees.withFlight net.flight _) ?_ fun other => ?_
  · have none : (new.map Arrival.packet : Multiset (Packet K)).filter
        (fun p => p.cmn.ptype = ptAnt) = 0 := by
      rw [Multiset.filter_eq_nil]
      simpa using foreign
    rw [transit, Multiset.filter_add, none, add_zero]
    exact abstracts.flight
  · by_cases same : other = node
    · subst same
      simpa [QueuedNet.pass] using accounted
    · simpa [QueuedNet.pass, same] using abstracts.queues other

/-- The network follows every event of the network with queues. -/
theorem Abstracts.follow (documented : ∀ params, EnqueuesAndSends params (base params))
    (faithful : medium.Faithful) (reached : (network sim medium.lossy params).Reachable net)
    (abstracts : state.Abstracts sim net) {event : QueuedEvent K S}
    (step : (queuedNetwork S sim medium params base).step state event state') :
    ∃ trace net', (network sim medium.lossy params).Run net trace net' ∧
      state'.Abstracts sim net' ∧
      TransitionSystem.observed Event.shown trace = event.shown.toList := by
  obtain ⟨enabled, returned⟩ := step
  have call := abstracts.agrees.call
  cases event with
  | agent event =>
      obtain ⟨enabled, ants⟩ := enabled
      cases event with
      | tick time =>
          cases returned
          have later : net.clock ≤ time := by
            rw [abstracts.agrees.clock]
            exact enabled
          have stepped : (network sim medium.lossy params).step net (.tick time)
              { net with clock := time } := ⟨later, rfl⟩
          exact ⟨_, _, .single stepped, ⟨⟨rfl, abstracts.agrees.globals, abstracts.agrees.agent,
            abstracts.agrees.uidcnt⟩, abstracts.flight, abstracts.queues⟩, rfl⟩
      | start addr =>
          cases returned
          have stepped : (network sim medium.lossy params).step net (.start addr)
              (net.finish addr ((state.net.call addr none [] [] 0).start sim)) :=
            ⟨enabled, by rw [Net.exec, call]⟩
          exact abstracts.step documented faithful enabled reached stepped
      | stop addr =>
          cases returned
          have stepped : (network sim medium.lossy params).step net (.stop addr)
              (net.finish addr (state.net.call addr none [] [] 0).stop) :=
            ⟨enabled, by rw [Net.exec, call]⟩
          exact abstracts.step documented faithful enabled reached stepped
      | timer addr raws draws junk =>
          rw [exec] at returned
          split at returned
          · rename_i c sent
            cases returned
            have stepped : (network sim medium.lossy params).step net
                (.timer addr raws draws junk) (net.finish addr c) := by
              refine ⟨?_, ?_⟩
              · rw [Net.Enabled, abstracts.agrees.agent]
                exact enabled
              · rw [Net.exec, call, sent]
                rfl
            exact abstracts.step documented faithful enabled.1 reached stepped
          · cases returned
      | deliver index p draws junk =>
          rw [exec] at returned
          split at returned
          · rename_i c received
            cases returned
            obtain ⟨⟨sent, found, delivered⟩, isNode, uniform⟩ := enabled
            obtain ⟨ttl, same⟩ := faithful sent p delivered
            have ant : sent.cmn.ptype = ptAnt := by
              have ptype := ants p rfl
              rwa [same] at ptype
            obtain ⟨index', found', abstracts'⟩ := abstracts.remove found ant
            have stepped : (network sim medium.lossy params).step net
                (.deliver index' p draws junk) ((net.remove index').finish p.ip.daddr c) :=
              ⟨⟨⟨sent, found', delivered⟩, isNode, uniform⟩,
                Net.exec_deliver (by rw [call, received])⟩
            exact abstracts'.step documented faithful isNode reached stepped
          · cases returned
      | lose index =>
          cases returned
          obtain ⟨sent, found, _⟩ := enabled
          by_cases ant : sent.cmn.ptype = ptAnt
          · obtain ⟨index', found', abstracts'⟩ := abstracts.remove found ant
            have stepped : (network sim medium.lossy params).step net (.lose index')
                (net.remove index') := ⟨⟨sent, found', trivial⟩, rfl⟩
            exact ⟨_, _, .single stepped, abstracts', rfl⟩
          · refine ⟨[], net, .refl net, ⟨abstracts.agrees.withFlight _ _, ?_, abstracts.queues⟩, rfl⟩
            rw [abstracts.flight, transit_remove found,
              Multiset.filter_cons_of_neg (p := fun p : Packet K => p.cmn.ptype = ptAnt) _ ant]
  | queue node command =>
      obtain ⟨isNode, foreign⟩ := enabled
      obtain ⟨after, handled, rfl⟩ := Option.map_eq_some_iff.mp returned
      have accounted := abstracts.queues node
      have stepped : (managedQueue S base fun _ => True).step (state.ifq node) command after :=
        ⟨fun _ _ => trivial, handled⟩
      rcases accounted.step_cases stepped with ⟨p, rfl, rfl⟩ |
        ⟨settings, pq, ops, taken, _, passes, rfl⟩
      · obtain ⟨ops, passes⟩ := PriQueue.Passes.recv (documented (state.ifq node).params)
          (state.ifq node).interface.pq (accounted.distinct_arrival p)
        have arrived := PriQueue.insertion_perm (state.ifq node).params
          ((state.ifq node).interface.arrival p) (state.ifq node).interface.pq.q
        rw [← List.singleton_append] at arrived
        exact abstracts.pass isNode passes arrived
          (fun other latest => List.mem_singleton.mp latest ▸ foreign p rfl)
          (accounted.handle documented stepped)
      · have arrived : (state.ifq node).interface.pq.q.Perm
            ([] ++ (state.ifq node).interface.pq.q) := .refl _
        exact abstracts.pass isNode passes arrived (by simp) (accounted.handle documented stepped)

end QueuedNet

/-- Agents behind interface queues refine agents with a medium that loses ants. -/
def queuedRefinement (S : Type) (params : NsAddr → Params K)
    (documented : ∀ params, EnqueuesAndSends params (base params)) (faithful : medium.Faithful) :
    (queuedNetwork S sim medium params base).Refinement (network sim medium.lossy params)
      QueuedEvent.shown Event.shown where
  related := QueuedNet.Abstracts sim
  start state initial := by
    obtain ⟨quiet, empty⟩ := initial
    refine ⟨Net.initial params, rfl, ?_, ?_, fun node => .initial (empty node)⟩
    · rw [quiet]
      exact ⟨rfl, rfl, rfl, rfl⟩
    · have waiting := fun node => (empty node).2.1
      simp [QueuedNet.transit, quiet, Net.initial, waiting]
  step _ _ _ _ reached abstracts step := abstracts.follow documented faithful reached step

/-- Whatever the interface queues do, the agents go through the states of a run without
queues in which the medium loses ants: its ants in flight are those in the air and those
in the queues. -/
theorem queued_run_refines (documented : ∀ params, EnqueuesAndSends params (base params))
    (faithful : medium.Faithful) {first last : QueuedNet K}
    {trace : List (QueuedNet K × QueuedEvent K S)}
    (initial : (queuedNetwork S sim medium params base).init first)
    (run : (queuedNetwork S sim medium params base).Run first trace last) :
    ∃ trace' net, (network sim medium.lossy params).Run (Net.initial params) trace' net ∧
      TransitionSystem.observed Event.shown trace' =
        TransitionSystem.observed QueuedEvent.shown trace ∧
      net.SameButFlight last.net ∧ (net.flight : Multiset (Packet K)) =
        (last.transit sim).filter fun p => p.cmn.ptype = ptAnt := by
  obtain ⟨_, trace', net, rfl, run', abstracts, same⟩ :=
    (queuedRefinement S params documented faithful).run_of_init initial run
  exact ⟨trace', net, run', same, abstracts.agrees, abstracts.flight⟩

/-! ### Rows behind queues -/

/-- The agents see every start at most once, and before the ants that reach its agent. -/
def OrderlyShown (history : List (Shown K)) : Prop :=
  ∀ before shown after, history = before ++ shown :: after →
    (∀ node, shown = .start node → .start node ∉ before) ∧
      ∀ p draws junk, shown = .deliver p draws junk → .start p.ip.daddr ∈ before

omit [Field K] [LinearOrder K] in
theorem orderlyShown_concat_iff {history : List (Shown K)} {latest : Shown K} :
    OrderlyShown (history ++ [latest]) ↔ OrderlyShown history ∧
      (∀ node, latest = .start node → .start node ∉ history) ∧
      ∀ p draws junk, latest = .deliver p draws junk → .start p.ip.daddr ∈ history := by
  constructor
  · intro orderly
    refine ⟨?_, orderly history latest [] rfl⟩
    rintro before shown after rfl
    exact orderly before shown (after ++ [latest]) (by simp)
  · rintro ⟨orderly, now⟩ before shown after split
    rcases List.eq_nil_or_concat after with rfl | ⟨after, last, rfl⟩
    · obtain ⟨rfl, same⟩ := List.append_inj' split rfl
      cases same
      exact now
    · rw [List.concat_eq_append, ← List.cons_append, ← List.append_assoc] at split
      obtain ⟨rfl, _⟩ := List.append_inj' split rfl
      exact orderly before shown after rfl

omit [Field K] [LinearOrder K] in
theorem started_iff_shown {trace : List (Net K × Event K)} {node : NsAddr} :
    Started trace node ↔ .start node ∈ TransitionSystem.observed Event.shown trace := by
  rw [TransitionSystem.observed, List.mem_filterMap]
  constructor
  · rintro ⟨net, occurred⟩
    exact ⟨_, occurred, rfl⟩
  · rintro ⟨⟨net, event⟩, occurred, shown⟩
    cases event <;> cases shown
    exact ⟨net, occurred⟩

omit [Field K] [LinearOrder K] in
/-- Whether a run is orderly can be seen by the agents. -/
theorem orderlyShown_iff {trace : List (Net K × Event K)} :
    OrderlyShown (TransitionSystem.observed Event.shown trace) ↔ Orderly trace := by
  induction trace using List.reverseRecOn with
  | nil =>
      refine iff_of_true ?_ .nil
      intro before shown after split
      simp [TransitionSystem.observed] at split
  | append_singleton trace entry inductionHypothesis =>
      obtain ⟨net, event⟩ := entry
      rw [orderly_append_iff, ← inductionHypothesis, TransitionSystem.observed_append]
      cases event with
      | lose => simp [TransitionSystem.observed, Event.shown, Event.delivered]
      | tick | start | stop | timer | deliver =>
          refine orderlyShown_concat_iff.trans ?_
          simp [started_iff_shown, Event.delivered]

/-- The rows stay distributions whatever the interface queues do to the ants. -/
theorem queued_rows_stay_distributions [IsStrictOrderedRing K]
    (documented : ∀ params, EnqueuesAndSends params (base params)) (faithful : medium.Faithful)
    {r : K} (rate : 0 < r ∧ r < 1) {count : ℕ}
    (addresses : ∀ node, node ∈ sim.nodes ↔ 0 ≤ node ∧ node < count)
    (same : ∀ node, params node = ⟨r, count⟩)
    (distinct : ∀ node, (sim.neighborList node).Nodup)
    (connected : ∀ node ∈ sim.nodes, sim.neighborList node ≠ []) {first last : QueuedNet K}
    {trace : List (QueuedNet K × QueuedEvent K S)}
    (initial : (queuedNetwork S sim medium params base).init first)
    (run : (queuedNetwork S sim medium params base).Run first trace last)
    (orderly : OrderlyShown (TransitionSystem.observed QueuedEvent.shown trace))
    {node dest : NsAddr} {row : PheromoneMatrix K}
    (known : (last.net.agent node).rtable dest = some row) : DistributionRow sim node row := by
  obtain ⟨_, trace', net, rfl, run', abstracts, shown⟩ :=
    (queuedRefinement S params documented faithful).run_of_init initial run
  rw [← shown] at orderly
  have created : ∀ node, 0 ≤ (params node).rFactor ∧ (params node).rFactor < 1 ∧
      (params node).numNodes = count := fun node => by
    rw [same node]
    exact ⟨rate.1.le, rate.2, rfl⟩
  have distributed := (orderlyShown_iff.mp orderly).distributed faithful.lossy created distinct connected
    (fun node isNode => by
      exact ((addresses node).mp isNode).1.trans_lt ((addresses node).mp isNode).2) run'
  refine distributed.routed.rows node dest row ?_
  rw [abstracts.agrees.agent]
  exact known

end Refinement

/-! ### An ant that waits -/

section Follow

variable [Field K] [LinearOrder K]

/-- The packet that a command lets arrive. -/
def QueueCommand.arriving : QueueCommand K S → Option (Packet K)
  | .queue (.arrive p) => some p
  | _ => none

omit [Field K] [LinearOrder K] in
theorem QueueCommand.arriving_eq_some_iff {command : QueueCommand K S} {p : Packet K} :
    command.arriving = some p ↔ command = .queue (.arrive p) := by
  rcases command with (_ | _) | _ | _ | _ | _ | _ <;> simp [arriving]

instance (sim : Sim) (medium : Medium K) [∀ sent p, Decidable (medium.delivers sent p)]
    [∀ sent, Decidable (medium.loses sent)] (state : QueuedNet K) :
    ∀ event : QueuedEvent K S, Decidable (state.Enabled sim medium event)
  | .agent event => inferInstanceAs (Decidable
      (state.net.Enabled sim medium event ∧ ∀ p ∈ event.delivered, p.cmn.ptype = ptAnt))
  | .queue node command => decidable_of_iff
      (node ∈ sim.nodes ∧ ∀ p ∈ command.arriving, p.cmn.ptype ≠ ptAnt)
      (and_congr_right fun _ => forall_congr' fun _ =>
        imp_congr_left QueueCommand.arriving_eq_some_iff)

/-- The network with its queues after an event that may happen. -/
def QueuedNet.next (sim : Sim) (medium : Medium K) [∀ sent p, Decidable (medium.delivers sent p)]
    [∀ sent, Decidable (medium.loses sent)]
    (base : QueueParams → PriQueue K → Arrival K → PriQueue K) (state : QueuedNet K)
    (event : QueuedEvent K S) : Option (QueuedNet K) :=
  if state.Enabled sim medium event then state.exec base sim event else none

theorem QueuedNet.run_of_follow {sim : Sim} {medium : Medium K}
    [∀ sent p, Decidable (medium.delivers sent p)] [∀ sent, Decidable (medium.loses sent)]
    {base : QueueParams → PriQueue K → Arrival K → PriQueue K} (params : NsAddr → Params K)
    {first last : QueuedNet K} {trace : List (QueuedNet K × QueuedEvent K S)}
    {schedule : List (QueuedNet K → Option (QueuedEvent K S))}
    (followed : TransitionSystem.follow (next sim medium base) first schedule =
      some (trace, last)) :
    (queuedNetwork S sim medium params base).Run first trace last := by
  refine (TransitionSystem.run_of_follow (fun _ => True) ?_ trivial followed).1
  intro state event state' _ computed
  unfold next at computed
  split at computed
  next enabled => exact ⟨⟨enabled, computed⟩, trivial⟩
  next => cases computed

/-- The steps of the agents. -/
def agentSteps (trace : List (QueuedNet K × QueuedEvent K S)) : List (Net K × Event K) :=
  trace.filterMap fun
    | (state, .agent event) => some (state.net, event)
    | (_, .queue _ _) => none

omit [Field K] [LinearOrder K] in
theorem observed_agentSteps (trace : List (QueuedNet K × QueuedEvent K S)) :
    TransitionSystem.observed Event.shown (agentSteps trace) =
      TransitionSystem.observed QueuedEvent.shown trace := by
  rw [TransitionSystem.observed, agentSteps, List.filterMap_filterMap]
  apply List.filterMap_congr
  rintro ⟨state, _ | _⟩ _ <;> rfl

end Follow

/-- Nodes with blocked queues, which enqueue and send as documented. -/
def QueuedNet.blocked (params : NsAddr → Params ℚ) : QueuedNet ℚ where
  net := Net.initial params
  ifq _ := ⟨⟨1, 50, false, 1000, false⟩, ⟨⟨true, [], []⟩, []⟩, []⟩

def enqueAndSend (params : QueueParams) (pq : PriQueue ℚ) (p : Arrival ℚ) : PriQueue ℚ :=
  (pq.enque params p).sendUnblocked

theorem enqueAndSend_documented (params : QueueParams) :
    EnqueuesAndSends params (enqueAndSend params) := fun _ _ => rfl

theorem QueuedNet.blocked_init {sim : Sim} {medium : Medium ℚ} (params : NsAddr → Params ℚ) :
    (queuedNetwork Unit sim medium params enqueAndSend).init (blocked params) :=
  ⟨rfl, fun _ => ⟨trivial, rfl, rfl, rfl, rfl⟩⟩

/-- The ant of the middle of three nodes waits in its queue. -/
def sentAndWaiting : List (QueuedNet ℚ → Option (QueuedEvent ℚ Unit)) :=
  [fun _ => some (.agent (.start 0)), fun _ => some (.agent (.start 1)),
    fun _ => some (.agent (.start 2)), fun _ => some (.agent (.timer 1 [0] [0] 0))]

/-- It is sent to the left, and waits there once more before it comes back. -/
def waitingAndBack : List (QueuedNet ℚ → Option (QueuedEvent ℚ Unit)) :=
  sentAndWaiting ++
    [fun _ => some (.queue 1 (.queue (.dequeue false))),
      fun state => (deliverAs 0 id [] 0 state.net).map .agent,
      fun _ => some (.queue 0 (.queue (.dequeue false))),
      fun state => (deliverAs 0 id [] 0 state.net).map .agent]

/-- The run without queues has the ant that waits in flight. -/
theorem queued_run_refines_waiting :
    let sim := Sim.line 3 16
    let params : NsAddr → Params ℚ := fun _ => ⟨1 / 2, 3⟩
    ∃ (last : QueuedNet ℚ) (trace' : List (Net ℚ × Event ℚ)) (net : Net ℚ),
      (network sim (Medium.perfect ℚ).lossy params).Run (Net.initial params) trace' net ∧
        last.net.flight = [] ∧ net.flight.length = 1 := by
  intro sim params
  have observed : (TransitionSystem.follow (QueuedNet.next sim (.perfect ℚ) enqueAndSend)
      (QueuedNet.blocked params) sentAndWaiting).map (fun outcome =>
        (outcome.2.net.flight,
          ((outcome.2.transit sim).filter fun p => p.cmn.ptype = ptAnt).card)) =
        some ([], 1) := by
    decide +kernel
  obtain ⟨⟨trace, last⟩, followed, shape⟩ := Option.map_eq_some_iff.mp observed
  obtain ⟨quiet, waiting⟩ := Prod.mk.inj shape
  obtain ⟨trace', net, run, _, _, flight⟩ :=
    queued_run_refines enqueAndSend_documented (Medium.perfect_faithful ℚ)
      (QueuedNet.blocked_init params) (QueuedNet.run_of_follow params followed)
  refine ⟨last, trace', net, run, quiet, ?_⟩
  rw [← Multiset.coe_card, flight, waiting]

/-- The row that the ant has updated. -/
theorem queued_rows_stay_distributions_blocked :
    let sim := Sim.line 3 16
    let params : NsAddr → Params ℚ := fun _ => ⟨1 / 2, 3⟩
    ∃ trace last, TransitionSystem.follow (QueuedNet.next sim (.perfect ℚ) enqueAndSend)
        (QueuedNet.blocked params) waitingAndBack = some (trace, last) ∧
      (last.net.agent 1).rtable 0 = some [⟨0, 3 / 4⟩, ⟨2, 1 / 4⟩] ∧
        DistributionRow sim 1 ([⟨0, 3 / 4⟩, ⟨2, 1 / 4⟩] : PheromoneMatrix ℚ) := by
  intro sim params
  have observed : (TransitionSystem.follow (QueuedNet.next sim (.perfect ℚ) enqueAndSend)
      (QueuedNet.blocked params) waitingAndBack).map (fun outcome =>
        (decide (Orderly (agentSteps outcome.1)), (outcome.2.net.agent 1).rtable 0)) =
        some (true, some [⟨0, 3 / 4⟩, ⟨2, 1 / 4⟩]) := by
    decide +kernel
  obtain ⟨⟨trace, last⟩, followed, facts⟩ := Option.map_eq_some_iff.mp observed
  simp only [Prod.mk.injEq, decide_eq_true_eq] at facts
  obtain ⟨orderly, known⟩ := facts
  refine ⟨trace, last, followed, known, ?_⟩
  refine queued_rows_stay_distributions enqueAndSend_documented (Medium.perfect_faithful ℚ)
    (r := 1 / 2) (by norm_num) (fun _ => Sim.mem_line) (fun _ => rfl) Sim.nodup_line
    (fun node _ => Sim.line_connected (by decide) node) (QueuedNet.blocked_init params)
    (QueuedNet.run_of_follow params followed) ?_ known
  rw [← observed_agentSteps]
  exact orderlyShown_iff.mpr orderly

end AntAodv
