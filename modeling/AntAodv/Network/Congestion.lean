import AntAodv.Network
import AntAodv.Rtable.NextHop

/-!
# Congestion

`calc_next` reads the lengths of the queues on all links of its node and makes
`thisprob` of them, but no ant takes another way because of a queue.
-/

namespace AntAodv

variable {K : Type}

/-- The same surroundings with other queues. -/
def Sim.withQueues (sim : Sim) (queueLength : NsAddr → NsAddr → ℕ) : Sim :=
  { sim with queueLength := queueLength }

variable [Arithmetic K] [LinearOrder K] {sim : Sim} {queues : NsAddr → NsAddr → ℕ}

theorem Rtable.calcDestination_withQueues (numNodes : ℤ) (source : NsAddr) (raws : List ℕ) :
    calcDestination (sim.withQueues queues) numNodes source raws =
      calcDestination sim numNodes source raws := by
  induction raws with
  | nil => rfl
  | cons raw raws inductionHypothesis =>
      rw [calcDestination, calcDestination, inductionHypothesis]
      rfl

namespace Call

variable (c : Call K)

theorem calcNext_withQueues (dest parent : NsAddr) :
    c.calcNext (sim.withQueues queues) dest parent = c.calcNext sim dest parent := by
  rw [calcNext, calcNext, Rtable.calcNext_blind (sim.withQueues queues) sim _ c.globals.n]

theorem sendAntPkt_withQueues : c.sendAntPkt (sim.withQueues queues) = c.sendAntPkt sim := by
  have allocated : c.allocpkt (sim.withQueues queues) = c.allocpkt sim := rfl
  simp only [sendAntPkt, allocated, Rtable.calcDestination_withQueues, calcNext_withQueues]
  rfl

theorem forwardAntPkt_withQueues :
    c.forwardAntPkt (sim.withQueues queues) = c.forwardAntPkt sim := by
  simp only [forwardAntPkt, calcNext_withQueues]

theorem recv_withQueues : c.recv (sim.withQueues queues) = c.recv sim := by
  simp only [recv, recvAntPkt, forwardAntPkt_withQueues]
  rfl

end Call

/-- The runs of the network with queues whose lengths may change between any two steps. -/
def congestedNetwork (sim : Sim) (medium : Medium K) (params : NsAddr → Params K) :
    TransitionSystem (Net K) (Event K) where
  init net := net = Net.initial params
  step net event net' := net.Enabled sim medium event ∧
    ∃ queues, net.exec (sim.withQueues queues) event = .ok net'

theorem Net.exec_withQueues (net : Net K) (event : Event K) :
    net.exec (sim.withQueues queues) event = net.exec sim event := by
  cases event with
  | tick | stop | lose | start => rfl
  | timer => rw [exec, exec, Call.sendAntPkt_withQueues]
  | deliver => rw [exec, exec, Call.recv_withQueues]

/-- Whatever the lengths of the queues are, and however they change in a run, the agents
take the same steps as with any other queues. -/
theorem queues_change_nothing (sim : Sim) (medium : Medium K) (params : NsAddr → Params K)
    (queues : NsAddr → NsAddr → ℕ) :
    congestedNetwork sim medium params = network (sim.withQueues queues) medium params := by
  have steps : (congestedNetwork sim medium params).step =
      (network (sim.withQueues queues) medium params).step := by
    funext net event net'
    refine propext (and_congr ?_ ?_)
    · cases event <;> rfl
    · simp only [Net.exec_withQueues, exists_const]
  rw [congestedNetwork, network, TransitionSystem.mk.injEq]
  exact ⟨rfl, steps⟩

end AntAodv
