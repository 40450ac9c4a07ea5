import AntAodv.Agent
import AntAodv.Library.Transition

/-!
# A network of agents

The agents of all nodes, the process-wide variables and the ants in flight, with
the events that change them: commands, timer expiries, deliveries and losses, in
any order.
-/

namespace AntAodv

/-- The parameters of an agent that are set from Tcl. -/
structure Params (K : Type) where
  rFactor : K
  numNodes : ℤ

/-- What the links do to a packet: the forms in which they may deliver it, and
whether they may lose it. -/
structure Medium (K : Type) where
  delivers : Packet K → Packet K → Prop
  loses : Packet K → Prop

structure Net (K : Type) where
  clock : K
  globals : Globals K
  agent : NsAddr → Antnet K
  /-- The packets handed to a target and neither delivered nor lost yet. -/
  flight : List (Packet K)
  uidcnt : ℕ

inductive Event (K : Type) where
  | tick (time : K)
  | start (addr : NsAddr)
  | stop (addr : NsAddr)
  /-- The ant timer of an agent expires. -/
  | timer (addr : NsAddr) (raws : List ℕ) (draws : List K) (junk : NsAddr)
  /-- The packet at a position in flight is delivered as `p` to the agent at
  `ih->daddr`. -/
  | deliver (index : ℕ) (p : Packet K) (draws : List K) (junk : NsAddr)
  | lose (index : ℕ)
  deriving DecidableEq

/-- The packets handed to a target. -/
def handed {K : Type} (log : List (Op K)) : List (Packet K) :=
  log.filterMap fun
    | .handed p => some p
    | _ => none

namespace Net

variable {K : Type}

/-- A call at the agent of `addr`. -/
def call (net : Net K) (addr : NsAddr) (held : Option (Packet K)) (raws : List ℕ)
    (draws : List K) (junk : NsAddr) : Call K where
  agent := net.agent addr
  globals := net.globals
  now := net.clock
  uidcnt := net.uidcnt
  raws := raws
  draws := draws
  junk := junk
  held := held
  log := []

/-- The network after a call at `addr` has returned. -/
def finish (net : Net K) (addr : NsAddr) (c : Call K) : Net K where
  clock := net.clock
  globals := c.globals
  agent := Function.update net.agent addr c.agent
  flight := net.flight ++ handed c.log
  uidcnt := c.uidcnt

/-- The network without the packet at `index`. -/
def remove (net : Net K) (index : ℕ) : Net K :=
  { net with flight := net.flight.eraseIdx index }

/-- The network before any event. -/
def initial [Zero K] (params : NsAddr → Params K) : Net K where
  clock := 0
  globals := ⟨0, 0, 0⟩
  agent addr := ⟨addr, fun _ => none, 0, (params addr).rFactor, (params addr).numNodes, false⟩
  flight := []
  uidcnt := 0

variable [Arithmetic K] [LinearOrder K]

/-- The call an event makes at an agent for an ant. -/
def invoke (sim : Sim) (net : Net K) : Event K → Option (Except (Failure K) (Call K))
  | .timer addr raws draws junk =>
      some ((net.call addr none raws draws junk).sendAntPkt sim)
  | .deliver _ p draws junk =>
      some ((net.call p.ip.daddr (some p) [] draws junk).recv sim)
  | _ => none

/-- The operations of that call, up to the point where it fails. -/
def ops (sim : Sim) (net : Net K) (event : Event K) : List (Op K) :=
  match net.invoke sim event with
  | some (.ok c) => c.log
  | some (.error failure) => failure.log
  | none => []

def exec (sim : Sim) (net : Net K) : Event K → Except (Failure K) (Net K)
  | .tick time => .ok { net with clock := time }
  | .start addr => .ok (net.finish addr ((net.call addr none [] [] 0).start sim))
  | .stop addr => .ok (net.finish addr (net.call addr none [] [] 0).stop)
  | .timer addr raws draws junk => do
      let c ← (net.call addr none raws draws junk).sendAntPkt sim
      .ok (net.finish addr c)
  | .deliver index p draws junk => do
      let c ← (net.call p.ip.daddr (some p) [] draws junk).recv sim
      .ok ((net.remove index).finish p.ip.daddr c)
  | .lose index => .ok (net.remove index)

theorem exec_deliver {sim : Sim} {net : Net K} {index : ℕ} {p : Packet K} {draws : List K}
    {junk : NsAddr} {c : Call K}
    (received : (net.call p.ip.daddr (some p) [] draws junk).recv sim = .ok c) :
    net.exec sim (.deliver index p draws junk) = .ok ((net.remove index).finish p.ip.daddr c) := by
  rw [exec, received]
  rfl

/-- Results of `uniform(1.0)` lie in `[0, 1)`. -/
def Uniform (draws : List K) : Prop := ∀ draw ∈ draws, 0 ≤ draw ∧ draw < 1

/-- When an event may happen. -/
def Enabled (sim : Sim) (medium : Medium K) (net : Net K) : Event K → Prop
  | .tick time => net.clock ≤ time
  | .start addr => addr ∈ sim.nodes
  | .stop addr => addr ∈ sim.nodes
  | .timer addr _ draws _ =>
      addr ∈ sim.nodes ∧ (net.agent addr).timerPending = true ∧ Uniform draws
  | .deliver index p draws _ =>
      (∃ sent, net.flight[index]? = some sent ∧ medium.delivers sent p) ∧
        p.ip.daddr ∈ sim.nodes ∧ Uniform draws
  | .lose index => ∃ sent, net.flight[index]? = some sent ∧ medium.loses sent

end Net

/-- The runs of the network. -/
def network {K : Type} [Arithmetic K] [LinearOrder K] (sim : Sim) (medium : Medium K)
    (params : NsAddr → Params K) : TransitionSystem (Net K) (Event K) where
  init net := net = Net.initial params
  step net event net' := net.Enabled sim medium event ∧ net.exec sim event = .ok net'

/-! ### Schedules -/

section Schedule

/-- A medium that delivers every packet as it was sent. -/
def Medium.perfect (K : Type) : Medium K := ⟨fun sent p => p = sent, fun _ => False⟩

instance {K : Type} [DecidableEq K] (sent p : Packet K) :
    Decidable ((Medium.perfect K).delivers sent p) :=
  inferInstanceAs (Decidable (p = sent))

instance {K : Type} (sent : Packet K) : Decidable ((Medium.perfect K).loses sent) :=
  inferInstanceAs (Decidable False)

variable {K : Type} [Arithmetic K] [LinearOrder K]

instance (draws : List K) : Decidable (Net.Uniform draws) :=
  inferInstanceAs (Decidable (∀ draw ∈ draws, 0 ≤ draw ∧ draw < 1))

instance (sim : Sim) (medium : Medium K) [∀ sent p, Decidable (medium.delivers sent p)]
    [∀ sent, Decidable (medium.loses sent)] (net : Net K) :
    ∀ event, Decidable (net.Enabled sim medium event)
  | .tick time => inferInstanceAs (Decidable (net.clock ≤ time))
  | .start addr => inferInstanceAs (Decidable (addr ∈ sim.nodes))
  | .stop addr => inferInstanceAs (Decidable (addr ∈ sim.nodes))
  | .timer addr _ draws _ => inferInstanceAs (Decidable
      (addr ∈ sim.nodes ∧ (net.agent addr).timerPending = true ∧ Net.Uniform draws))
  | .deliver index p draws _ => inferInstanceAs (Decidable
      ((∃ sent, net.flight[index]? = some sent ∧ medium.delivers sent p) ∧
        p.ip.daddr ∈ sim.nodes ∧ Net.Uniform draws))
  | .lose index => inferInstanceAs (Decidable
      (∃ sent, net.flight[index]? = some sent ∧ medium.loses sent))

/-- Choose the delivery of the packet at `index`, in the form `change` gives it. -/
def deliverAs (index : ℕ) (change : Packet K → Packet K) (draws : List K) (junk : NsAddr)
    (net : Net K) : Option (Event K) :=
  net.flight[index]?.map fun sent => .deliver index (change sent) draws junk

section Follow

variable (sim : Sim) (medium : Medium K) [∀ sent p, Decidable (medium.delivers sent p)]
  [∀ sent, Decidable (medium.loses sent)]

/-- The network after an event that may happen. -/
def Net.next (net : Net K) (event : Event K) : Option (Net K) :=
  if net.Enabled sim medium event then (net.exec sim event).toOption else none

/-- Follow a schedule, each of whose choices may depend on the state. -/
def Net.follow (net : Net K) (schedule : List (Net K → Option (Event K))) :
    Option (List (Net K × Event K) × Net K) :=
  TransitionSystem.follow (Net.next sim medium) net schedule

variable {sim medium}

theorem Net.step_of_next (params : NsAddr → Params K) {net net' : Net K} {event : Event K}
    (computed : net.next sim medium event = some net') :
    (network sim medium params).step net event net' := by
  unfold next at computed
  split at computed
  next enabled =>
    cases returned : net.exec sim event with
    | error failure =>
        rw [returned] at computed
        cases computed
    | ok after =>
        rw [returned] at computed
        cases computed
        exact ⟨enabled, returned⟩
  next => cases computed

theorem Net.run_of_follow {net last : Net K} {trace : List (Net K × Event K)}
    {schedule : List (Net K → Option (Event K))} (params : NsAddr → Params K)
    (followed : net.follow sim medium schedule = some (trace, last)) :
    (network sim medium params).Run net trace last :=
  (TransitionSystem.run_of_follow (fun _ => True)
    (fun _ _ _ _ computed => ⟨Net.step_of_next params computed, trivial⟩) trivial followed).1

/-- What is computed from a followed schedule is so after a run. -/
theorem Net.exists_run_of_follow {net : Net K} {schedule : List (Net K → Option (Event K))}
    {Observation : Type*} {observe : List (Net K × Event K) × Net K → Observation}
    {value : Observation} (params : NsAddr → Params K)
    (observed : (net.follow sim medium schedule).map observe = some value) :
    ∃ trace last, (network sim medium params).Run net trace last ∧
      observe (trace, last) = value := by
  obtain ⟨⟨trace, last⟩, followed, same⟩ := Option.map_eq_some_iff.mp observed
  exact ⟨trace, last, Net.run_of_follow params followed, same⟩

end Follow

end Schedule

end AntAodv
