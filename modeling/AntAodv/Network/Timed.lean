import AntAodv.Library.Refinement
import AntAodv.Network.Identity
import Mathlib.Tactic.Linarith
import Mathlib.Tactic.Ring

/-!
# The ant timers

The network with the time at which the ant timer of each agent is due.  The clock does
not pass a pending timer, and a timer expires at no other time; its expiry sends an ant
and puts it off by `timer_ant_`.
-/

namespace AntAodv

variable {K : Type}

structure TimedNet (K : Type) where
  net : Net K
  /-- When the `ant_timer_` of an agent is due, if it is pending. -/
  due : NsAddr → Option K

/-- The times at which the timer of `node` expires in a run. -/
def expiries (node : NsAddr) (trace : List (TimedNet K × Event K)) : List K :=
  trace.filterMap fun entry =>
    if entry.2.sender = some node then some entry.1.net.clock else none

/-- The packets that operations give away. -/
def disposed (log : List (Op K)) : List (Packet K) :=
  log.filterMap fun
    | .handed p => some p
    | .freed p => some p
    | .dropped p => some p
    | _ => none

/-- The ants that the agent of `node` makes in a run, in order. -/
def antsMade [Field K] [LinearOrder K] (sim : Sim) (node : NsAddr)
    (trace : List (TimedNet K × Event K)) : List (Packet K) :=
  trace.flatMap fun entry =>
    if entry.2.sender = some node then disposed (entry.1.net.ops sim entry.2) else []

/-- The run of the agents alone. -/
def untimed (trace : List (TimedNet K × Event K)) : List (Net K × Event K) :=
  trace.map fun entry => (entry.1.net, entry.2)

namespace TimedNet

section Add

variable [Field K]

/-- The timers after `ant_timer_.resched(delay)` at `addr`. -/
def resched (state : TimedNet K) (addr : NsAddr) (delay : K) : NsAddr → Option K :=
  Function.update state.due addr (some (state.net.clock + delay))

/-- The timers after an event. -/
def timers (interval : NsAddr → K) (state : TimedNet K) : Event K → NsAddr → Option K
  | .tick _ => state.due
  | .start addr => state.resched addr 0
  | .stop addr => Function.update state.due addr none
  -- `expire` sends an ant and calls `reset_ant_timer`
  | .timer addr _ _ _ => state.resched addr (interval addr)
  | .deliver _ _ _ _ => state.due
  | .lose _ => state.due

end Add

/-- The time does not pass a pending timer, a timer expires when it is due, and only a
pending one can be cancelled. -/
def Punctual [LE K] (state : TimedNet K) : Event K → Prop
  | .tick time => ∀ node expiry, state.due node = some expiry → time ≤ expiry
  | .stop addr => state.due addr ≠ none
  | .timer addr _ _ _ => state.due addr = some state.net.clock
  | .start _ => True
  | .deliver _ _ _ _ => True
  | .lose _ => True

end TimedNet

variable [Field K] [LinearOrder K]

/-- The runs of the network with its timers, none of them pending at first. -/
def timedNetwork (sim : Sim) (medium : Medium K) (params : NsAddr → Params K)
    (interval : NsAddr → K) : TransitionSystem (TimedNet K) (Event K) where
  init state := state = ⟨Net.initial params, fun _ => none⟩
  step state event state' :=
    state.net.Enabled sim medium event ∧ state.Punctual event ∧
      state.net.exec sim event = .ok state'.net ∧ state'.due = state.timers interval event

variable {sim : Sim} {medium : Medium K} {params : NsAddr → Params K} {interval : NsAddr → K}
  {first last state state' : TimedNet K} {event : Event K} {node : NsAddr}
  {trace : List (TimedNet K × Event K)}

/-- The run of the agents alone is a run of the network. -/
theorem untimed_run (run : (timedNetwork sim medium params interval).Run first trace last) :
    (network sim medium params).Run first.net (untimed trace) last.net := by
  induction run with
  | refl => exact .refl _
  | @snoc middle last trace event _ stepped inductionHypothesis =>
      have step : (network sim medium params).step middle.net event last.net :=
        ⟨stepped.1, stepped.2.2.1⟩
      rw [untimed, List.map_append]
      exact .snoc inductionHypothesis step

theorem Medium.Faithful.timed (faithful : medium.Faithful)
    (run : (timedNetwork sim medium params interval).Run
      ⟨Net.initial params, fun _ => none⟩ trace last) :
    last.net.WellFormed sim ∧ Numbered sim (untimed trace) last.net :=
  faithful.numbered (untimed_run run)

/-- A step at another agent, or one that does not concern the timer, leaves the timer. -/
theorem due_cases (stepped : (timedNetwork sim medium params interval).step state event state')
    (start : event ≠ .start node) (stop : event ≠ .stop node) :
    event.sender = some node ∧ state.due node = some state.net.clock ∧
        state'.due node = some (state.net.clock + interval node) ∨
      event.sender ≠ some node ∧ state'.due node = state.due node := by
  obtain ⟨_, punctual, _, due⟩ := stepped
  rw [due]
  cases event with
  | tick | deliver | lose => exact .inr ⟨nofun, rfl⟩
  | start addr =>
      have other : node ≠ addr := fun same => start (by rw [same])
      exact .inr ⟨nofun, Function.update_of_ne other _ _⟩
  | stop addr =>
      have other : node ≠ addr := fun same => stop (by rw [same])
      exact .inr ⟨nofun, Function.update_of_ne other _ _⟩
  | timer addr raws draws junk =>
      by_cases own : addr = node
      · subst own
        exact .inl ⟨rfl, punctual, Function.update_self _ _ _⟩
      · have other : node ≠ addr := Ne.symm own
        refine .inr ⟨fun same => own (Option.some.inj same), Function.update_of_ne other _ _⟩

theorem Net.Stepped.clock {net net' : Net K} (stepped : net.Stepped sim event net') :
    net'.clock = net.clock ∨ event = .tick net'.clock := by
  cases stepped with
  | tick time => exact .inr rfl
  | _ => exact .inl rfl

/-- Every step but a command leaves it as it is whether a timer is pending. -/
theorem Net.Stepped.timerPending {net net' : Net K} (stepped : net.Stepped sim event net')
    (start : event ≠ .start node) (stop : event ≠ .stop node) :
    (net'.agent node).timerPending = (net.agent node).timerPending := by
  have finished := fun {after : Net K} {addr : NsAddr} {c : Call K}
      (kept : after.agent = net.agent) (same : node = addr →
        c.agent.timerPending = (net.agent node).timerPending) =>
    @Net.forall_finish K after (fun other agent => other = node →
      agent.timerPending = (net.agent node).timerPending) addr c
      (fun other here => by rw [kept, here]) (fun here => same here.symm) node rfl
  cases stepped with
  | tick | lose => rfl
  | start addr => exact finished rfl fun same => absurd (by rw [same]) start
  | stop addr => exact finished rfl fun same => absurd (by rw [same]) stop
  | timer _ _ emitted =>
      refine finished rfl fun same => ?_
      subst same
      cases emitted <;> rfl
  | deliver _ _ _ received =>
      refine finished rfl fun same => ?_
      subst same
      cases received <;> rfl

/-- Between two commands to an agent: its timer has expired at the times of `expired`, the
first of them at `first` and each `interval` after the one before. -/
structure Periodic (node : NsAddr) (first interval : K) (expired : List K)
    (state : TimedNet K) : Prop where
  times : expired = (List.range expired.length).map fun i : ℕ => first + i * interval
  due : state.due node = some (first + expired.length * interval)
  flag : (state.net.agent node).timerPending = true
  ahead : state.net.clock ≤ first + expired.length * interval
  behind : ∀ time ∈ first :: expired, time ≤ state.net.clock

/-- No timer of `node` is pending. -/
structure Silent (node : NsAddr) (expired : List K) (state : TimedNet K) : Prop where
  times : expired = []
  due : state.due node = none
  flag : (state.net.agent node).timerPending = false

omit [Field K] [LinearOrder K] in
theorem expiries_append (node : NsAddr) (early late : List (TimedNet K × Event K)) :
    expiries node (early ++ late) = expiries node early ++ expiries node late :=
  List.filterMap_append

section Step

variable {time : K} {expired : List K}

theorem Periodic.step [IsStrictOrderedRing K]
    (periodic : Periodic node time (interval node) expired state)
    (nonneg : 0 ≤ interval node)
    (stepped : (timedNetwork sim medium params interval).step state event state')
    (outcome : state.net.Stepped sim event state'.net)
    (start : event ≠ .start node) (stop : event ≠ .stop node) :
    Periodic node time (interval node) (expired ++ expiries node [(state, event)]) state' := by
  have flag := (outcome.timerPending start stop).trans periodic.flag
  have due := periodic.due
  rcases due_cases stepped start stop with ⟨sender, now, next⟩ | ⟨sender, kept⟩
  · have clock : state'.net.clock = state.net.clock := by
      rcases outcome.clock with same | rfl
      · exact same
      · cases sender
    have latest : expiries node [(state, event)] = [state.net.clock] := by
      simp [expiries, sender]
    rw [now, Option.some.injEq] at due
    have put : time + (expired.length + 1 : ℕ) * interval node =
        state.net.clock + interval node := by
      rw [due]
      push_cast
      ring
    rw [latest]
    refine ⟨?_, ?_, flag, ?_, ?_⟩
    · rw [List.length_append, List.length_singleton, List.range_succ, List.map_append,
        ← periodic.times, due]
      rfl
    · rw [next, List.length_append, List.length_singleton, put]
    · rw [List.length_append, List.length_singleton, put, clock]
      exact le_add_of_nonneg_right nonneg
    · intro earlier membership
      rw [← List.cons_append, List.mem_append, List.mem_singleton] at membership
      rw [clock]
      rcases membership with before | rfl
      · exact periodic.behind earlier before
      · exact le_rfl
  · have quiet : expiries node [(state, event)] = [] := by
      simp [expiries, sender]
    rw [quiet, List.append_nil]
    refine ⟨periodic.times, kept.trans due, flag, ?_, fun earlier membership => ?_⟩
    · rcases outcome.clock with same | rfl
      · rw [same]
        exact periodic.ahead
      · exact stepped.2.1 node _ due
    · refine (periodic.behind earlier membership).trans ?_
      rcases outcome.clock with same | rfl
      · rw [same]
      · exact stepped.1

theorem Silent.step (silent : Silent node expired state)
    (stepped : (timedNetwork sim medium params interval).step state event state')
    (outcome : state.net.Stepped sim event state'.net)
    (start : event ≠ .start node) (stop : event ≠ .stop node) :
    Silent node (expired ++ expiries node [(state, event)]) state' := by
  have flag := (outcome.timerPending start stop).trans silent.flag
  rcases due_cases stepped start stop with ⟨_, now, _⟩ | ⟨sender, kept⟩
  · rw [silent.due] at now
    cases now
  · have quiet : expiries node [(state, event)] = [] := by
      simp [expiries, sender]
    exact ⟨by rw [silent.times, quiet]; rfl, kept.trans silent.due, flag⟩

omit [LinearOrder K] in
theorem Silent.initial (node : NsAddr) :
    Silent node [] (⟨Net.initial params, fun _ => none⟩ : TimedNet K) := ⟨rfl, rfl, rfl⟩

theorem Periodic.start
    (stepped : (timedNetwork sim medium params interval).step state (.start node) state') :
    Periodic node state.net.clock (interval node) [] state' := by
  obtain ⟨_, _, returned, due⟩ := stepped
  have net := Except.ok.inj returned
  have now : state'.due node = some (state.net.clock + 0) := by
    rw [due]
    exact Function.update_self _ _ _
  have clock : state'.net.clock = state.net.clock := by
    rw [← net]
    rfl
  refine ⟨rfl, by simpa using now, ?_, by simp [clock], by simp [clock]⟩
  rw [← net]
  simp [Net.finish, Call.start]

theorem Silent.stop
    (stepped : (timedNetwork sim medium params interval).step state (.stop node) state') :
    Silent node [] state' := by
  obtain ⟨_, _, returned, due⟩ := stepped
  refine ⟨rfl, ?_, ?_⟩
  · rw [due]
    exact Function.update_self _ _ _
  · rw [← Except.ok.inj returned]
    simp [Net.finish, Call.stop]

/-- What the steps of a run without commands to `node` keep. -/
theorem kept_uncommanded {holds : List K → TimedNet K → Prop}
    (step : ∀ expired state event state', holds expired state →
      (timedNetwork sim medium params interval).step state event state' →
      state.net.Stepped sim event state'.net →
      event ≠ .start node → event ≠ .stop node →
      holds (expired ++ expiries node [(state, event)]) state')
    (faithful : medium.Faithful) {middle : TimedNet K} {after : List (TimedNet K × Event K)}
    (wellFormed : middle.net.WellFormed sim)
    (run : (timedNetwork sim medium params interval).Run middle after last)
    (uncommanded : ∀ entry ∈ after, entry.2 ≠ .start node ∧ entry.2 ≠ .stop node)
    (start : holds [] middle) : holds (expiries node after) last ∧ last.net.WellFormed sim := by
  induction run with
  | refl => exact ⟨start, wellFormed⟩
  | @snoc state last after event _ stepped inductionHypothesis =>
      obtain ⟨before, wellFormed'⟩ := inductionHypothesis
        fun entry earlier => uncommanded entry (List.mem_append_left _ earlier)
      obtain ⟨noStart, noStop⟩ := uncommanded _ (List.mem_append_right _ (List.mem_singleton_self _))
      have outcome := wellFormed'.stepped stepped.1 (faithful.unchanged stepped.1) stepped.2.2.1
      rw [expiries_append]
      exact ⟨step _ _ _ _ before stepped outcome noStart noStop, wellFormed'.step outcome⟩

theorem Periodic.of_run [IsStrictOrderedRing K] (faithful : medium.Faithful)
    (nonneg : 0 ≤ interval node) {early after : List (TimedNet K × Event K)} {started : TimedNet K}
    (run : (timedNetwork sim medium params interval).Run
      ⟨Net.initial params, fun _ => none⟩ (early ++ [(started, .start node)] ++ after) last)
    (uncommanded : ∀ entry ∈ after, entry.2 ≠ .start node ∧ entry.2 ≠ .stop node) :
    Periodic node started.net.clock (interval node) (expiries node after) last := by
  obtain ⟨middle, earlyRun, lateRun⟩ := run.split
  exact (kept_uncommanded (fun _ _ _ _ periodic stepped outcome =>
    Periodic.step periodic nonneg stepped outcome) faithful (faithful.timed earlyRun).1 lateRun
    uncommanded (.start earlyRun.of_snoc.2)).1

/-- After a start the timer of an agent expires at once and then at every interval until
the next command, however often and in whatever state it was started before; it never
expires before the first start, or between a stop and the next start. -/
theorem timer_periodic [IsStrictOrderedRing K] (faithful : medium.Faithful)
    (nonneg : 0 ≤ interval node) {before after : List (TimedNet K × Event K)}
    (run : (timedNetwork sim medium params interval).Run
      ⟨Net.initial params, fun _ => none⟩ (before ++ after) last)
    (uncommanded : ∀ entry ∈ after, entry.2 ≠ .start node ∧ entry.2 ≠ .stop node) :
    (∀ early started, before = early ++ [(started, .start node)] →
      Periodic node started.net.clock (interval node) (expiries node after) last) ∧
      ((before = [] ∨ ∃ early stopped, before = early ++ [(stopped, .stop node)]) →
        Silent node (expiries node after) last) := by
  constructor
  · rintro early started rfl
    exact .of_run faithful nonneg run uncommanded
  · intro off
    obtain ⟨middle, earlyRun, lateRun⟩ := run.split
    have silent : Silent node [] middle := by
      rcases off with rfl | ⟨early, stopped, rfl⟩
      · rw [earlyRun.of_nil]
        exact .initial node
      · exact .stop earlyRun.of_snoc.2
    exact (kept_uncommanded (fun _ _ _ _ silent stepped outcome =>
      Silent.step silent stepped outcome) faithful (faithful.timed earlyRun).1 lateRun
      uncommanded silent).1

/-! ### The ants of an agent -/

theorem antsMade_append (early late : List (TimedNet K × Event K)) :
    antsMade sim node (early ++ late) = antsMade sim node early ++ antsMade sim node late :=
  List.flatMap_append

omit [Field K] [LinearOrder K] in
theorem sentCount_untimed (node : NsAddr) (trace : List (TimedNet K × Event K)) :
    sentCount node (untimed trace) = (expiries node trace).length := by
  induction trace with
  | nil => rfl
  | cons entry trace inductionHypothesis =>
      have rest : sentCount node (untimed (entry :: trace)) =
          sentCount node [(entry.1.net, entry.2)] + sentCount node (untimed trace) :=
        sentCount_append node [_] (untimed trace)
      have rest' : expiries node (entry :: trace) = expiries node [entry] ++ expiries node trace :=
        expiries_append node [entry] trace
      rw [rest, rest', List.length_append, inductionHypothesis]
      by_cases sender : entry.2.sender = some node <;> simp [sentCount, expiries, sender]

/-- An expiry makes one ant, with the time and the next number of the agent. -/
theorem antsMade_timer {net' : Net K} (outcome : state.net.Stepped sim event net')
    (sender : event.sender = some node) :
    ∃ p, antsMade sim node [(state, event)] = [p] ∧ p.ant.pktStartTime = state.net.clock ∧
      p.ant.pktSeqNum = (state.net.agent node).antSeqNum := by
  cases outcome with
  | @timer addr raws draws junk c _ ops emitted =>
      cases sender
      cases emitted with
      | @freed dest =>
          refine ⟨(state.net.call node none raws draws junk).newAnt sim dest, ?_, rfl, rfl⟩
          simp [antsMade, Event.sender, ops, disposed, Net.call]
      | @handed dest next =>
          refine ⟨(state.net.call node none raws draws junk).sentAnt sim dest next, ?_, rfl, rfl⟩
          simp [antsMade, Event.sender, ops, disposed, Net.call]
  | _ => cases sender

/-- The ants of an agent carry the times of its expiries and are numbered in order. -/
theorem antsMade_of_run (faithful : medium.Faithful)
    (run : (timedNetwork sim medium params interval).Run
      ⟨Net.initial params, fun _ => none⟩ trace last) :
    (antsMade sim node trace).map (fun p => (p.ant.pktStartTime, p.ant.pktSeqNum)) =
      (expiries node trace).zipIdx.map fun entry => (entry.1, UInt8.ofNat entry.2) := by
  induction run with
  | refl => rfl
  | @snoc state last trace event run stepped inductionHypothesis =>
      obtain ⟨wellFormed, numbered⟩ := faithful.timed run
      have outcome := wellFormed.stepped stepped.1 (faithful.unchanged stepped.1) stepped.2.2.1
      rw [antsMade_append, expiries_append, List.map_append, inductionHypothesis,
        List.zipIdx_append, List.map_append]
      congr 1
      by_cases sender : event.sender = some node
      · obtain ⟨p, made, time, number⟩ := antsMade_timer outcome sender
        rw [made, List.map_singleton, time, number, numbered.counter node, sentCount_untimed]
        simp [expiries, sender]
      · simp [antsMade, expiries, sender]

section Started

variable [IsStrictOrderedRing K] {early after : List (TimedNet K × Event K)} {started : TimedNet K}

theorem antsMade_since_start (faithful : medium.Faithful) (nonneg : 0 ≤ interval node)
    (run : (timedNetwork sim medium params interval).Run
      ⟨Net.initial params, fun _ => none⟩ (early ++ (started, .start node) :: after) last)
    (uncommanded : ∀ entry ∈ after, entry.2 ≠ .start node ∧ entry.2 ≠ .stop node) :
    (antsMade sim node after).map (fun p => (p.ant.pktStartTime, p.ant.pktSeqNum)) =
      (List.range (expiries node after).length).map (fun i : ℕ =>
        (started.net.clock + i * interval node,
          UInt8.ofNat (sentCount node (untimed early) + i))) := by
  have periodic : Periodic node started.net.clock (interval node) (expiries node after) last := by
    rw [← List.singleton_append, ← List.append_assoc] at run
    exact .of_run faithful nonneg run uncommanded
  have listed : (antsMade sim node after).map (fun p => (p.ant.pktStartTime, p.ant.pktSeqNum)) =
      ((expiries node after).zipIdx (expiries node early).length).map fun entry =>
        (entry.1, UInt8.ofNat entry.2) := by
    obtain ⟨_, earlyRun, _⟩ := run.split
    have whole : (antsMade sim node _).map _ = _ := antsMade_of_run faithful run
    have before : (antsMade sim node early).map _ = _ := antsMade_of_run faithful earlyRun
    have quiet : expiries node [(started, Event.start node)] = [] := rfl
    have none : antsMade sim node [(started, Event.start node)] = [] := rfl
    rw [← List.singleton_append, antsMade_append, antsMade_append, none, expiries_append,
      expiries_append, quiet, List.nil_append, List.nil_append, List.map_append, before,
      List.zipIdx_append, List.map_append, Nat.zero_add] at whole
    exact List.append_cancel_left whole
  rw [listed, sentCount_untimed]
  refine List.ext_getElem (by simp) fun i inside _ => ?_
  have time := List.getElem_of_eq periodic.times (by simpa using inside)
  simp [time]

/-- From a start on an agent makes one ant at every interval until the next command; they
carry the numbers from that of its last ant before on, modulo 256, so that two of them with
the same number are at least 256 intervals apart. -/
theorem ants_numbered_periodically (faithful : medium.Faithful) (nonneg : 0 ≤ interval node)
    (run : (timedNetwork sim medium params interval).Run
      ⟨Net.initial params, fun _ => none⟩ (early ++ (started, .start node) :: after) last)
    (uncommanded : ∀ entry ∈ after, entry.2 ≠ .start node ∧ entry.2 ≠ .stop node) :
    (antsMade sim node after).map (fun p => (p.ant.pktStartTime, p.ant.pktSeqNum)) =
        (List.range (expiries node after).length).map (fun i : ℕ =>
          (started.net.clock + i * interval node,
            UInt8.ofNat (sentCount node (untimed early) + i))) ∧
      ∀ (i j : ℕ) (p q : Packet K), i < j → (antsMade sim node after)[i]? = some p →
        (antsMade sim node after)[j]? = some q → p.ant.pktSeqNum = q.ant.pktSeqNum →
        p.ant.pktStartTime + 256 * interval node ≤ q.ant.pktStartTime := by
  have numbers := antsMade_since_start faithful nonneg run uncommanded
  refine ⟨numbers, fun i j p q earlier found found' same => ?_⟩
  have entry : ∀ {i : ℕ} {p : Packet K}, (antsMade sim node after)[i]? = some p →
      p.ant.pktStartTime = started.net.clock + i * interval node ∧
        p.ant.pktSeqNum = UInt8.ofNat (sentCount node (untimed early) + i) := by
    intro i p found
    have image := congrArg (·[i]?) numbers
    simp only [List.getElem?_map, found, Option.map_some] at image
    obtain ⟨index, listed, values⟩ := Option.map_eq_some_iff.mp image.symm
    obtain ⟨_, rfl⟩ := List.getElem?_eq_some_iff.mp listed
    rw [List.getElem_range] at values
    exact (Prod.mk.inj values).imp Eq.symm Eq.symm
  obtain ⟨time, number⟩ := entry found
  obtain ⟨time', number'⟩ := entry found'
  rw [number, number', ofNat_eq_ofNat_iff] at same
  have apart : i + 256 ≤ j := by
    have congruent : (sentCount node (untimed early) + i) % 256 =
        (sentCount node (untimed early) + j) % 256 := same
    omega
  have spread : ((i + 256 : ℕ) : K) * interval node ≤ j * interval node :=
    mul_le_mul_of_nonneg_right (by exact_mod_cast apart) nonneg
  rw [time, time']
  push_cast at spread
  linarith

end Started

end Step

/-! ### Some expiries -/

section Follow

/-- Whether an event comes at its time, where no timer of other nodes than `nodes` is pending. -/
def TimedNet.onTime (nodes : Finset NsAddr) (state : TimedNet K) : Event K → Bool
  | .tick time => decide (∀ node ∈ nodes, ∀ expiry ∈ state.due node, time ≤ expiry)
  | .stop addr => (state.due addr).isSome
  | .timer addr _ _ _ => decide (state.due addr = some state.net.clock)
  | .start _ => true
  | .deliver _ _ _ _ => true
  | .lose _ => true

/-- The network with its timers after an event that may happen. -/
def TimedNet.next (sim : Sim) (medium : Medium K) [∀ sent p, Decidable (medium.delivers sent p)]
    [∀ sent, Decidable (medium.loses sent)] (interval : NsAddr → K) (state : TimedNet K)
    (event : Event K) : Option (TimedNet K) :=
  if state.onTime sim.nodes event then
    (state.net.next sim medium event).map fun net => ⟨net, state.timers interval event⟩
  else none

/-- Only nodes have pending timers. -/
def TimedNet.OfNodes (nodes : Finset NsAddr) (state : TimedNet K) : Prop :=
  ∀ node ∉ nodes, state.due node = none

omit [Field K] in
theorem TimedNet.OfNodes.punctual {nodes : Finset NsAddr} (ofNodes : state.OfNodes nodes)
    (onTime : state.onTime nodes event = true) : state.Punctual event := by
  cases event with
  | tick time =>
      intro node expiry pending
      by_cases isNode : node ∈ nodes
      · exact of_decide_eq_true onTime node isNode expiry pending
      · rw [ofNodes node isNode] at pending
        cases pending
  | stop addr => exact Option.isSome_iff_ne_none.mp onTime
  | timer addr =>
      exact of_decide_eq_true (p := state.due addr = some state.net.clock) onTime
  | start | deliver | lose => trivial

theorem TimedNet.OfNodes.timers (ofNodes : state.OfNodes sim.nodes)
    (enabled : state.net.Enabled sim medium event) {net : Net K} :
    OfNodes sim.nodes ⟨net, state.timers interval event⟩ := by
  intro node other
  have unchanged : state.due node = none := ofNodes node other
  have apart : ∀ addr ∈ sim.nodes, node ≠ addr := fun addr isNode same => other (same ▸ isNode)
  cases event with
  | tick | deliver | lose => exact unchanged
  | start addr => exact (Function.update_of_ne (apart addr enabled) _ _).trans unchanged
  | stop addr => exact (Function.update_of_ne (apart addr enabled) _ _).trans unchanged
  | timer addr => exact (Function.update_of_ne (apart addr enabled.1) _ _).trans unchanged

theorem TimedNet.run_of_follow [∀ sent p, Decidable (medium.delivers sent p)]
    [∀ sent, Decidable (medium.loses sent)] (params : NsAddr → Params K)
    (ofNodes : first.OfNodes sim.nodes) {schedule : List (TimedNet K → Option (Event K))}
    (followed : TransitionSystem.follow (next sim medium interval) first schedule =
      some (trace, last)) :
    (timedNetwork sim medium params interval).Run first trace last ∧ last.OfNodes sim.nodes := by
  refine TransitionSystem.run_of_follow (OfNodes sim.nodes) ?_ ofNodes followed
  intro state event state' ofNodes computed
  unfold next at computed
  split at computed
  next onTime =>
    obtain ⟨net, returned, rfl⟩ := Option.map_eq_some_iff.mp computed
    have step := Net.step_of_next params returned
    exact ⟨⟨step.1, ofNodes.punctual onTime, step.2, rfl⟩, ofNodes.timers step.1⟩
  next => cases computed

end Follow

/-- Node 0 is started at time 0, and once more at time 1/4. -/
def startedAgain : List (TimedNet ℚ → Option (Event ℚ)) :=
  [fun _ => some (.start 1), fun _ => some (.stop 1), fun _ => some (.start 0),
    fun _ => some (.timer 0 [1] [0] 0), fun _ => some (.tick (1 / 4)), fun _ => some (.start 0)]

/-- Its timer expires three times, while its first ant is on its way. -/
def threeExpiries : List (TimedNet ℚ → Option (Event ℚ)) :=
  [fun _ => some (.timer 0 [1] [0] 0), fun _ => some (.tick (3 / 4)),
    fun state => deliverAs 0 id [] 0 state.net, fun _ => some (.timer 0 [1] [0] 0),
    fun _ => some (.tick (5 / 4)), fun _ => some (.timer 0 [1] [0] 0)]

theorem exists_expiries :
    ∃ (early after : List (TimedNet ℚ × Event ℚ)) (started last : TimedNet ℚ),
      (timedNetwork (Sim.line 2 16) (.perfect ℚ) (fun _ => ⟨1 / 2, 2⟩) fun _ => 1 / 2).Run
        ⟨Net.initial fun _ => ⟨1 / 2, 2⟩, fun _ => none⟩
        (early ++ [(started, .start 0)] ++ after) last ∧
      started.net.clock = 1 / 4 ∧ expiries 0 after = [1 / 4, 3 / 4, 5 / 4] ∧
      sentCount 0 (untimed early) = 1 ∧
      ∀ entry ∈ after, entry.2 ≠ .start 0 ∧ entry.2 ≠ .stop 0 := by
  have observed : ((TransitionSystem.follow (TimedNet.next (Sim.line 2 16) (.perfect ℚ)
      fun _ => 1 / 2) ⟨Net.initial fun _ => ⟨1 / 2, 2⟩, fun _ => none⟩ startedAgain).bind
        fun (before, middle) =>
      (TransitionSystem.follow (TimedNet.next (Sim.line 2 16) (.perfect ℚ) fun _ => 1 / 2) middle
        threeExpiries).map fun (after, _) =>
          (before.getLast?.map (fun entry => (entry.1.net.clock, entry.2)),
            sentCount 0 (untimed before), expiries 0 after,
            decide (∀ entry ∈ after, entry.2 ≠ .start 0 ∧ entry.2 ≠ .stop 0))) =
      some (some (1 / 4, .start 0), 1, [1 / 4, 3 / 4, 5 / 4], true) := by
    decide +kernel
  obtain ⟨⟨before, middle⟩, followed, rest⟩ := Option.bind_eq_some_iff.mp observed
  obtain ⟨⟨after, last⟩, followed', shape⟩ := Option.map_eq_some_iff.mp rest
  simp only [Prod.mk.injEq, decide_eq_true_eq] at shape
  obtain ⟨command, count, expired, uncommanded⟩ := shape
  obtain ⟨⟨started, event⟩, latest, same⟩ := Option.map_eq_some_iff.mp command
  obtain ⟨clock, rfl⟩ := Prod.mk.inj same
  obtain ⟨early, rfl⟩ := List.getLast?_eq_some_iff.mp latest
  rw [untimed, List.map_append, sentCount_append] at count
  obtain ⟨earlyRun, ofNodes⟩ :=
    TimedNet.run_of_follow (fun _ => ⟨1 / 2, 2⟩) (fun _ _ => rfl) followed
  have lateRun := (TimedNet.run_of_follow (fun _ => ⟨1 / 2, 2⟩) ofNodes followed').1
  exact ⟨early, after, started, last, earlyRun.trans lateRun, clock, expired, count, uncommanded⟩

/-- Three expiries after the second start. -/
theorem timer_periodic_first :
    ∃ last : TimedNet ℚ, Periodic 0 (1 / 4) (1 / 2) [1 / 4, 3 / 4, 5 / 4] last := by
  obtain ⟨early, after, started, last, run, clock, expired, _, uncommanded⟩ := exists_expiries
  have periodic := (timer_periodic (Medium.perfect_faithful ℚ) (by norm_num) run uncommanded).1
    early started rfl
  rw [clock, expired] at periodic
  exact ⟨last, periodic⟩

/-- Their ants come after the one of the first start. -/
theorem ants_numbered_periodically_first :
    ∃ after : List (TimedNet ℚ × Event ℚ),
      (antsMade (Sim.line 2 16) 0 after).map (fun p => (p.ant.pktStartTime, p.ant.pktSeqNum)) =
        [(1 / 4, 1), (3 / 4, 2), (5 / 4, 3)] := by
  obtain ⟨early, after, started, last, run, clock, expired, count, uncommanded⟩ := exists_expiries
  rw [List.append_assoc, List.singleton_append] at run
  have numbers := (ants_numbered_periodically (Medium.perfect_faithful ℚ) (by norm_num) run
    uncommanded).1
  rw [clock, expired, count] at numbers
  refine ⟨after, numbers.trans ?_⟩
  decide +kernel

end AntAodv
