import AntAodv.Agent.Independence
import AntAodv.Agent.Sharing
import AntAodv.Network.Calls

/-!
# Events at different agents

Two events at different agents, each the expiry of an ant timer or the delivery of
an ant, may be executed in either order.  Between the two orders the identities of
new packets differ, and nothing else: an agent reads of the process-wide variables
only `r` and `NUM_NODES`, which neither event changes.
-/

namespace AntAodv

variable {K : Type}

/-- The packet without the identity it was allocated with. -/
def Packet.anonymous (p : Packet K) : Packet K := { p with cmn := { p.cmn with uid := 0 } }

/-- The position of a packet in flight, once `earlier` has happened: the packets
behind a delivered one have moved up. -/
def Event.shift (index : ℕ) : Event K → ℕ
  | .deliver gone _ _ _ => if gone < index then index - 1 else index
  | _ => index

/-- The event, once `earlier` has happened. -/
def Event.after (event earlier : Event K) : Event K :=
  match event with
  | .deliver index p draws junk => .deliver (earlier.shift index) p draws junk
  | event => event

/-- The network without the packet an event delivers. -/
def Net.without (net : Net K) : Event K → Net K
  | .deliver index _ _ _ => net.remove index
  | _ => net

/-- The same agents, and in flight the same packets up to their identities. -/
structure Net.SameOutcome (net net' : Net K) : Prop where
  agent : net.agent = net'.agent
  flight : (net.flight.map Packet.anonymous).Perm (net'.flight.map Packet.anonymous)

/-- Calls that leave the agent in the same state and hand the same packets to the
target, with `r` and `NUM_NODES` as in `shared`. -/
structure Call.Matches (shared : Globals K) (c d : Call K) : Prop where
  agent : c.agent = d.agent
  factor : c.globals.r = shared.r ∧ d.globals.r = shared.r
  nodes : c.globals.numNodes = shared.numNodes ∧ d.globals.numNodes = shared.numNodes
  sent : (handed c.log).map Packet.anonymous = (handed d.log).map Packet.anonymous

/-- A network in which the agent of `here` finds all it reads as in the first one. -/
structure Net.Agrees (net : Net K) (here : NsAddr) (net' : Net K) : Prop where
  agent : net'.agent here = net.agent here
  clock : net'.clock = net.clock
  factor : net'.globals.r = net.globals.r
  nodes : net'.globals.numNodes = net.globals.numNodes

@[simp]
theorem Net.without_agent (net : Net K) (event : Event K) :
    (net.without event).agent = net.agent := by
  cases event <;> rfl

@[simp]
theorem Net.without_clock (net : Net K) (event : Event K) :
    (net.without event).clock = net.clock := by
  cases event <;> rfl

theorem Net.Agrees.refl (net : Net K) (here : NsAddr) : net.Agrees here net := ⟨rfl, rfl, rfl, rfl⟩

/-- After a call at another agent. -/
theorem Net.Agrees.finish {net : Net K} {here there : NsAddr} {c d : Call K}
    (matched : Call.Matches net.globals c d) (elsewhere : here ≠ there) (event : Event K) :
    net.Agrees here ((net.without event).finish there c) := by
  refine ⟨?_, ?_, matched.factor.1, matched.nodes.1⟩
  · simp [Net.finish, elsewhere]
  · simp [Net.finish]

theorem Call.Beside.matches {shared : Globals K} {c d : Call K}
    (beside : Call.Beside shared c d) : Call.Matches shared c d := by
  have log := beside.log
  obtain ⟨n, uidcnt, rfl⟩ := beside.same
  exact ⟨rfl, ⟨beside.factor, beside.factor⟩, ⟨beside.nodes, beside.nodes⟩, by rw [log]⟩

variable [Arithmetic K] [LinearOrder K] {sim : Sim} {medium : Medium K} {net net' : Net K}
  {event earlier : Event K} {here there : NsAddr}

/-- A new ant differs in its identity only. -/
theorem Call.Beside.sendAntPkt {shared : Globals K} {c d : Call K}
    (beside : Call.Beside shared c d) (quiet : c.log = []) (empty : c.held = none) :
    Lockstep (fun _ _ => True) (Call.Matches shared) (c.sendAntPkt sim) (d.sendAntPkt sim) := by
  have factor := beside.factor
  have nodes := beside.nodes
  obtain ⟨n, uidcnt, rfl⟩ := beside.same
  have alike : c.Alike (c.withShared n uidcnt) := by
    refine ⟨rfl, rfl, rfl, rfl, ?_, rfl⟩
    simp only [Call.withShared, empty]
    exact .none
  have together : Call.Together (c.sendAntPkt sim) ((c.withShared n uidcnt).sendAntPkt sim) :=
    alike.sendAntPkt rfl
  cases returned : c.sendAntPkt sim with
  | error failure =>
      cases returned' : (c.withShared n uidcnt).sendAntPkt sim with
      | error failure' => exact .error trivial
      | ok d' =>
          rw [returned, returned'] at together
          cases together
  | ok c' =>
      cases returned' : (c.withShared n uidcnt).sendAntPkt sim with
      | error failure =>
          rw [returned, returned'] at together
          cases together
      | ok d' =>
          obtain ⟨dest, next, _, chosen, value, rfl⟩ := Call.sendAntPkt_cases returned
          obtain ⟨dest', next', _, chosen', value', rfl⟩ := Call.sendAntPkt_cases returned'
          rw [Rtable.calcNext_congr sim _ c.globals.n] at value'
          simp only [Call.withShared] at chosen' value'
          cases chosen.symm.trans chosen'
          cases value.symm.trans value'
          refine .ok ⟨rfl, ⟨factor, factor⟩, ⟨nodes, nodes⟩, ?_⟩
          simp only [Call.withShared, quiet, List.nil_append]
          split <;> rfl

omit [LinearOrder K] [Arithmetic K] in
theorem Net.Agrees.beside (agrees : net.Agrees here net') (held : Option (Packet K))
    (raws : List ℕ) (draws : List K) (junk : NsAddr) :
    Call.Beside net.globals (net.call here held raws draws junk)
      (net'.call here held raws draws junk) := by
  refine ⟨rfl, rfl, net'.globals.n, net'.uidcnt, ?_⟩
  simp only [Net.call, Call.withShared, agrees.agent, agrees.clock, ← agrees.factor,
    ← agrees.nodes]

variable (sim) in
/-- What an event does at an agent does not depend on what happened elsewhere. -/
theorem Net.exec_matches (net : Net K) (caller : event.caller = some here) :
    ∃ call, net.exec sim event = call >>= (fun c => .ok ((net.without event).finish here c)) ∧
      ∀ net' earlier, net.Agrees here net' → ∃ call',
        Lockstep (fun _ _ => True) (Call.Matches net.globals) call call' ∧
        net'.exec sim (event.after earlier) = call' >>= fun c =>
          .ok ((net'.without (event.after earlier)).finish here c) := by
  cases event with
  | tick | start | stop | lose => cases caller
  | timer addr raws draws junk =>
      cases caller
      refine ⟨_, rfl, ?_⟩
      intro net' earlier agrees
      exact ⟨_, (agrees.beside none raws draws junk).sendAntPkt rfl rfl, rfl⟩
  | deliver index p draws junk =>
      cases caller
      refine ⟨_, rfl, ?_⟩
      intro net' earlier agrees
      have received := (agrees.beside (some p) [] draws junk).recv sim
      exact ⟨_, (received.mono fun _ _ after => after.matches).forget, rfl⟩

/-! ### The flight in either order -/

/-- Two positions may be erased in either order. -/
theorem eraseIdx_eraseIdx_of_lt {α : Type} (entries : List α) {first second : ℕ}
    (order : first < second) :
    (entries.eraseIdx first).eraseIdx (second - 1) =
      (entries.eraseIdx second).eraseIdx first := by
  apply List.ext_getElem?
  intro index
  simp only [List.getElem?_eraseIdx]
  by_cases before : index < first
  · have left : index < second - 1 := by omega
    have right : index < second := by omega
    simp only [before, left, right, if_true]
  · by_cases between : index < second - 1
    · have right : index + 1 < second := by omega
      simp only [before, between, right, if_true, if_false]
    · have left : ¬ index + 1 < first := by omega
      have right : ¬ index + 1 < second := by omega
      simp only [before, between, left, right, if_false]

/-- The events do not deliver the same packet. -/
def Event.Apart : Event K → Event K → Prop
  | .deliver index _ _ _, .deliver other _ _ _ => index ≠ other
  | _, _ => True

omit [Arithmetic K] [LinearOrder K] in
theorem Event.Apart.symm {first second : Event K} (apart : first.Apart second) :
    second.Apart first := by
  cases first <;> cases second <;> first | trivial | exact Ne.symm apart

omit [Arithmetic K] [LinearOrder K] in
theorem Net.without_after {first second : Event K} (apart : first.Apart second) :
    (net.without first).without (second.after first) =
      (net.without second).without (first.after second) := by
  cases first with
  | deliver index p draws junk =>
      cases second with
      | deliver other q draws' junk' =>
          simp only [Net.without, Event.after, Event.shift, Net.remove]
          rcases Nat.lt_or_gt_of_ne apart with order | order
          · rw [if_pos order, if_neg order.not_gt, eraseIdx_eraseIdx_of_lt _ order]
          · rw [if_neg order.not_gt, if_pos order, eraseIdx_eraseIdx_of_lt _ order]
      | _ => rfl
  | _ => cases second <;> rfl

omit [Arithmetic K] [LinearOrder K] in
/-- A packet in flight stays where the shifted event finds it. -/
theorem getElem?_without {index : ℕ} {p sent : Packet K} {draws : List K} {junk : NsAddr}
    (apart : earlier.Apart (.deliver index p draws junk)) (found : net.flight[index]? = some sent) :
    (net.without earlier).flight[earlier.shift index]? = some sent := by
  cases earlier with
  | deliver gone q draws' junk' =>
      have different : gone ≠ index := apart
      simp only [Net.without, Net.remove, Event.shift, List.getElem?_eraseIdx]
      by_cases order : gone < index
      · have shifted : ¬ index - 1 < gone := by omega
        have back : index - 1 + 1 = index := by omega
        rw [if_pos order, if_neg shifted, back]
        exact found
      · have before : index < gone := by omega
        rw [if_neg order, if_pos before]
        exact found
  | _ => exact found

omit [Arithmetic K] [LinearOrder K] in
theorem getElem?_finish {index : ℕ} {sent : Packet K} {c : Call K}
    (found : net.flight[index]? = some sent) :
    (net.finish here c).flight[index]? = some sent := by
  have inside := (List.getElem?_eq_some_iff.mp found).1
  simpa [Net.finish, List.getElem?_append_left inside] using found

/-- An event stays enabled when another one happens at another agent. -/
theorem Net.Enabled.after {c : Call K} (enabled : net.Enabled sim medium event)
    (caller : event.caller = some here) (elsewhere : here ≠ there)
    (apart : earlier.Apart event) :
    ((net.without earlier).finish there c).Enabled sim medium (event.after earlier) := by
  have agents : ∀ node, (net.without earlier).agent node = net.agent node := by
    cases earlier <;> exact fun _ => rfl
  cases event with
  | tick | start | stop | lose => cases caller
  | timer addr raws draws junk =>
      cases caller
      obtain ⟨isNode, pending, uniform⟩ := enabled
      refine ⟨isNode, ?_, uniform⟩
      simpa [Net.finish, elsewhere, agents] using pending
  | deliver index p draws junk =>
      obtain ⟨⟨sent, found, delivered⟩, rest⟩ := enabled
      exact ⟨⟨sent, getElem?_finish (getElem?_without apart found), delivered⟩, rest⟩

/-- What an event adds to the flight does not move what the other one delivers. -/
theorem Net.flight_finish_without {c : Call K} (enabled : net.Enabled sim medium event)
    (apart : earlier.Apart event) :
    (((net.without earlier).finish there c).without (event.after earlier)).flight =
      ((net.without earlier).without (event.after earlier)).flight ++ handed c.log := by
  cases event with
  | deliver index p draws junk =>
      obtain ⟨⟨sent, found, _⟩, _⟩ := enabled
      have inside := (List.getElem?_eq_some_iff.mp (getElem?_without apart found)).1
      simp only [Net.without, Event.after, Net.remove, Net.finish]
      exact List.eraseIdx_append_of_lt_length inside _
  | _ => rfl

/-- A packet is delivered to one agent. -/
theorem Medium.Faithful.apart (faithful : medium.Faithful) {first second : Event K}
    (enabled : net.Enabled sim medium first) (enabled' : net.Enabled sim medium second)
    (caller : first.caller = some here) (caller' : second.caller = some there)
    (elsewhere : here ≠ there) : first.Apart second := by
  cases first with
  | deliver index p draws junk =>
      cases second with
      | deliver other q draws' junk' =>
          rintro rfl
          obtain ⟨⟨sent, found, delivered⟩, _⟩ := enabled
          obtain ⟨⟨sent', found', delivered'⟩, _⟩ := enabled'
          cases found.symm.trans found'
          obtain ⟨ttl, rfl⟩ := faithful sent p delivered
          obtain ⟨ttl', rfl⟩ := faithful sent q delivered'
          cases caller
          cases caller'
          exact elsewhere rfl
      | _ => trivial
  | _ => trivial

omit [Arithmetic K] [LinearOrder K] in
/-- Both orders apply the same two calls. -/
theorem Net.SameOutcome.of_matches (first second : Event K) {c d c' d' : Call K}
    {after after' : Net K} (elsewhere : here ≠ there)
    (atHere : Call.Matches net.globals c c') (atThere : Call.Matches net.globals d d')
    (agents : after.agent = Function.update net.agent here c.agent)
    (agents' : after'.agent = Function.update net.agent there d.agent)
    (flight : after.flight = ((net.without first).without (second.after first)).flight ++
      handed c.log)
    (flight' : after'.flight = ((net.without second).without (first.after second)).flight ++
      handed d.log)
    (apart : first.Apart second) :
    (after.finish there d').SameOutcome (after'.finish here c') := by
  constructor
  · simp only [Net.finish, agents, agents', ← atHere.agent, ← atThere.agent]
    exact Function.update_comm elsewhere _ _ _
  · simp only [Net.finish, flight, flight', Net.without_after apart, List.map_append,
      List.append_assoc, ← atHere.sent, ← atThere.sent]
    exact List.perm_append_comm.append_left _

/-- Two events at different agents may be executed in either order. -/
theorem simultaneous_events_commute (faithful : medium.Faithful) {first second : Event K}
    (enabled : net.Enabled sim medium first) (enabled' : net.Enabled sim medium second)
    (caller : first.caller = some here) (caller' : second.caller = some there)
    (elsewhere : here ≠ there) :
    (∀ after, net.exec sim first = .ok after →
      after.Enabled sim medium (second.after first)) ∧
    (∀ after, net.exec sim second = .ok after →
      after.Enabled sim medium (first.after second)) ∧
    Lockstep (fun _ _ => True) Net.SameOutcome
      (net.exec sim first >>= fun after => after.exec sim (second.after first))
      (net.exec sim second >>= fun after => after.exec sim (first.after second)) := by
  have apart := faithful.apart enabled enabled' caller caller' elsewhere
  obtain ⟨call, executed, again⟩ := net.exec_matches sim caller
  obtain ⟨call', executed', again'⟩ := net.exec_matches sim caller'
  obtain ⟨_, self, _⟩ := again net first (.refl net here)
  obtain ⟨_, self', _⟩ := again' net second (.refl net there)
  rw [executed, executed']
  refine ⟨?_, ?_, ?_⟩
  · intro after returned
    obtain ⟨c, _, done⟩ := bind_eq_ok returned
    cases done
    exact enabled'.after caller' elsewhere.symm apart
  · intro after returned
    obtain ⟨d, _, done⟩ := bind_eq_ok returned
    cases done
    exact enabled.after caller elsewhere apart.symm
  · cases self with
    | error =>
        cases self' with
        | error => exact .error trivial
        | ok matched' =>
            obtain ⟨_, related, later⟩ := again _ second (.finish matched' elsewhere second)
            cases related with
            | error =>
                simp only [ok_bind, error_bind, later]
                exact .error trivial
    | ok matched =>
        obtain ⟨_, related', later'⟩ := again' _ first (.finish matched elsewhere.symm first)
        cases self' with
        | error =>
            cases related' with
            | error =>
                simp only [ok_bind, error_bind, later']
                exact .error trivial
        | ok matched' =>
            obtain ⟨_, related, later⟩ := again _ second (.finish matched' elsewhere second)
            cases related with
            | ok atHere =>
                cases related' with
                | ok atThere =>
                    simp only [ok_bind, later, later']
                    refine .ok (.of_matches first second elsewhere atHere atThere ?_ ?_ ?_ ?_ apart)
                    · simp [Net.finish]
                    · simp [Net.finish]
                    · exact Net.flight_finish_without enabled' apart
                    · exact Net.flight_finish_without enabled apart.symm

/-- In a line of three nodes, an ant reaches the middle while an end sends another
one. -/
theorem simultaneous_events_commute_line :
    let sim := Sim.line 3 maxNumNodes
    let params : NsAddr → Params ℚ := fun _ => ⟨1 / 2, 3⟩
    ∃ net p, (network sim (.perfect ℚ) params).Reachable net ∧
      ∃ after after',
        (net.exec sim (.deliver 0 p [1 / 2] 0) >>= fun after =>
          after.exec sim (.timer 2 [0] [0] 0)) = .ok after ∧
        (net.exec sim (.timer 2 [0] [0] 0) >>= fun after =>
          after.exec sim (.deliver 0 p [1 / 2] 0)) = .ok after' ∧
        after.SameOutcome after' := by
  intro sim params
  have observed : ((Net.initial params).follow sim (.perfect ℚ)
      [fun _ => some (.start 0), fun _ => some (.start 1), fun _ => some (.start 2),
        fun _ => some (.timer 0 [2] [0] 0)]).map (fun outcome =>
        outcome.2.flight.map fun p =>
          (decide (outcome.2.Enabled sim (.perfect ℚ) (.deliver 0 p [1 / 2] 0)),
            decide (outcome.2.Enabled sim (.perfect ℚ) (.timer 2 [0] [0] 0)),
            p.ip.daddr,
            (outcome.2.exec sim (.deliver 0 p [1 / 2] 0) >>= fun after =>
              after.exec sim (.timer 2 [0] [0] 0)).toOption.isSome)) =
      some [(true, true, 1, true)] := by
    decide +kernel
  obtain ⟨trace, net, run, outcome⟩ := Net.exists_run_of_follow params observed
  rcases List.map_eq_singleton_iff.mp outcome with ⟨p, _, shape⟩
  simp only [Prod.mk.injEq] at shape
  obtain ⟨ready, ready', middle, returned⟩ := shape
  refine ⟨net, p, ⟨_, trace, rfl, run⟩, ?_⟩
  have commute := (simultaneous_events_commute (Medium.perfect_faithful ℚ)
    (of_decide_eq_true ready) (of_decide_eq_true ready') (congrArg some middle) rfl
    (by decide)).2.2
  simp only [Event.after, Event.shift] at commute
  generalize (net.exec sim (.deliver 0 p [1 / 2] 0) >>= fun after =>
    after.exec sim (.timer 2 [0] [0] 0)) = first at commute returned ⊢
  generalize (net.exec sim (.timer 2 [0] [0] 0) >>= fun after =>
    after.exec sim (.deliver 0 p [1 / 2] 0)) = second at commute ⊢
  cases commute with
  | ok same => exact ⟨_, _, rfl, rfl, same⟩
  | error => cases returned

end AntAodv
