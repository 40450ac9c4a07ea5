import AntAodv.Network.History
import AntAodv.Rtable.Rows
import Mathlib.Algebra.Order.Field.Rat

/-!
# The way home

A forward ant that reaches its destination is turned round and goes back over
the nodes in its memory, last to first.  Every stop updates the rows of the
nodes behind it in memory once, and no other stop of this ant updates anything.
-/

namespace AntAodv

open LoopErasure

variable {K : Type} [Arithmetic K] [LinearOrder K]

/-- The delivery of a backward ant at position `place` of the route in its
memory: where its searches stop, what it reads, and what it updates. -/
structure Retrace (sim : Sim) (route : List NsAddr) (net : Net K) (event : Event K)
    (p : Packet K) (place : ℕ) : Prop where
  path : p.ant.path = route
  inside : place + 1 < route.length
  here : route[place]? = some p.ip.daddr
  unique : ∀ index, route[index]? = some p.ip.daddr → index = place
  updateScan : HdrAntPkt.scanUnbounded p.ip.daddr 0 p.ant.pktMemory = .ok place
  backwardScan : p.ant.scanDown p.ip.daddr p.ant.pktMemSize = .ok (some place)
  /-- The first node frees the ant, any other hands it to the one before. -/
  passedOn : if place = 0 then .freed p ∈ net.ops sim event ∧ handed (net.ops sim event) = []
    else ∃ entry q, p.ant.read ((place : ℤ) - 1) = .ok entry ∧
      route[place - 1]? = some entry.nodeAddr ∧ handed (net.ops sim event) = [q] ∧
        q.ip.daddr = entry.nodeAddr
  updated : ∃ net' next, net.exec sim event = .ok net' ∧ route[place + 1]? = some next ∧
    ∀ node dest, (net'.agent node).rtable dest =
      if node = p.ip.daddr ∧ dest ∈ route.drop (place + 1) then
        ((net.agent node).rtable dest).map (Rtable.updateRow net.globals.r next)
      else (net.agent node).rtable dest

/-- Where a run leaves the packet `uid`, turned round with `route` in memory. -/
inductive Whereabouts (sim : Sim) (route : List NsAddr) (uid : ℕ)
    (trace : List (Net K × Event K)) (net : Net K) : Prop where
  | underway {p : Packet K} {place : ℕ} :
      p ∈ net.flight →
      p.cmn.uid = uid →
      BackwardAnt sim p →
      p.ant.path = route →
      route[place]? = some p.ip.daddr →
      handlers uid trace ++ (route.take (place + 1)).reverse = route.dropLast.reverse →
      Whereabouts sim route uid trace net
  | home :
      (∀ p ∈ net.flight, p.cmn.uid ≠ uid) →
      handlers uid trace = route.dropLast.reverse →
      Whereabouts sim route uid trace net
  | lost :
      Lost uid trace →
      (∀ p ∈ net.flight, p.cmn.uid ≠ uid) →
      handlers uid trace <+: route.dropLast.reverse →
      Whereabouts sim route uid trace net

/-- What a run says about the packet `uid`, turned round with `route` in memory
at its start. -/
structure Homeward (sim : Sim) (medium : Medium K) (route : List NsAddr) (uid : ℕ)
    (trace : List (Net K × Event K)) (net : Net K) : Prop where
  whereabouts : Whereabouts sim route uid trace net
  retraced : ∀ first event p, (first, event) ∈ trace → event.delivered = some p →
    p.cmn.uid = uid → ∃ place, Retrace sim route first event p place
  /-- The next delivery, whenever it comes, goes as those before. -/
  continues : ∀ event p, net.Enabled sim medium event → event.delivered = some p →
    p.cmn.uid = uid → ∃ place, Retrace sim route net event p place

variable {sim : Sim} {medium : Medium K} {net net' : Net K} {event : Event K}
  {trace : List (Net K × Event K)}

/-- What the delivery of a backward ant does, whatever else is in flight. -/
theorem BackwardAnt.retrace {p : Packet K} (ant : BackwardAnt sim p)
    (own : (net.agent p.ip.daddr).addr = p.ip.daddr) (index : ℕ) (draws : List K)
    (junk : NsAddr) :
    ∃ place, Retrace sim p.ant.path net (.deliver index p draws junk) p place := by
  rcases ant.hop with ⟨before, after, split⟩
  have here : p.ant.path[before.length]? = some p.ip.daddr := by simp [split]
  have behind : p.ant.path.drop (before.length + 1) = p.ip.saddr :: after := by
    rw [split, List.drop_append]
    simp
  obtain ⟨notBefore, notAfter, distinct⟩ := ant.apart split
  obtain ⟨front, entry, second, back, live, isBefore, isHere, isNext, isAfter⟩ :=
    HdrAntPkt.exists_live_of_path split
  have length : front.length = before.length := by simp [← isBefore]
  have received := ant.recv_eq (c := net.call p.ip.daddr (some p) [] draws junk) rfl own split
  refine ⟨before.length, rfl, ?_, here, ?_, ?_, ?_, ?_, ?_⟩
  · simp [split]
  · intro other same
    have inside := (List.getElem?_eq_some_iff.mp same).1
    exact (List.getElem?_inj inside ant.distinct).mp (same.trans here.symm)
  · rw [HdrAntPkt.pktMemory_eq, live, List.append_assoc, List.cons_append,
      HdrAntPkt.scanUnbounded_found (by rw [isBefore]; exact notBefore) isHere, Nat.zero_add,
      length]
  · have found := HdrAntPkt.scanDown_found live
      (by rw [List.map_cons, isNext, isAfter]; exact notAfter) isHere
    rw [← length, ← found]
    congr 1
    rw [← HdrAntPkt.length_live ant.bounded', live, List.length_append, List.length_cons]
    omega
  · rw [Net.ops, Net.invoke, received]
    cases ends : before.getLast? with
    | none =>
        rw [List.getLast?_eq_none_iff.mp ends, List.length_nil, if_pos rfl]
        simp only [handed_append, handed_tableUpdated]
        exact ⟨List.mem_append_right _ (List.mem_singleton_self _), rfl⟩
    | some prev =>
        rcases List.getLast?_eq_some_iff.mp ends with ⟨early, order⟩
        have split' : p.ant.path = early ++ prev :: p.ip.daddr :: p.ip.saddr :: after := by
          rw [split, order]
          simp
        obtain ⟨frontEarly, previous, _, _, live', isEarly, isPrevious, _⟩ :=
          HdrAntPkt.exists_live_of_path split'
        have slot : p.ant.read ((before.length : ℤ) - 1) = .ok previous := by
          have place : (before.length : ℤ) - 1 = (frontEarly.length : ℕ) := by
            rw [order, ← isEarly]
            simp
          rw [place]
          exact HdrAntPkt.read_live live'
        rw [if_neg (by rw [order]; simp)]
        refine ⟨previous, returnedAnt p p.ip.daddr prev, slot, ?_, ?_, isPrevious.symm⟩
        · rw [split, order, isPrevious]
          simp
        · simp only [handed_append, handed_tableUpdated]
          rfl
  · refine ⟨_, p.ip.saddr, by rw [Net.exec, received]; rfl, by simp [split], ?_⟩
    intro node dest
    rw [behind]
    by_cases same : node = p.ip.daddr
    · subst same
      simp only [Net.finish, Function.update_self, Call.tableUpdated, true_and]
      exact Rtable.foldl_update_apply _ _ _ distinct dest
    · simp [Net.finish, same]
      rfl

theorem Net.Stepped.delivered_mem (stepped : net.Stepped sim event net') {p : Packet K}
    (delivered : event.delivered = some p) :
    ∃ sent ∈ net.flight, sent.cmn.uid = p.cmn.uid := by
  cases stepped with
  | @deliver _ sent _ _ _ _ inFlight =>
      cases delivered
      exact ⟨sent, List.mem_of_getElem? inFlight, rfl⟩
  | _ => cases delivered

/-- An identity that is neither in flight nor free for new packets stays so. -/
theorem Net.Stepped.absent (wellFormed : net.WellFormed sim)
    (stepped : net.Stepped sim event net') {uid : ℕ} (used : uid < net.uidcnt)
    (absent : ∀ p ∈ net.flight, p.cmn.uid ≠ uid) :
    (∀ p ∈ net'.flight, p.cmn.uid ≠ uid) ∧ handlers uid [(net, event)] = [] := by
  constructor
  · intro p inFlight
    cases stepped.source wellFormed inFlight with
    | kept earlier => exact absent p earlier
    | emitted _ _ new =>
        rw [new]
        exact used.ne'
    | @passed _ sent _ _ _ _ delivered _ _ received handedOn =>
        rw [received.uid rfl handedOn]
        exact absent sent (List.mem_of_getElem? delivered)
  · apply handlers_other
    intro p delivered
    obtain ⟨sent, inFlight, same⟩ := stepped.delivered_mem delivered
    rw [← same]
    exact absent sent inFlight

/-- The delivery of an ant under way brings it home or one node further. -/
theorem Whereabouts.deliver {route : List NsAddr} {p : Packet K} {place index : ℕ} {ttl : ℤ}
    {draws : List K} {junk : NsAddr} {c : Call K} (wellFormed : net.WellFormed sim)
    (ant : BackwardAnt sim p) (path : p.ant.path = route) (here : route[place]? = some p.ip.daddr)
    (handled : handlers p.cmn.uid trace ++ (route.take (place + 1)).reverse =
      route.dropLast.reverse)
    (inFlight : net.flight[index]? = some p)
    (received : Received sim (net.call p.ip.daddr (some (p.withTtl ttl)) [] draws junk)
      (p.withTtl ttl) c) :
    Whereabouts sim route p.cmn.uid
      (trace ++ [(net, .deliver index (p.withTtl ttl) draws junk)])
      ((net.remove index).finish p.ip.daddr c) := by
  have handles : handlers p.cmn.uid [(net, .deliver index (p.withTtl ttl) draws junk)] =
      [p.ip.daddr] := handlers_delivered (p := p.withTtl ttl) rfl
  have unique : ∀ other, route[other]? = some p.ip.daddr → place = other := by
    intro other found
    have inside := (List.getElem?_eq_some_iff.mp here).1
    rw [← path] at inside found here
    exact (List.getElem?_inj inside ant.distinct).mp (here.trans found.symm)
  have further : handlers p.cmn.uid (trace ++ [(net, .deliver index (p.withTtl ttl) draws junk)]) ++
      (route.take place).reverse = route.dropLast.reverse := by
    rw [handlers_append, handles, ← handled, List.take_add_one, here]
    simp
  have removed : ∀ other ∈ (net.remove index).flight, other.cmn.uid ≠ p.cmn.uid :=
    fun other membership => ((wellFormed.mem_remove_iff inFlight).mp membership).2
  cases received with
  | turned forward | ended forward | forwarded forward =>
      exact absurd (ant.withTtl ttl) forward.not_backward
  | @home after _ split =>
      have order : route = p.ip.daddr :: p.ip.saddr :: after := path.symm.trans split
      have first : place = 0 := unique 0 (by rw [order]; rfl)
      refine .home ?_ (by simpa [first] using further)
      intro other membership
      simp only [Net.finish, handed_append, handed_tableUpdated] at membership
      apply removed other
      simpa [handed, Net.call] using membership
  | @returned early after prev _ split =>
      have order : route = (early ++ [prev]) ++ p.ip.daddr :: p.ip.saddr :: after :=
        path.symm.trans split
      have position : place = early.length + 1 := unique (early.length + 1) (by simp [order])
      have next : route[early.length]? = some prev := by simp [order]
      refine .underway (p := returnedAnt (p.withTtl ttl) p.ip.daddr prev) ?_ rfl
        ((ant.withTtl ttl).returned split) path next (by rw [← position]; exact further)
      simp only [Net.finish, handed_append, handed_tableUpdated]
      exact List.mem_append_right _ (List.mem_singleton_self _)

theorem Whereabouts.step {route : List NsAddr} {uid : ℕ}
    (whereabouts : Whereabouts sim route uid trace net) (wellFormed : net.WellFormed sim)
    (used : uid < net.uidcnt) (stepped : net.Stepped sim event net') :
    Whereabouts sim route uid (trace ++ [(net, event)]) net' := by
  cases whereabouts with
  | home absent complete =>
      obtain ⟨gone, unhandled⟩ := stepped.absent wellFormed used absent
      apply Whereabouts.home gone
      rw [handlers_append, unhandled, List.append_nil, complete]
  | lost lost absent early =>
      obtain ⟨gone, unhandled⟩ := stepped.absent wellFormed used absent
      obtain ⟨first, index, p, occurred, rest⟩ := lost
      refine .lost ⟨first, index, p, List.mem_append_left _ occurred, rest⟩ gone ?_
      rwa [handlers_append, unhandled, List.append_nil]
  | @underway p place inFlight same ant path here handled =>
      subst same
      by_cases delivered : ∃ q, event.delivered = some q ∧ q.cmn.uid = p.cmn.uid
      · obtain ⟨q, delivered, same⟩ := delivered
        cases stepped with
        | deliver found isNode logged received =>
            cases delivered
            cases wellFormed.eq_of_uid (List.mem_of_getElem? found) inFlight same
            exact .deliver wellFormed ant path here handled found received
        | _ => cases delivered
      · simp only [not_exists, not_and] at delivered
        have unhandled : handlers p.cmn.uid [(net, event)] = [] := handlers_other delivered
        by_cases loss : ∃ index, event = .lose index ∧ net.flight[index]? = some p
        · obtain ⟨index, rfl, found⟩ := loss
          cases stepped with
          | lose =>
              refine .lost ⟨net, index, p, by simp, found, rfl⟩ ?_ ?_
              · intro other membership
                exact ((wellFormed.mem_remove_iff found).mp membership).2
              · rw [handlers_append, unhandled, List.append_nil]
                exact ⟨_, handled⟩
        · simp only [not_exists, not_and] at loss
          refine .underway (stepped.stays wellFormed inFlight ?_ loss) rfl ant path here ?_
          · rintro index q draws junk rfl
            exact delivered q rfl
          · rwa [handlers_append, unhandled, List.append_nil]

omit [LinearOrder K] in
/-- A forward ant turned round at its destination is under way home. -/
theorem Whereabouts.begins {p : Packet K} {ah : HdrAntPkt K} {time : K} (ant : ForwardAnt sim p)
    (recorded : p.ant.Memorized p.ip.daddr time ah) (path : ah.path = p.ant.path ++ [p.ip.daddr])
    (isNode : p.ip.daddr ∈ sim.nodes) (arrived : p.ip.daddr = p.ant.pktDst)
    (inFlight : turnedAnt { p with ant := ah } p.ip.daddr p.ip.saddr ∈ net.flight) :
    Whereabouts sim ah.path p.cmn.uid [] net := by
  obtain ⟨early, route⟩ := ant.exists_route path
  have next : ah.path[early.length]? = some p.ip.saddr := by simp [route]
  refine .underway (p := turnedAnt { p with ant := ah } p.ip.daddr p.ip.saddr) inFlight rfl
    (.turned ant recorded path isNode arrived) rfl next ?_
  rw [route, List.append_cons early, List.dropLast_concat, List.take_left' (by simp)]
  rfl

theorem Whereabouts.continues {route : List NsAddr} {uid : ℕ}
    (whereabouts : Whereabouts sim route uid trace net) (wellFormed : net.WellFormed sim)
    (faithful : medium.Faithful) {p : Packet K} (enabled : net.Enabled sim medium event)
    (delivered : event.delivered = some p) (same : p.cmn.uid = uid) :
    ∃ place, Retrace sim route net event p place := by
  cases event with
  | deliver index q draws junk =>
      cases delivered
      obtain ⟨sent, ttl, found, rfl⟩ := faithful.unchanged enabled
      have inFlight := List.mem_of_getElem? found
      cases whereabouts with
      | home absent | lost _ absent => exact absurd same (absent sent inFlight)
      | underway known isUid ant path =>
          cases wellFormed.eq_of_uid inFlight known (same.trans isUid.symm)
          exact path ▸ (ant.withTtl ttl).retrace (wellFormed.addr _) index draws junk
  | _ => cases delivered

theorem Whereabouts.run {params : NsAddr → Params K} {route : List NsAddr} {uid : ℕ}
    (faithful : medium.Faithful) (wellFormed : net.WellFormed sim) (used : uid < net.uidcnt)
    (begins : Whereabouts sim route uid [] net)
    (run : (network sim medium params).Run net trace net') :
    net'.WellFormed sim ∧ uid < net'.uidcnt ∧ Homeward sim medium route uid trace net' := by
  induction run with
  | refl =>
      exact ⟨wellFormed, used, begins, by simp,
        fun _ _ enabled delivered same =>
          begins.continues wellFormed faithful enabled delivered same⟩
  | snoc _ step inductionHypothesis =>
      obtain ⟨wellFormed, used, homeward⟩ := inductionHypothesis
      have stepped := wellFormed.stepped step.1 (faithful.unchanged step.1) step.2
      have next := homeward.whereabouts.step wellFormed used stepped
      have kept := wellFormed.step stepped
      refine ⟨kept, used.trans_le stepped.uidcnt_le, next, ?_,
        fun _ _ enabled delivered same => next.continues kept faithful enabled delivered same⟩
      intro first event p occurred delivered same
      rcases List.mem_append.mp occurred with earlier | now
      · exact homeward.retraced first event p earlier delivered same
      · cases List.mem_singleton.mp now
        exact homeward.continues _ p step.1 delivered same

/-- A forward ant that reaches its destination is turned round there and retraces
its memory. -/
theorem backward_ant_retraces (faithful : medium.Faithful) (large : sim.nodes.card ≤ sim.slots)
    {params : NsAddr → Params K} {before : List (Net K × Event K)} {index : ℕ} {p : Packet K}
    {draws : List K} {junk : NsAddr}
    (run : (network sim medium params).Run (Net.initial params) before net)
    (arrival : net.Enabled sim medium (.deliver index p draws junk))
    (outward : p.cmn.direction = .down) (arrived : p.ip.daddr = p.ant.pktDst) :
    ∃ c ah turned source prev,
      (net.call p.ip.daddr (some p) [] draws junk).memorize = .ok c ∧
      c.held = some { p with ant := ah } ∧
      2 ≤ ah.path.length ∧ ah.path.Nodup ∧
      ah.path.head? = some source ∧ EmittedBy sim before p.cmn.uid source ∧
      ah.path.getLast? = some p.ip.daddr ∧
      ah.read ((ah.pktMemSize : ℤ) - 2) = .ok prev ∧
      ah.path[ah.path.length - 2]? = some prev.nodeAddr ∧
      net.exec sim (.deliver index p draws junk) = .ok turned ∧ net.SameTables turned ∧
      (∀ first event q, (first, event) ∈ before → event.delivered = some q →
        q.cmn.uid = p.cmn.uid →
        ∃ next, first.exec sim event = .ok next ∧ first.SameTables next) ∧
      ∀ after last, (network sim medium params).Run turned after last →
        Homeward sim medium ah.path p.cmn.uid after last := by
  obtain ⟨wellFormed, history⟩ := (faithful.unaltered params).history run
  have unchanged := faithful.unchanged arrival
  obtain ⟨ttl, inFlight⟩ := unchanged.inFlight rfl
  have ant : ForwardAnt sim p := wellFormed.forward_of_down unchanged outward
  have room : p.ant.pktMemSize < sim.slots :=
    (ant.room large arrival.2.1).resolve_left (by rw [arrived]; exact ant.unreached)
  obtain ⟨ah, memorized, recorded, path, received⟩ := ant.recv_destination
    (c := net.call p.ip.daddr (some p) [] draws junk) rfl (wellFormed.addr _) arrived room
  have returned : net.exec sim (.deliver index p draws junk) = .ok _ := Net.exec_deliver received
  have stepped := wellFormed.stepped arrival unchanged returned
  obtain ⟨early, route⟩ := ant.exists_route path
  obtain ⟨front, prev, last, back, live, _, isPrev, _, isBack⟩ :=
    HdrAntPkt.exists_live_of_path route
  rw [List.map_eq_nil_iff.mp isBack] at live
  obtain ⟨source, emitted, head⟩ : ∃ source, EmittedBy sim before p.cmn.uid source ∧
      p.ant.path.head? = some source := history.emitted (p.withTtl ttl) inFlight
  refine ⟨_, ah, _, source, prev, memorized, rfl, by simp [route], ?_, ?_, emitted, by simp [route],
    ?_, by simp [route, isPrev], returned, stepped.sameTables ant, ?_, ?_⟩
  · rw [recorded.path]
    exact nodup_visit ant.distinct _
  · rw [path, List.head?_append_of_ne_nil _ (HdrAntPkt.path_ne_nil head), head]
  · have size : (ah.pktMemSize : ℤ) - 2 = (front.length : ℕ) := by
      rw [← HdrAntPkt.length_live recorded.bounded, live]
      simp
    rw [size]
    exact HdrAntPkt.read_live live
  · intro first event q occurred isDelivered isSame
    exact (history.outward _ inFlight (ant.withTtl ttl) first event q occurred isDelivered
      isSame).tables
  · intro after last later
    refine (Whereabouts.run faithful (wellFormed.step stepped) ?_ ?_ later).2.2
    · exact (wellFormed.fresh _ inFlight).trans_le stepped.uidcnt_le
    · exact .begins ant recorded path arrival.2.1 arrived
        (List.mem_append_right _ (List.mem_singleton_self _))

/-- An ant from node 0 to node 2 over node 1. -/
theorem backward_ant_retraces_line :
    let sim := Sim.line 3 16
    let params : NsAddr → Params ℚ := fun _ => ⟨1 / 2, 3⟩
    ∃ before net p,
      (network sim (.perfect ℚ) params).Run (Net.initial params) before net ∧
      net.Enabled sim (.perfect ℚ) (.deliver 0 p [] 0) ∧ p.cmn.direction = .down ∧
      p.ip.daddr = 2 ∧ p.ant.pktDst = 2 ∧
      ∃ route turned, route.getLast? = some 2 ∧
        net.exec sim (.deliver 0 p [] 0) = .ok turned ∧
        ∀ after last, (network sim (.perfect ℚ) params).Run turned after last →
          Homeward sim (.perfect ℚ) route p.cmn.uid after last := by
  intro sim params
  have observed : ((Net.initial params).follow sim (.perfect ℚ)
      [fun _ => some (.start 0), fun _ => some (.start 1), fun _ => some (.timer 0 [2] [0] 0),
        deliverAs 0 id [1 / 2] 0]).map
        (fun outcome => outcome.2.flight.map fun p =>
          (p.cmn.direction, p.ip.daddr, p.ant.pktDst)) = some [(.down, 2, 2)] := by
    decide +kernel
  obtain ⟨before, net, run, single⟩ := Net.exists_run_of_follow params observed
  rcases List.map_eq_singleton_iff.mp single with ⟨p, flight, shape⟩
  simp only [Prod.mk.injEq] at shape
  obtain ⟨direction, daddr, pktDst⟩ := shape
  have arrival : net.Enabled sim (.perfect ℚ) (.deliver 0 p [] 0) := by
    refine ⟨⟨p, by rw [flight]; rfl, rfl⟩, ?_, by simp [Net.Uniform]⟩
    rw [daddr]
    decide
  obtain ⟨_, ah, turned, _, _, _, _, _, _, _, _, last, _, _, returned, _, _, homeward⟩ :=
    backward_ant_retraces (Medium.perfect_faithful ℚ) (by decide) run arrival direction (daddr.trans pktDst.symm)
  rw [daddr] at last
  exact ⟨before, net, p, run, arrival, direction, daddr, pktDst, ah.path, turned, last, returned,
    homeward⟩

end AntAodv
