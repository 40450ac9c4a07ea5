import AntAodv.Network.Ants

/-!
# Well-formed networks

In every state all ants in flight are forward or backward ants, and no two are
the same packet.  From such a state a step has exactly the outcomes listed in
`Net.Stepped`.
-/

namespace AntAodv

open LoopErasure

section Handed

variable {K : Type}

@[simp]
theorem handed_append (early late : List (Op K)) :
    handed (early ++ late) = handed early ++ handed late :=
  List.filterMap_append

@[simp]
theorem handed_updates (next : NsAddr) (dests : List NsAddr) :
    handed (dests.map (Op.update (K := K) · next)) = [] := by
  simp [handed, List.filterMap_map]

theorem handed_tableUpdated [Arithmetic K] (sim : Sim) (c : Call K) (next : NsAddr)
    (dests : List NsAddr) : handed (c.tableUpdated sim next dests).log = handed c.log := by
  rw [Call.tableUpdated, handed_append,
    show handed (.updateTable :: dests.map (Op.update · next)) =
      handed (dests.map (Op.update (K := K) · next)) from rfl, handed_updates, List.append_nil]

end Handed

variable {K : Type}

structure Net.WellFormed (sim : Sim) (net : Net K) : Prop where
  addr : ∀ node, (net.agent node).addr = node
  ants : ∀ p ∈ net.flight, ForwardAnt sim p ∨ BackwardAnt sim p
  fresh : ∀ p ∈ net.flight, p.cmn.uid < net.uidcnt
  distinct : (net.flight.map fun p => p.cmn.uid).Nodup

/-- The event delivers a packet as it was sent, up to its `ttl`. -/
def Net.Unchanged (net : Net K) : Event K → Prop
  | .deliver index p _ _ => ∃ sent ttl, net.flight[index]? = some sent ∧ p = sent.withTtl ttl
  | _ => True

variable [Arithmetic K] [LinearOrder K] {sim : Sim} {medium : Medium K} {net net' : Net K}
  {event : Event K}

omit [Arithmetic K] [LinearOrder K] in
/-- A packet delivered unchanged is one of the two kinds of ant. -/
theorem Net.WellFormed.deliver_cases (wellFormed : net.WellFormed sim) {index : ℕ}
    {p : Packet K} {draws : List K} {junk : NsAddr}
    (unchanged : net.Unchanged (.deliver index p draws junk)) :
    ForwardAnt sim p ∨ BackwardAnt sim p := by
  obtain ⟨sent, ttl, found, rfl⟩ := unchanged
  rcases wellFormed.ants sent (List.mem_of_getElem? found) with forward | backward
  · apply Or.inl
    exact forward.withTtl ttl
  · apply Or.inr
    exact backward.withTtl ttl

omit [Arithmetic K] [LinearOrder K] in
theorem Net.WellFormed.forward_of_down (wellFormed : net.WellFormed sim) {index : ℕ}
    {p : Packet K} {draws : List K} {junk : NsAddr}
    (unchanged : net.Unchanged (.deliver index p draws junk)) (outward : p.cmn.direction = .down) :
    ForwardAnt sim p := by
  rcases wellFormed.deliver_cases unchanged with forward | backward
  · exact forward
  · exact absurd (outward.symm.trans backward.direction) (by simp)

theorem Medium.Faithful.unchanged (faithful : medium.Faithful)
    (enabled : net.Enabled sim medium event) : net.Unchanged event := by
  cases event with
  | deliver index p draws junk =>
      rcases enabled with ⟨⟨sent, inFlight, delivered⟩, _⟩
      rcases faithful sent p delivered with ⟨ttl, same⟩
      exact ⟨sent, ttl, inFlight, same⟩
  | _ => trivial

/-- The outcomes of a step from a well-formed network. -/
inductive Net.Stepped (sim : Sim) (net : Net K) : Event K → Net K → Prop where
  | tick (time : K) : Stepped sim net (.tick time) { net with clock := time }
  | start (addr : NsAddr) :
      Stepped sim net (.start addr) (net.finish addr ((net.call addr none [] [] 0).start sim))
  | stop (addr : NsAddr) :
      Stepped sim net (.stop addr) (net.finish addr (net.call addr none [] [] 0).stop)
  | timer {addr : NsAddr} {raws : List ℕ} {draws : List K} {junk : NsAddr} {c : Call K} :
      addr ∈ sim.nodes →
      net.ops sim (.timer addr raws draws junk) = c.log →
      Emitted sim (net.call addr none raws draws junk) c →
      Stepped sim net (.timer addr raws draws junk) (net.finish addr c)
  | deliver {index : ℕ} {sent : Packet K} {ttl : ℤ} {draws : List K} {junk : NsAddr}
      {c : Call K} :
      net.flight[index]? = some sent →
      sent.ip.daddr ∈ sim.nodes →
      net.ops sim (.deliver index (sent.withTtl ttl) draws junk) = c.log →
      Received sim (net.call sent.ip.daddr (some (sent.withTtl ttl)) [] draws junk)
        (sent.withTtl ttl) c →
      Stepped sim net (.deliver index (sent.withTtl ttl) draws junk)
        ((net.remove index).finish sent.ip.daddr c)
  | lose (index : ℕ) : Stepped sim net (.lose index) (net.remove index)

theorem Net.WellFormed.stepped (wellFormed : net.WellFormed sim)
    (enabled : net.Enabled sim medium event) (unchanged : net.Unchanged event)
    (returned : net.exec sim event = .ok net') : net.Stepped sim event net' := by
  cases event with
  | tick time => cases returned; exact .tick time
  | start addr => cases returned; exact .start addr
  | stop addr => cases returned; exact .stop addr
  | lose index => cases returned; exact .lose index
  | timer addr raws draws junk =>
      obtain ⟨c, sent, done⟩ := bind_eq_ok returned
      cases done
      exact .timer enabled.1 (by simp [Net.ops, Net.invoke, sent]) (Call.emitted sent)
  | deliver index p draws junk =>
      obtain ⟨c, received, done⟩ := bind_eq_ok returned
      cases done
      have here := wellFormed.addr p.ip.daddr
      have kinds := wellFormed.deliver_cases unchanged
      rcases unchanged with ⟨sent, ttl, inFlight, rfl⟩
      refine .deliver inFlight enabled.2.1 (by simp [Net.ops, Net.invoke, received]) ?_
      rcases kinds with forward | backward
      · exact forward.received rfl here received
      · exact backward.received rfl here received

omit [Arithmetic K] [LinearOrder K] in
/-- What holds of every agent, and of an agent after its call, holds of every agent
after the call. -/
theorem Net.forall_finish (holds : NsAddr → Antnet K → Prop) {addr : NsAddr} {c : Call K}
    (others : ∀ node, holds node (net.agent node)) (own : holds addr c.agent) (node : NsAddr) :
    holds node ((net.finish addr c).agent node) := by
  by_cases same : node = addr
  · subst same
    simpa [Net.finish] using own
  · simpa [Net.finish, same] using others node

/-! ### Every step keeps a network well formed -/

omit [LinearOrder K] in
theorem Net.WellFormed.initial (params : NsAddr → Params K) :
    (Net.initial params).WellFormed sim :=
  ⟨fun _ => rfl, by simp [Net.initial], by simp [Net.initial], by simp [Net.initial]⟩

omit [Arithmetic K] [LinearOrder K] in
theorem Net.WellFormed.remove (wellFormed : net.WellFormed sim) (index : ℕ) :
    (net.remove index).WellFormed sim where
  addr := wellFormed.addr
  ants p inFlight := wellFormed.ants p (List.mem_of_mem_eraseIdx inFlight)
  fresh p inFlight := wellFormed.fresh p (List.mem_of_mem_eraseIdx inFlight)
  distinct := wellFormed.distinct.sublist ((List.eraseIdx_sublist ..).map _)

omit [Arithmetic K] [LinearOrder K] in
/-- A call that hands nothing to its target. -/
theorem Net.WellFormed.finish (wellFormed : net.WellFormed sim) {addr : NsAddr} {c : Call K}
    (own : c.agent.addr = addr) (count : net.uidcnt ≤ c.uidcnt) (quiet : handed c.log = []) :
    (net.finish addr c).WellFormed sim where
  addr := net.forall_finish (fun node agent => agent.addr = node) wellFormed.addr own
  ants p inFlight := by
    simp only [Net.finish, quiet, List.append_nil] at inFlight
    exact wellFormed.ants p inFlight
  fresh p inFlight := by
    simp only [Net.finish, quiet, List.append_nil] at inFlight
    exact (wellFormed.fresh p inFlight).trans_le count
  distinct := by
    simp only [Net.finish, quiet, List.append_nil]
    exact wellFormed.distinct

omit [Arithmetic K] [LinearOrder K] in
/-- A call that hands an ant to its target, of an identity no other packet in
flight has. -/
theorem Net.WellFormed.finish_handed (wellFormed : net.WellFormed sim) {addr : NsAddr}
    {c : Call K} {p : Packet K} (own : c.agent.addr = addr) (count : net.uidcnt ≤ c.uidcnt)
    (sent : handed c.log = [p]) (ant : ForwardAnt sim p ∨ BackwardAnt sim p)
    (fresh : p.cmn.uid < c.uidcnt)
    (new : p.cmn.uid ∉ net.flight.map fun other => other.cmn.uid) :
    (net.finish addr c).WellFormed sim where
  addr := net.forall_finish (fun node agent => agent.addr = node) wellFormed.addr own
  ants other inFlight := by
    simp only [Net.finish, sent, List.mem_append, List.mem_singleton] at inFlight
    rcases inFlight with earlier | rfl
    · exact wellFormed.ants other earlier
    · exact ant
  fresh other inFlight := by
    simp only [Net.finish, sent, List.mem_append, List.mem_singleton] at inFlight
    rcases inFlight with earlier | rfl
    · exact (wellFormed.fresh other earlier).trans_le count
    · exact fresh
  distinct := by
    simp only [Net.finish, sent, List.map_append, List.map_cons, List.map_nil]
    rw [List.nodup_append]
    refine ⟨wellFormed.distinct, by simp, ?_⟩
    intro uid inFlight other same
    rw [List.mem_singleton.mp same]
    rintro rfl
    exact new inFlight

omit [Arithmetic K] [LinearOrder K] in
/-- The identity of a delivered packet is free again. -/
theorem Net.WellFormed.not_mem_remove (wellFormed : net.WellFormed sim) {index : ℕ}
    {sent : Packet K} (inFlight : net.flight[index]? = some sent) :
    sent.cmn.uid ∉ (net.remove index).flight.map fun other => other.cmn.uid := by
  obtain ⟨inside, rfl⟩ := List.getElem?_eq_some_iff.mp inFlight
  have order := ((List.getElem_cons_eraseIdx_perm inside).map
    fun other : Packet K => other.cmn.uid).nodup_iff.mpr wellFormed.distinct
  rw [List.map_cons, List.nodup_cons] at order
  exact order.1

theorem Net.WellFormed.deliver (wellFormed : net.WellFormed sim) {index : ℕ} {p : Packet K}
    {sent : Packet K} {draws : List K} {junk : NsAddr} {c : Call K}
    (inFlight : net.flight[index]? = some sent) (same : p.cmn.uid = sent.cmn.uid)
    (isNode : p.ip.daddr ∈ sim.nodes)
    (received : Received sim (net.call p.ip.daddr (some p) [] draws junk) p c) :
    ((net.remove index).finish p.ip.daddr c).WellFormed sim := by
  have own := wellFormed.addr p.ip.daddr
  have fresh : p.cmn.uid < net.uidcnt :=
    same ▸ wellFormed.fresh sent (List.mem_of_getElem? inFlight)
  have new := same ▸ wellFormed.not_mem_remove inFlight
  cases received with
  | turned ant arrived memorized path =>
      exact (wellFormed.remove index).finish_handed own le_rfl rfl
        (.inr (.turned ant memorized path isNode arrived)) fresh new
  | ended => exact (wellFormed.remove index).finish own le_rfl rfl
  | forwarded ant underway memorized _ _ hop _ =>
      exact (wellFormed.remove index).finish_handed own le_rfl rfl
        (.inl (ant.forwarded memorized isNode underway hop)) fresh new
  | home =>
      refine (wellFormed.remove index).finish own le_rfl ?_
      rw [handed_append, handed_tableUpdated]
      rfl
  | returned ant split =>
      refine (wellFormed.remove index).finish_handed own le_rfl ?_
        (.inr (ant.returned split)) fresh new
      rw [handed_append, handed_tableUpdated]
      rfl

theorem Net.WellFormed.step (wellFormed : net.WellFormed sim)
    (stepped : net.Stepped sim event net') : net'.WellFormed sim := by
  cases stepped with
  | tick => exact ⟨wellFormed.addr, wellFormed.ants, wellFormed.fresh, wellFormed.distinct⟩
  | start addr => exact wellFormed.finish (wellFormed.addr addr) le_rfl rfl
  | stop addr => exact wellFormed.finish (wellFormed.addr addr) le_rfl rfl
  | lose index => exact wellFormed.remove index
  | @timer addr raws draws junk c isNode _ emitted =>
      have own := wellFormed.addr addr
      cases emitted with
      | freed => exact wellFormed.finish own (Nat.le_succ _) rfl
      | @handed dest next result slots chosen _ _ hop =>
          refine wellFormed.finish_handed own (Nat.le_succ _) rfl (.inl ?_) (Nat.lt_succ_self _) ?_
          · refine ForwardAnt.sent slots ?_ (Call.calcDestination_ne chosen) hop
            rwa [show (net.call addr none raws draws junk).agent.addr = addr from own]
          · intro membership
            rcases List.mem_map.mp membership with ⟨other, inFlight, same⟩
            exact (wellFormed.fresh other inFlight).ne same
  | @deliver index sent ttl draws junk c inFlight isNode _ received =>
      exact wellFormed.deliver (p := sent.withTtl ttl) inFlight rfl isNode received

/-- The steps of `system` are steps of the network that deliver packets
unchanged. -/
def Unaltered (sim : Sim) (medium : Medium K) (system : TransitionSystem (Net K) (Event K)) :
    Prop :=
  ∀ net event net', system.step net event net' →
    net.Enabled sim medium event ∧ net.Unchanged event ∧ net.exec sim event = .ok net'

theorem Medium.Faithful.unaltered (faithful : medium.Faithful) (params : NsAddr → Params K) :
    Unaltered sim medium (network sim medium params) :=
  fun _ _ _ step => ⟨step.1, faithful.unchanged step.1, step.2⟩

theorem Unaltered.wellFormed {system : TransitionSystem (Net K) (Event K)}
    (unaltered : Unaltered sim medium system) {trace : List (Net K × Event K)}
    (run : system.Run net trace net') (wellFormed : net.WellFormed sim) :
    net'.WellFormed sim := by
  refine run.invariant (fun first event last holds step => ?_) wellFormed
  obtain ⟨enabled, unchanged, returned⟩ := unaltered _ _ _ step
  exact holds.step (holds.stepped enabled unchanged returned)

theorem Medium.Faithful.wellFormed (faithful : medium.Faithful) {params : NsAddr → Params K}
    (reached : (network sim medium params).Reachable net) : net.WellFormed sim := by
  rcases reached with ⟨_, _, rfl, run⟩
  exact (faithful.unaltered params).wellFormed run (.initial params)

/-! ### The flight before and after a step -/

omit [Arithmetic K] [LinearOrder K] in
/-- The identity of a packet in flight tells it from all others. -/
theorem Net.WellFormed.eq_of_uid (wellFormed : net.WellFormed sim) {p q : Packet K}
    (pInFlight : p ∈ net.flight) (qInFlight : q ∈ net.flight) (same : p.cmn.uid = q.cmn.uid) :
    p = q :=
  List.inj_on_of_nodup_map wellFormed.distinct pInFlight qInFlight same

/-- Where an ant in flight after a step comes from. -/
inductive Net.Source (sim : Sim) (net : Net K) (p : Packet K) : Event K → Prop where
  /-- It was in flight before, and the step concerned another one. -/
  | kept {event : Event K} :
      p ∈ net.flight →
      (∀ index q draws junk, event = .deliver index q draws junk → q.cmn.uid ≠ p.cmn.uid) →
      Source sim net p event
  | emitted {addr : NsAddr} {raws : List ℕ} {draws : List K} {junk : NsAddr}
      {dest next : NsAddr} {result : NextHop} :
      0 < sim.slots →
      addr ∈ sim.nodes →
      p = (net.call addr none raws draws junk).sentAnt sim dest next →
      Rtable.calcDestination sim net.globals.numNodes addr raws = some dest →
      .calcNext dest addr result ∈ net.ops sim (.timer addr raws draws junk) →
      Rtable.calcNext sim net.globals.n (net.agent addr).rtable addr dest addr draws = result →
      result.value junk = some next →
      next ≠ addr →
      Source sim net p (.timer addr raws draws junk)
  | passed {index : ℕ} {sent : Packet K} {ttl : ℤ} {draws : List K} {junk : NsAddr}
      {c : Call K} :
      net.flight[index]? = some sent →
      sent.ip.daddr ∈ sim.nodes →
      net.ops sim (.deliver index (sent.withTtl ttl) draws junk) = c.log →
      Received sim (net.call sent.ip.daddr (some (sent.withTtl ttl)) [] draws junk)
        (sent.withTtl ttl) c →
      p ∈ handed c.log →
      Source sim net p (.deliver index (sent.withTtl ttl) draws junk)

/-- A received ant is handed on at most once, as the same packet. -/
theorem Received.handed {c c' : Call K} {p : Packet K} (received : Received sim c p c')
    (quiet : handed c.log = []) :
    handed c'.log = [] ∨ ∃ q, handed c'.log = [q] ∧ q.cmn.uid = p.cmn.uid := by
  cases received with
  | @turned ah =>
      apply Or.inr
      exact ⟨turnedAnt { p with ant := ah } p.ip.daddr p.ip.saddr,
        by rw [handed_append, quiet]; rfl, rfl⟩
  | ended =>
      left
      rw [handed_append, quiet]
      rfl
  | @forwarded ah _ next =>
      apply Or.inr
      exact ⟨forwardedAnt { p with ant := ah } p.ip.daddr next,
        by rw [handed_append, quiet]; rfl, rfl⟩
  | home =>
      left
      rw [handed_append, handed_tableUpdated, quiet]
      rfl
  | @returned _ _ prev =>
      apply Or.inr
      exact ⟨returnedAnt p p.ip.daddr prev,
        by rw [handed_append, handed_tableUpdated, quiet]; rfl, rfl⟩

omit [Arithmetic K] [LinearOrder K] in
/-- The identities in flight are distinct, so that a packet of another identity
stays when one is removed. -/
theorem Net.WellFormed.mem_remove_iff (wellFormed : net.WellFormed sim) {index : ℕ}
    {sent : Packet K} (inFlight : net.flight[index]? = some sent) {p : Packet K} :
    p ∈ (net.remove index).flight ↔ p ∈ net.flight ∧ p.cmn.uid ≠ sent.cmn.uid := by
  have new := wellFormed.not_mem_remove inFlight
  obtain ⟨inside, rfl⟩ := List.getElem?_eq_some_iff.mp inFlight
  have order := List.getElem_cons_eraseIdx_perm inside
  constructor
  · intro membership
    refine ⟨List.mem_of_mem_eraseIdx membership, fun same => new ?_⟩
    exact List.mem_map.mpr ⟨p, membership, same⟩
  · rintro ⟨membership, different⟩
    rcases List.mem_cons.mp (order.mem_iff.mpr membership) with rfl | kept
    · exact absurd rfl different
    · exact kept

omit [Arithmetic K] [LinearOrder K] in
theorem Net.flight_finish {addr : NsAddr} {c : Call K} (quiet : handed c.log = []) :
    (net.finish addr c).flight = net.flight := by
  rw [Net.finish, quiet, List.append_nil]

theorem Net.Stepped.source (wellFormed : net.WellFormed sim)
    (stepped : net.Stepped sim event net') {p : Packet K} (inFlight : p ∈ net'.flight) :
    net.Source sim p event := by
  cases stepped with
  | tick => exact .kept inFlight (by rintro _ _ _ _ ⟨⟩)
  | start addr =>
      rw [Net.flight_finish rfl] at inFlight
      exact .kept inFlight (by rintro _ _ _ _ ⟨⟩)
  | stop addr =>
      rw [Net.flight_finish rfl] at inFlight
      exact .kept inFlight (by rintro _ _ _ _ ⟨⟩)
  | lose => exact .kept (List.mem_of_mem_eraseIdx inFlight) (by rintro _ _ _ _ ⟨⟩)
  | @timer addr raws draws junk c isNode logged emitted =>
      have own : (net.call addr none raws draws junk).agent.addr = addr := wellFormed.addr addr
      cases emitted with
      | freed =>
          rw [Net.flight_finish rfl] at inFlight
          exact .kept inFlight (by rintro _ _ _ _ ⟨⟩)
      | @handed dest next result slots chosen called value hop =>
          rw [own] at chosen called hop logged
          rcases List.mem_append.mp inFlight with earlier | new
          · exact .kept earlier (by rintro _ _ _ _ ⟨⟩)
          · exact .emitted slots isNode (List.mem_singleton.mp new) chosen
              (by rw [logged]; simp) called value hop
  | @deliver index sent ttl draws junk c delivered isNode logged received =>
      rcases List.mem_append.mp inFlight with earlier | new
      · have other := (wellFormed.mem_remove_iff delivered).mp earlier
        refine .kept other.1 fun _ q _ _ same => ?_
        cases same
        exact other.2.symm
      · exact .passed delivered isNode logged received new

/-- An ant stays in flight as long as it is neither delivered nor lost. -/
theorem Net.Stepped.stays (wellFormed : net.WellFormed sim)
    (stepped : net.Stepped sim event net') {p : Packet K} (inFlight : p ∈ net.flight)
    (undelivered : ∀ index q draws junk, event = .deliver index q draws junk →
      q.cmn.uid ≠ p.cmn.uid)
    (kept : ∀ index, event = .lose index → net.flight[index]? ≠ some p) :
    p ∈ net'.flight := by
  cases stepped with
  | tick => exact inFlight
  | start | stop | timer => exact List.mem_append_left _ inFlight
  | lose index =>
      rcases List.getElem_of_mem inFlight with ⟨place, inside, rfl⟩
      refine List.mem_eraseIdx_iff_getElem.mpr ⟨place, inside, ?_, rfl⟩
      rintro rfl
      exact kept place rfl (List.getElem?_eq_getElem inside)
  | deliver delivered =>
      apply List.mem_append_left
      exact (wellFormed.mem_remove_iff delivered).mpr
        ⟨inFlight, (undelivered _ _ _ _ rfl).symm⟩

end AntAodv
