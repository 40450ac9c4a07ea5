import AntAodv.Network.WellFormed

/-!
# The history of an ant

Every packet is known by its identity.  A run tells which agent emitted an ant
and who has received it since; an ant that is still on its way out has been
received as a forward ant only, and away from its destination.
-/

namespace AntAodv

open LoopErasure

variable {K : Type}

/-- The packet an event delivers. -/
def Event.delivered : Event K → Option (Packet K)
  | .deliver _ p _ _ => some p
  | _ => none

/-- The deliveries of the packet `uid` in a run, in order. -/
def deliveries (uid : ℕ) (trace : List (Net K × Event K)) : List (Packet K) :=
  (trace.filterMap fun entry => entry.2.delivered).filter fun p => p.cmn.uid = uid

theorem deliveries_append (uid : ℕ) (early late : List (Net K × Event K)) :
    deliveries uid (early ++ late) = deliveries uid early ++ deliveries uid late := by
  simp [deliveries]

/-- The agents that handle the packet `uid` in a run, in order. -/
def handlers (uid : ℕ) (trace : List (Net K × Event K)) : List NsAddr :=
  (deliveries uid trace).map fun p => p.ip.daddr

theorem handlers_append (uid : ℕ) (early late : List (Net K × Event K)) :
    handlers uid (early ++ late) = handlers uid early ++ handlers uid late := by
  simp [handlers, deliveries_append]

theorem handlers_delivered {net : Net K} {event : Event K} {p : Packet K}
    (delivered : event.delivered = some p) :
    handlers p.cmn.uid [(net, event)] = [p.ip.daddr] := by
  simp [handlers, deliveries, delivered]

theorem handlers_other {uid : ℕ} {net : Net K} {event : Event K}
    (other : ∀ p, event.delivered = some p → p.cmn.uid ≠ uid) :
    handlers uid [(net, event)] = [] := by
  cases delivered : event.delivered with
  | none => simp [handlers, deliveries, delivered]
  | some p => simp [handlers, deliveries, delivered, other p delivered]

/-- The packet `uid` is lost in a run. -/
def Lost (uid : ℕ) (trace : List (Net K × Event K)) : Prop :=
  ∃ net index p, (net, .lose index) ∈ trace ∧ net.flight[index]? = some p ∧ p.cmn.uid = uid

/-- All agents have the same routing tables in both states. -/
def Net.SameTables (net net' : Net K) : Prop :=
  ∀ node, (net'.agent node).rtable = (net.agent node).rtable

variable [Arithmetic K] [LinearOrder K]

/-- An ant was received on its way out, not yet at its destination. -/
structure Passage (sim : Sim) (net : Net K) (event : Event K) (p : Packet K) : Prop where
  forward : ForwardAnt sim p
  underway : p.ip.daddr ≠ p.ant.pktDst
  forwarded : .createBackwardAntPkt ∉ net.ops sim event
  tables : ∃ net', net.exec sim event = .ok net' ∧ net.SameTables net'

/-- The agent of `addr` emitted the packet `uid` in a run, without any change to a
routing table. -/
def EmittedBy (sim : Sim) (trace : List (Net K × Event K)) (uid : ℕ) (addr : NsAddr) : Prop :=
  ∃ net raws draws junk, (net, .timer addr raws draws junk) ∈ trace ∧ net.uidcnt = uid ∧
    ∃ net', net.exec sim (.timer addr raws draws junk) = .ok net' ∧ net.SameTables net'

/-- What a run says about the ants still in flight at its end. -/
structure History (sim : Sim) (trace : List (Net K × Event K)) (net : Net K) : Prop where
  /-- Packets not allocated yet were never delivered. -/
  known : ∀ uid, net.uidcnt ≤ uid → deliveries uid trace = []
  emitted : ∀ p ∈ net.flight, ∃ addr, EmittedBy sim trace p.cmn.uid addr ∧
    p.ant.path.head? = some addr
  outward : ∀ p ∈ net.flight, ForwardAnt sim p → ∀ first event q, (first, event) ∈ trace →
    event.delivered = some q → q.cmn.uid = p.cmn.uid → Passage sim first event q
  homeward : ∀ p ∈ net.flight, BackwardAnt sim p → ∃ first event q, (first, event) ∈ trace ∧
    event.delivered = some q ∧ q.cmn.uid = p.cmn.uid ∧ q.ip.daddr = q.ant.pktDst ∧
      .createBackwardAntPkt ∈ first.ops sim event

variable {sim : Sim} {medium : Medium K} {net net' : Net K} {event : Event K}
  {trace : List (Net K × Event K)}

omit [Arithmetic K] [LinearOrder K] in
/-- A packet delivered unchanged is in flight, but for its `ttl`. -/
theorem Net.Unchanged.inFlight {p : Packet K} (unchanged : net.Unchanged event)
    (delivered : event.delivered = some p) : ∃ ttl, p.withTtl ttl ∈ net.flight := by
  cases event with
  | deliver index q draws junk =>
      cases delivered
      obtain ⟨sent, ttl, found, rfl⟩ := unchanged
      exact ⟨sent.ip.ttl, List.mem_of_getElem? found⟩
  | _ => cases delivered

omit [Arithmetic K] [LinearOrder K] in
theorem mem_deliveries {first : Net K} {p : Packet K} (occurred : (first, event) ∈ trace)
    (delivered : event.delivered = some p) : p ∈ deliveries p.cmn.uid trace := by
  simp only [deliveries, List.mem_filter, List.mem_filterMap, decide_true, and_true]
  exact ⟨_, occurred, delivered⟩

omit [Arithmetic K] [LinearOrder K] in
theorem ForwardAnt.not_backward {p : Packet K} (ant : ForwardAnt sim p) : ¬ BackwardAnt sim p := by
  intro backward
  have direction := backward.direction
  rw [ant.direction] at direction
  cases direction

theorem Net.Stepped.uidcnt_le (stepped : net.Stepped sim event net') :
    net.uidcnt ≤ net'.uidcnt := by
  cases stepped with
  | tick | start | stop | lose => exact le_rfl
  | timer _ _ emitted => cases emitted <;> exact Nat.le_succ _
  | deliver _ _ _ received => cases received <;> exact le_rfl

/-- An ant handed on by a receiver has the same source as before. -/
theorem Received.head {c c' : Call K} {p q : Packet K} (received : Received sim c p c')
    (quiet : AntAodv.handed c.log = []) (sent : q ∈ AntAodv.handed c'.log) :
    q.ant.path.head? = p.ant.path.head? := by
  cases received with
  | @turned ah ant arrived memorized path =>
      rw [handed_append, quiet] at sent
      rw [List.mem_singleton.mp sent]
      change ah.path.head? = _
      rw [path, List.head?_append_of_ne_nil _ (HdrAntPkt.path_ne_nil ant.head)]
  | ended =>
      rw [handed_append, quiet] at sent
      cases sent
  | @forwarded ah _ _ ant _ memorized =>
      rw [handed_append, quiet] at sent
      rw [List.mem_singleton.mp sent]
      change ah.path.head? = _
      rw [memorized.path, head?_visit (HdrAntPkt.path_ne_nil ant.head)]
  | home =>
      rw [handed_append, handed_tableUpdated, quiet] at sent
      cases sent
  | returned =>
      rw [handed_append, handed_tableUpdated, quiet] at sent
      rw [List.mem_singleton.mp sent]
      rfl

theorem Received.uid {c c' : Call K} {p q : Packet K} (received : Received sim c p c')
    (quiet : AntAodv.handed c.log = []) (sent : q ∈ AntAodv.handed c'.log) :
    q.cmn.uid = p.cmn.uid := by
  rcases received.handed quiet with none | ⟨other, one, same⟩
  · rw [none] at sent
    cases sent
  · rw [one] at sent
    rw [List.mem_singleton.mp sent]
    exact same

/-- Only a forward ant that is still under way is handed on as a forward ant. -/
theorem Received.outward {c c' : Call K} {p q : Packet K} (received : Received sim c p c')
    (quiet : c.log = []) (sent : q ∈ AntAodv.handed c'.log) (forward : ForwardAnt sim q) :
    ForwardAnt sim p ∧ p.ip.daddr ≠ p.ant.pktDst ∧ .createBackwardAntPkt ∉ c'.log := by
  cases received with
  | turned =>
      rw [handed_append, quiet] at sent
      rw [List.mem_singleton.mp sent] at forward
      cases forward.direction
  | ended ant underway => exact ⟨ant, underway, by simp [quiet]⟩
  | forwarded ant underway => exact ⟨ant, underway, by simp [quiet]⟩
  | home =>
      rw [handed_append, handed_tableUpdated, quiet] at sent
      cases sent
  | returned =>
      rw [handed_append, handed_tableUpdated, quiet] at sent
      rw [List.mem_singleton.mp sent] at forward
      cases forward.direction

/-- A backward ant handed on was a backward ant before, or has just been turned
round. -/
theorem Received.homeward {c c' : Call K} {p q : Packet K} (received : Received sim c p c')
    (quiet : c.log = []) (sent : q ∈ AntAodv.handed c'.log) (backward : BackwardAnt sim q) :
    BackwardAnt sim p ∨ p.ip.daddr = p.ant.pktDst ∧ .createBackwardAntPkt ∈ c'.log := by
  cases received with
  | turned _ arrived => exact .inr ⟨arrived, by simp⟩
  | ended =>
      rw [handed_append, quiet] at sent
      cases sent
  | forwarded ant =>
      rw [handed_append, quiet] at sent
      have direction := backward.direction
      rw [List.mem_singleton.mp sent] at direction
      exact absurd (ant.direction.symm.trans direction) (by simp)
  | home ant => exact .inl ant
  | returned ant => exact .inl ant

omit [Arithmetic K] [LinearOrder K] in
theorem Net.finish_agent {addr : NsAddr} {c : Call K} (same : c.agent = net.agent addr) :
    (net.finish addr c).agent = net.agent := by
  rw [Net.finish, same, Function.update_eq_self]

/-- A forward ant changes no routing table. -/
theorem Received.same_agent {c c' : Call K} {p : Packet K} (received : Received sim c p c')
    (forward : ForwardAnt sim p) : c'.agent = c.agent := by
  cases received with
  | turned | ended | forwarded => rfl
  | home backward | returned backward => exact absurd backward forward.not_backward

theorem Net.Stepped.timer_sameTables {addr : NsAddr} {raws : List ℕ} {draws : List K}
    {junk : NsAddr} (stepped : net.Stepped sim (.timer addr raws draws junk) net') :
    net.SameTables net' := by
  cases stepped with
  | timer _ _ emitted =>
      exact net.forall_finish (fun node agent => agent.rtable = (net.agent node).rtable)
        (fun _ => rfl) (by cases emitted <;> rfl)

theorem EmittedBy.append_left {uid : ℕ} {addr : NsAddr} (emitted : EmittedBy sim trace uid addr)
    (late : List (Net K × Event K)) : EmittedBy sim (trace ++ late) uid addr := by
  obtain ⟨first, raws, draws, junk, occurred, rest⟩ := emitted
  exact ⟨first, raws, draws, junk, List.mem_append_left _ occurred, rest⟩

theorem Net.Stepped.sameTables {index : ℕ} {p : Packet K} {draws : List K} {junk : NsAddr}
    (stepped : net.Stepped sim (.deliver index p draws junk) net') (forward : ForwardAnt sim p) :
    net.SameTables net' := by
  cases stepped with
  | deliver _ _ _ received =>
      intro node
      rw [(net.remove index).finish_agent (received.same_agent forward)]
      rfl

theorem History.initial (params : NsAddr → Params K) : History sim [] (Net.initial params) :=
  ⟨fun _ _ => rfl, by simp [Net.initial], by simp [Net.initial], by simp [Net.initial]⟩

/-! ### Every step keeps the history -/

theorem History.undelivered (history : History sim trace net) (wellFormed : net.WellFormed sim)
    (stepped : net.Stepped sim event net') {uid : ℕ} (unknown : net.uidcnt ≤ uid) :
    deliveries uid (trace ++ [(net, event)]) = [] := by
  rw [deliveries_append, history.known uid unknown, List.nil_append]
  cases stepped with
  | @deliver _ sent _ _ _ _ inFlight =>
      have fresh := wellFormed.fresh _ (List.mem_of_getElem? inFlight)
      have other : sent.cmn.uid ≠ uid := by omega
      apply List.filter_eq_nil_iff.mpr
      simpa [Event.delivered, Packet.withTtl] using other
  | _ => rfl

theorem History.step_emitted (history : History sim trace net) (wellFormed : net.WellFormed sim)
    (stepped : net.Stepped sim event net') (returned : net.exec sim event = .ok net')
    {p : Packet K} (inFlight : p ∈ net'.flight) :
    ∃ addr, EmittedBy sim (trace ++ [(net, event)]) p.cmn.uid addr ∧
      p.ant.path.head? = some addr := by
  cases stepped.source wellFormed inFlight with
  | kept earlier =>
      obtain ⟨addr, emitted, head⟩ := history.emitted p earlier
      exact ⟨addr, emitted.append_left _, head⟩
  | @emitted addr raws draws junk dest next _ slots _ same =>
      have own : (net.call addr none raws draws junk).agent.addr = addr := wellFormed.addr addr
      refine ⟨addr, ⟨net, raws, draws, junk, by simp, by rw [same]; rfl, net', returned,
        stepped.timer_sameTables⟩, ?_⟩
      rw [same, Call.path_sentAnt slots, own, List.head?_cons]
  | passed delivered _ _ received sent =>
      obtain ⟨addr, emitted, head⟩ := history.emitted _ (List.mem_of_getElem? delivered)
      refine ⟨addr, ?_, ?_⟩
      · rw [received.uid rfl sent]
        exact emitted.append_left _
      · rw [received.head rfl sent]
        exact head

/-- A forward ant in flight after a step was on its way out at all its deliveries
before. -/
theorem History.step_outward (history : History sim trace net) (wellFormed : net.WellFormed sim)
    (stepped : net.Stepped sim event net') {p : Packet K} (inFlight : p ∈ net'.flight)
    (forward : ForwardAnt sim p) {first : Net K} {earlier : Event K} {q : Packet K}
    (before : (first, earlier) ∈ trace) (isDelivered : earlier.delivered = some q)
    (same : q.cmn.uid = p.cmn.uid) : Passage sim first earlier q := by
  cases stepped.source wellFormed inFlight with
  | kept stayed => exact history.outward p stayed forward first earlier q before isDelivered same
  | emitted _ _ new =>
      have unknown := history.known p.cmn.uid (by rw [new]; exact le_rfl)
      rw [← same] at unknown
      exact absurd (mem_deliveries before isDelivered) (by simp [unknown])
  | passed delivered _ _ received sent =>
      have ant := (received.outward rfl sent forward).1
      exact history.outward _ (List.mem_of_getElem? delivered) (ant.withTtl _) first earlier q
        before isDelivered (same.trans (received.uid rfl sent))

/-- So it was at the delivery the step made. -/
theorem Net.Stepped.outward (stepped : net.Stepped sim event net')
    (returned : net.exec sim event = .ok net') (wellFormed : net.WellFormed sim) {p q : Packet K}
    (inFlight : p ∈ net'.flight) (forward : ForwardAnt sim p)
    (isDelivered : event.delivered = some q) (same : q.cmn.uid = p.cmn.uid) :
    Passage sim net event q := by
  cases stepped.source wellFormed inFlight with
  | kept _ other =>
      cases event with
      | deliver index p' draws junk =>
          cases isDelivered
          exact absurd same (other _ _ _ _ rfl)
      | _ => cases isDelivered
  | emitted => cases isDelivered
  | passed delivered _ logged received sent =>
      cases isDelivered
      obtain ⟨ant, underway, notTurned⟩ := received.outward rfl sent forward
      exact ⟨ant, underway, by rw [logged]; exact notTurned, net', returned,
        stepped.sameTables ant⟩

theorem History.step_homeward (history : History sim trace net) (wellFormed : net.WellFormed sim)
    (stepped : net.Stepped sim event net') {p : Packet K} (inFlight : p ∈ net'.flight)
    (backward : BackwardAnt sim p) :
    ∃ first earlier q, (first, earlier) ∈ trace ++ [(net, event)] ∧
      earlier.delivered = some q ∧ q.cmn.uid = p.cmn.uid ∧ q.ip.daddr = q.ant.pktDst ∧
        .createBackwardAntPkt ∈ first.ops sim earlier := by
  cases stepped.source wellFormed inFlight with
  | kept stayed =>
      obtain ⟨first, earlier, q, occurred, turned⟩ := history.homeward p stayed backward
      exact ⟨first, earlier, q, List.mem_append_left _ occurred, turned⟩
  | emitted _ _ new =>
      rw [new] at backward
      cases backward.direction
  | @passed index sent ttl draws junk c delivered _ logged received handedOn =>
      rcases received.homeward rfl handedOn backward with before | ⟨arrived, turned⟩
      · obtain ⟨first, earlier, q, occurred, isDelivered, same, rest⟩ :=
          history.homeward _ (List.mem_of_getElem? delivered) (before.withTtl _)
        exact ⟨first, earlier, q, List.mem_append_left _ occurred, isDelivered,
          same.trans (received.uid rfl handedOn).symm, rest⟩
      · have now : (net, .deliver index (sent.withTtl ttl) draws junk) ∈
            trace ++ [(net, .deliver index (sent.withTtl ttl) draws junk)] := by simp
        exact ⟨net, _, _, now, rfl, (received.uid rfl handedOn).symm, arrived,
          by rw [logged]; exact turned⟩

theorem History.step (history : History sim trace net) (wellFormed : net.WellFormed sim)
    (stepped : net.Stepped sim event net') (returned : net.exec sim event = .ok net') :
    History sim (trace ++ [(net, event)]) net' where
  known uid unknown := history.undelivered wellFormed stepped (stepped.uidcnt_le.trans unknown)
  emitted p inFlight := history.step_emitted wellFormed stepped returned inFlight
  outward p inFlight forward first earlier q occurred isDelivered same := by
    rcases List.mem_append.mp occurred with before | now
    · exact history.step_outward wellFormed stepped inFlight forward before isDelivered same
    · cases List.mem_singleton.mp now
      exact stepped.outward returned wellFormed inFlight forward isDelivered same
  homeward p inFlight backward := history.step_homeward wellFormed stepped inFlight backward

/-- What a run whose steps deliver packets unchanged says about its ants. -/
theorem Unaltered.history {system : TransitionSystem (Net K) (Event K)}
    (unaltered : Unaltered sim medium system) {params : NsAddr → Params K}
    (run : system.Run (Net.initial params) trace net) :
    net.WellFormed sim ∧ History sim trace net := by
  induction run with
  | refl => exact ⟨.initial params, .initial params⟩
  | snoc _ step inductionHypothesis =>
      obtain ⟨wellFormed, history⟩ := inductionHypothesis
      obtain ⟨enabled, unchanged, returned⟩ := unaltered _ _ _ step
      have stepped := wellFormed.stepped enabled unchanged returned
      exact ⟨wellFormed.step stepped, history.step wellFormed stepped returned⟩

end AntAodv
