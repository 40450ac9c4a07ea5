import AntAodv.Network.Pheromone
import AntAodv.Network.Return

/-!
# The time to live

The `ttl` of an ant is set once and pays for every link of both its phases.  A
backward ant gets home exactly when enough of it is left at the turn.
-/

namespace AntAodv

/-- Links that lower the `ttl` of a packet by one and discard it when the result is
not positive. -/
def Medium.ttlChecker (K : Type) : Medium K where
  delivers sent p := p = sent.withTtl (sent.ip.ttl - 1) ∧ 0 < sent.ip.ttl - 1
  loses sent := sent.ip.ttl - 1 ≤ 0

instance {K : Type} [DecidableEq K] (sent p : Packet K) :
    Decidable ((Medium.ttlChecker K).delivers sent p) :=
  inferInstanceAs (Decidable (p = sent.withTtl (sent.ip.ttl - 1) ∧ 0 < sent.ip.ttl - 1))

instance {K : Type} (sent : Packet K) : Decidable ((Medium.ttlChecker K).loses sent) :=
  inferInstanceAs (Decidable (sent.ip.ttl - 1 ≤ 0))

theorem Medium.ttlChecker_faithful (K : Type) : (Medium.ttlChecker K).Faithful :=
  fun sent _ delivered => ⟨sent.ip.ttl - 1, delivered.1⟩

variable {K : Type} [Arithmetic K] [LinearOrder K]

/-- In a run of agents with `count` nodes each, every ant has two units of `ttl` a
node, less one for each time it was delivered. -/
structure TtlCounted (count : ℤ) (trace : List (Net K × Event K)) (net : Net K) : Prop where
  nodes : ∀ node, (net.agent node).numNodes = count
  shared : ∀ node, (net.agent node).timerPending = true → net.globals.numNodes = count
  ttl : ∀ p ∈ net.flight, p.ip.ttl = 2 * count - (handlers p.cmn.uid trace).length
  /-- No delivery leaves an ant without `ttl`. -/
  positive : ∀ uid, handlers uid trace ≠ [] → (handlers uid trace).length < 2 * count

variable {sim : Sim} {net net' : Net K} {event : Event K} {trace : List (Net K × Event K)}
  {count : ℤ}

omit [LinearOrder K] in
theorem TtlCounted.initial {params : NsAddr → Params K}
    (nodes : ∀ node, (params node).numNodes = count) :
    TtlCounted count [] (Net.initial params) :=
  ⟨nodes, by simp [Net.initial], by simp [Net.initial], fun _ handled => absurd rfl handled⟩

/-- A received ant is handed on with the `ttl` it has. -/
theorem Received.ttl {c c' : Call K} {p q : Packet K} (received : Received sim c p c')
    (quiet : AntAodv.handed c.log = []) (sent : q ∈ AntAodv.handed c'.log) :
    q.ip.ttl = p.ip.ttl := by
  cases received with
  | turned | forwarded =>
      rw [handed_append, quiet] at sent
      cases List.mem_singleton.mp sent
      rfl
  | ended =>
      rw [handed_append, quiet] at sent
      cases sent
  | home =>
      rw [handed_append, handed_tableUpdated, quiet] at sent
      cases sent
  | returned =>
      rw [handed_append, handed_tableUpdated, quiet] at sent
      cases List.mem_singleton.mp sent
      rfl

/-- Whoever sends ants was started, and has set `NUM_NODES` to the common count. -/
theorem TtlCounted.step_nodes (counted : TtlCounted count trace net)
    (stepped : net.Stepped sim event net') :
    (∀ node, (net'.agent node).numNodes = count) ∧
      ∀ node, (net'.agent node).timerPending = true → net'.globals.numNodes = count := by
  have finished := fun {after : Net K} {addr : NsAddr} {c : Call K} =>
    @Net.forall_finish K after (fun _ agent => agent.numNodes = count) addr c
  have idle := fun {after : Net K} {addr : NsAddr} {c : Call K} =>
    @Net.forall_finish K after (fun _ agent => agent.timerPending = true →
      net.globals.numNodes = count) addr c
  cases stepped with
  | tick | lose => exact ⟨counted.nodes, counted.shared⟩
  | start addr => exact ⟨finished counted.nodes (counted.nodes addr), fun _ _ => counted.nodes addr⟩
  | stop addr =>
      exact ⟨finished counted.nodes (counted.nodes addr),
        idle counted.shared fun pending => by cases pending⟩
  | @timer addr _ _ _ _ _ _ emitted =>
      cases emitted <;> exact ⟨finished counted.nodes (counted.nodes addr),
        idle counted.shared (counted.shared addr)⟩
  | @deliver index sent _ _ _ _ _ _ _ received =>
      cases received <;> exact ⟨finished counted.nodes (counted.nodes sent.ip.daddr),
        idle counted.shared (counted.shared sent.ip.daddr)⟩

theorem TtlCounted.step_ttl (counted : TtlCounted count trace net) (history : History sim trace net)
    (wellFormed : net.WellFormed sim) (enabled : net.Enabled sim (.ttlChecker K) event)
    (stepped : net.Stepped sim event net') {p : Packet K} (inFlight : p ∈ net'.flight) :
    p.ip.ttl = 2 * count - (handlers p.cmn.uid (trace ++ [(net, event)])).length := by
  rw [handlers_append]
  cases stepped.source wellFormed inFlight with
  | kept earlier other =>
      rw [handlers_other, List.append_nil]
      · exact counted.ttl p earlier
      · intro q delivered
        cases event with
        | deliver index q' draws junk =>
            cases delivered
            exact other _ _ _ _ rfl
        | _ => cases delivered
  | @emitted addr raws draws junk dest next _ _ _ new =>
      have fresh : handlers net.uidcnt trace = [] := by
        rw [handlers, history.known _ le_rfl, List.map_nil]
      have pending := counted.shared addr enabled.2.1
      rw [new]
      change 2 * net.globals.numNodes = 2 * count - ((handlers net.uidcnt trace ++ []).length : ℤ)
      rw [pending, fresh]
      simp
  | @passed index sent ttl draws junk c found _ _ received handedOn =>
      obtain ⟨⟨other, inFlight, delivered, _⟩, _⟩ := enabled
      cases Option.some.inj (found.symm.trans inFlight)
      have before := counted.ttl sent (List.mem_of_getElem? found)
      have lowered : ttl = sent.ip.ttl - 1 := congrArg (fun p : Packet K => p.ip.ttl) delivered
      have handles : handlers sent.cmn.uid [(net, .deliver index (sent.withTtl ttl) draws junk)] =
          [sent.ip.daddr] := handlers_delivered (p := sent.withTtl ttl) rfl
      have uid : p.cmn.uid = sent.cmn.uid := received.uid rfl handedOn
      rw [received.ttl rfl handedOn, uid, handles, List.length_append, List.length_singleton]
      change ttl = _
      push_cast
      omega

theorem TtlCounted.step_positive (counted : TtlCounted count trace net)
    (enabled : net.Enabled sim (.ttlChecker K) event) {uid : ℕ}
    (handled : handlers uid (trace ++ [(net, event)]) ≠ []) :
    (handlers uid (trace ++ [(net, event)])).length < 2 * count := by
  rw [handlers_append] at handled ⊢
  by_cases now : ∃ p, event.delivered = some p ∧ p.cmn.uid = uid
  · obtain ⟨p, delivered, rfl⟩ := now
    rw [handlers_delivered delivered, List.length_append, List.length_singleton]
    cases event with
    | deliver index q draws junk =>
        cases delivered
        obtain ⟨⟨sent, inFlight, rfl, left⟩, _⟩ := enabled
        have before := counted.ttl sent (List.mem_of_getElem? inFlight)
        change (((handlers sent.cmn.uid trace).length + 1 : ℕ) : ℤ) < 2 * count
        push_cast
        omega
    | _ => cases delivered
  · rw [not_exists] at now
    rw [handlers_other fun p delivered same => now p ⟨delivered, same⟩, List.append_nil] at handled ⊢
    exact counted.positive uid handled

theorem TtlCounted.step (counted : TtlCounted count trace net) (history : History sim trace net)
    (wellFormed : net.WellFormed sim) (enabled : net.Enabled sim (.ttlChecker K) event)
    (stepped : net.Stepped sim event net') :
    TtlCounted count (trace ++ [(net, event)]) net' where
  nodes := (counted.step_nodes stepped).1
  shared := (counted.step_nodes stepped).2
  ttl _ inFlight := counted.step_ttl history wellFormed enabled stepped inFlight
  positive _ handled := counted.step_positive enabled handled

theorem ttlCounted_of_run {params : NsAddr → Params K}
    (nodes : ∀ node, (params node).numNodes = count)
    (run : (network sim (.ttlChecker K) params).Run (Net.initial params) trace net) :
    TtlCounted count trace net := by
  induction run with
  | refl => exact .initial nodes
  | snoc run step inductionHypothesis =>
      have faithful := Medium.ttlChecker_faithful K
      obtain ⟨wellFormed, history⟩ := (faithful.unaltered params).history run
      exact inductionHypothesis.step history wellFormed step.1
        (wellFormed.stepped step.1 (faithful.unchanged step.1) step.2)

/-- The packet `uid` with `route` in memory is on its way home after the run `trace`:
it was not lost, and it has either visited all of its route or can be delivered to
the next node there, which handles it. -/
structure Advancing (sim : Sim) (route : List NsAddr) (uid : ℕ) (trace : List (Net K × Event K))
    (net : Net K) : Prop where
  kept : ¬ Lost uid trace
  next : handlers uid trace = route.dropLast.reverse ∨
    (handlers uid trace).length < route.length - 1 ∧
      ∃ index p net', p.cmn.uid = uid ∧
        net.Enabled sim (.ttlChecker K) (.deliver index p [] 0) ∧
        net.exec sim (.deliver index p [] 0) = .ok net'

omit [Arithmetic K] [LinearOrder K] in
/-- With `ttl` for the whole way home left at the turn, some is left on every link. -/
theorem Whereabouts.left {route : List NsAddr} {uid : ℕ} {before : List (Net K × Event K)}
    (whereabouts : Whereabouts sim route uid trace net) (wellFormed : net.WellFormed sim)
    (counted : TtlCounted count (before ++ trace) net)
    (enough : (handlers uid before).length + ((route.length : ℤ) - 1) < 2 * count) {p : Packet K}
    (inFlight : p ∈ net.flight) (same : p.cmn.uid = uid) :
    BackwardAnt sim p ∧ (handlers uid trace).length < route.length - 1 ∧ 0 < p.ip.ttl - 1 := by
  cases whereabouts with
  | home absent | lost _ absent => exact absurd same (absent p inFlight)
  | @underway q place known isUid ant path here handled =>
      cases wellFormed.eq_of_uid inFlight known (same.trans isUid.symm)
      have ttl := counted.ttl p inFlight
      rw [same, handlers_append, List.length_append] at ttl
      have inside := (List.getElem?_eq_some_iff.mp here).1
      have length := congrArg List.length handled
      simp only [List.length_append, List.length_reverse, List.length_take,
        List.length_dropLast] at length
      refine ⟨ant, by omega, ?_⟩
      push_cast at ttl
      omega

theorem Whereabouts.advancing {route : List NsAddr} {uid : ℕ} {before : List (Net K × Event K)}
    (whereabouts : Whereabouts sim route uid trace net) (wellFormed : net.WellFormed sim)
    (counted : TtlCounted count (before ++ trace) net) (kept : ¬ Lost uid trace)
    (enough : (handlers uid before).length + ((route.length : ℤ) - 1) < 2 * count) :
    Advancing sim route uid trace net := by
  refine ⟨kept, ?_⟩
  cases whereabouts with
  | home _ complete => exact .inl complete
  | lost lost => exact absurd lost kept
  | @underway p place inFlight same ant path here handled =>
      have still : Whereabouts sim route uid trace net :=
        .underway inFlight same ant path here handled
      obtain ⟨_, short, left⟩ := still.left wellFormed counted enough inFlight same
      obtain ⟨index, inside, found⟩ := List.getElem_of_mem inFlight
      obtain ⟨c, received⟩ := (ant.withTtl (p.ip.ttl - 1)).not_refused
        (c := net.call p.ip.daddr (some (p.withTtl (p.ip.ttl - 1))) [] [] 0) rfl
        (wellFormed.addr _)
      apply Or.inr
      refine ⟨short, index, p.withTtl (p.ip.ttl - 1), _, same,
        ⟨⟨p, ?_, rfl, left⟩, ?_, ?_⟩, Net.exec_deliver received⟩
      · rw [List.getElem?_eq_getElem inside, found]
      · exact ant.visited _ (path ▸ List.mem_of_getElem? here)
      · simp [Net.Uniform]

/-- No link discards an ant that had `ttl` for the whole way home at the turn. -/
theorem not_lost_of_run {params : NsAddr → Params K} {route : List NsAddr} {uid : ℕ}
    {before : List (Net K × Event K)} {turned : Net K}
    (nodes : ∀ node, (params node).numNodes = count)
    (run : (network sim (.ttlChecker K) params).Run (Net.initial params) before turned)
    (used : uid < turned.uidcnt) (begins : Whereabouts sim route uid [] turned)
    (enough : (handlers uid before).length + ((route.length : ℤ) - 1) < 2 * count)
    (later : (network sim (.ttlChecker K) params).Run turned trace net) : ¬ Lost uid trace := by
  have faithful := Medium.ttlChecker_faithful K
  have wellFormed := ((faithful.unaltered params).history run).1
  induction later with
  | refl =>
      rintro ⟨_, _, _, occurred, _⟩
      cases occurred
  | @snoc middle last trace event later step inductionHypothesis =>
      rintro ⟨first, index, p, occurred, found, same⟩
      rcases List.mem_append.mp occurred with earlier | now
      · exact inductionHypothesis ⟨first, index, p, earlier, found, same⟩
      · cases List.mem_singleton.mp now
        obtain ⟨well, _, homeward⟩ := Whereabouts.run faithful wellFormed used begins later
        have counted := ttlCounted_of_run nodes (run.trans later)
        have left := (homeward.whereabouts.left well counted enough
          (List.mem_of_getElem? found) same).2.2
        obtain ⟨lost, isFound, spent⟩ := step.1
        cases Option.some.inj (found.symm.trans isFound)
        exact absurd left (not_lt.mpr spent)

/-- What a run of the network adds to what was known when the ant was turned round. -/
theorem advancing_of_run {params : NsAddr → Params K} {route : List NsAddr} {uid : ℕ}
    {before : List (Net K × Event K)} {turned : Net K}
    (nodes : ∀ node, (params node).numNodes = count)
    (run : (network sim (.ttlChecker K) params).Run (Net.initial params) before turned)
    (used : uid < turned.uidcnt) (begins : Whereabouts sim route uid [] turned)
    (enough : (handlers uid before).length + ((route.length : ℤ) - 1) < 2 * count)
    (later : (network sim (.ttlChecker K) params).Run turned trace net) :
    Advancing sim route uid trace net := by
  have faithful := Medium.ttlChecker_faithful K
  have wellFormed := ((faithful.unaltered params).history run).1
  obtain ⟨well, _, homeward⟩ := Whereabouts.run faithful wellFormed used begins later
  exact homeward.whereabouts.advancing well (ttlCounted_of_run nodes (run.trans later))
    (not_lost_of_run nodes run used begins enough later) enough

omit [Arithmetic K] [LinearOrder K] in
/-- A packet that was delivered before and has too little `ttl` left does not get to the
end of its route. -/
theorem TtlCounted.not_home {before after : List (Net K × Event K)} {uid : ℕ}
    {route : List NsAddr} (counted : TtlCounted count (before ++ after) net)
    (handled : handlers uid before ≠ [])
    (short : 2 * count ≤ (handlers uid before).length + ((route.length : ℤ) - 1)) :
    handlers uid after ≠ route.dropLast.reverse := by
  intro complete
  have positive := counted.positive uid (by rw [handlers_append]; simp [handled])
  rw [handlers_append, List.length_append, complete, List.length_reverse,
    List.length_dropLast] at positive
  push_cast at positive
  omega

/-- A forward ant that is turned round after a number of links has as much `ttl` left
as that number leaves of two units a node.  It gets home if that is more than the
links of its way back, and only then; it is if the ant took no more links than there
are nodes. -/
theorem ttl_suffices_iff_home {params : NsAddr → Params K}
    (nodes : ∀ node, (params node).numNodes = sim.nodes.card)
    {before : List (Net K × Event K)} {index : ℕ} {p : Packet K} {draws : List K} {junk : NsAddr}
    {turned : Net K}
    (run : (network sim (.ttlChecker K) params).Run (Net.initial params) before net)
    (arrival : net.Enabled sim (.ttlChecker K) (.deliver index p draws junk))
    (outward : p.cmn.direction = .down) (arrived : p.ip.daddr = p.ant.pktDst)
    (returned : net.exec sim (.deliver index p draws junk) = .ok turned) :
    ∃ q ∈ turned.flight, ∃ source,
      q.cmn.uid = p.cmn.uid ∧ q.cmn.direction = .up ∧
      q.ant.path.head? = some source ∧ EmittedBy sim before p.cmn.uid source ∧
      q.ant.path.length = q.ant.pktMemSize ∧
      q.ip.ttl = 2 * sim.nodes.card - ((handlers p.cmn.uid before).length + 1) ∧
      ((handlers p.cmn.uid before).length + 1 ≤ sim.nodes.card →
        (q.ant.pktMemSize : ℤ) - 1 < q.ip.ttl) ∧
      ((q.ant.pktMemSize : ℤ) - 1 < q.ip.ttl → ∀ after last,
        (network sim (.ttlChecker K) params).Run turned after last →
          Advancing sim q.ant.path q.cmn.uid after last) ∧
      (q.ip.ttl ≤ (q.ant.pktMemSize : ℤ) - 1 → ∀ after last,
        (network sim (.ttlChecker K) params).Run turned after last →
          handlers q.cmn.uid after ≠ q.ant.path.dropLast.reverse) := by
  have faithful := Medium.ttlChecker_faithful K
  obtain ⟨wellFormed, history⟩ := (faithful.unaltered params).history run
  have unchanged := faithful.unchanged arrival
  have stepped := wellFormed.stepped arrival unchanged returned
  have run' : (network sim (.ttlChecker K) params).Run (Net.initial params)
      (before ++ [(net, .deliver index p draws junk)]) turned := run.snoc ⟨arrival, returned⟩
  have counted := ttlCounted_of_run nodes run'
  have handled : handlers p.cmn.uid [(net, .deliver index p draws junk)] = [p.ip.daddr] :=
    handlers_delivered rfl
  obtain ⟨ttl, inFlight⟩ := unchanged.inFlight rfl
  obtain ⟨source, emitted, head⟩ : ∃ source, EmittedBy sim before p.cmn.uid source ∧
      p.ant.path.head? = some source := history.emitted (p.withTtl ttl) inFlight
  have used : p.cmn.uid < turned.uidcnt :=
    (wellFormed.fresh _ inFlight).trans_le stepped.uidcnt_le
  have ant : ForwardAnt sim p := wellFormed.forward_of_down unchanged outward
  obtain ⟨c, received, done⟩ := bind_eq_ok returned
  cases ant.received (c := net.call p.ip.daddr (some p) [] draws junk) rfl (wellFormed.addr _)
    received with
  | ended _ underway | forwarded _ underway => exact absurd arrived underway
  | home backward | returned backward => exact absurd backward ant.not_backward
  | @turned ah _ _ recorded path =>
      have isTurned : turnedAnt { p with ant := ah } p.ip.daddr p.ip.saddr ∈ turned.flight := by
        cases done
        exact List.mem_append_right _ (List.mem_singleton_self _)
      have begins := Whereabouts.begins ant recorded path arrival.2.1 arrived isTurned
      have backward := BackwardAnt.turned ant recorded path arrival.2.1 arrived
      have length := backward.length_path
      have size := backward.pktMemSize_le_card
      have spent : (handlers p.cmn.uid (before ++ [(net, .deliver index p draws junk)])).length =
          (handlers p.cmn.uid before).length + 1 := by
        rw [handlers_append, handled, List.length_append, List.length_singleton]
      have left := counted.ttl _ isTurned
      change p.ip.ttl = 2 * (sim.nodes.card : ℤ) - ((handlers p.cmn.uid
        (before ++ [(net, .deliver index p draws junk)])).length : ℤ) at left
      rw [spent, Nat.cast_succ] at left
      change ah.path.length = ah.pktMemSize at length
      change ah.pktMemSize ≤ _ at size
      refine ⟨_, isTurned, source, rfl, rfl, ?_, emitted, length, ?_, ?_, ?_, ?_⟩
      · change ah.path.head? = some source
        rw [path, List.head?_append_of_ne_nil _ (HdrAntPkt.path_ne_nil head), head]
      · exact left
      · intro few
        change (ah.pktMemSize : ℤ) - 1 < p.ip.ttl
        omega
      · intro enough after last later
        change (ah.pktMemSize : ℤ) - 1 < p.ip.ttl at enough
        have enoughLinks : ((handlers p.cmn.uid
            (before ++ [(net, .deliver index p draws junk)])).length : ℤ) +
              ((ah.path.length : ℤ) - 1) < 2 * sim.nodes.card := by
          rw [spent, length]
          push_cast
          omega
        exact advancing_of_run nodes run' used begins enoughLinks later
      · intro short after last later
        change p.ip.ttl ≤ (ah.pktMemSize : ℤ) - 1 at short
        change handlers p.cmn.uid after ≠ ah.path.dropLast.reverse
        apply (ttlCounted_of_run nodes (run'.trans later)).not_home
        · rw [handlers_append, handled]
          simp
        · rw [spent, length]
          push_cast
          omega

/-- The delivery of the first packet in flight over a link that lowers its `ttl`. -/
def deliverOn (draws : List ℚ) : Net ℚ → Option (Event ℚ) :=
  deliverAs 0 (fun sent => sent.withTtl (sent.ip.ttl - 1)) draws 0

/-- An ant that goes straight to its destination gets home. -/
theorem ttl_suffices_iff_home_line :
    let sim := Sim.line 2 16
    let params : NsAddr → Params ℚ := fun _ => ⟨1 / 2, 2⟩
    ∃ before turned, (network sim (.ttlChecker ℚ) params).Run (Net.initial params) before turned ∧
      ∃ q ∈ turned.flight, q.cmn.direction = .up ∧ (q.ant.pktMemSize : ℤ) - 1 < q.ip.ttl ∧
        ∀ after last, (network sim (.ttlChecker ℚ) params).Run turned after last →
          Advancing sim q.ant.path q.cmn.uid after last := by
  intro sim params
  have observed : ((Net.initial params).follow sim (.ttlChecker ℚ)
      [fun _ => some (.start 0), fun _ => some (.timer 0 [1] [0] 0)]).map (fun outcome =>
        (decide (handlers 0 outcome.1 = []), outcome.2.flight.map fun p =>
          decide (outcome.2.Enabled sim (.ttlChecker ℚ) (.deliver 0 (p.withTtl 3) [] 0) ∧
            p.cmn.uid = 0 ∧ p.cmn.direction = .down ∧ p.ip.daddr = p.ant.pktDst ∧
            (outcome.2.exec sim (.deliver 0 (p.withTtl 3) [] 0)).isOk = true))) =
        some (true, [true]) := by
    decide +kernel
  obtain ⟨before, net, run, facts⟩ := Net.exists_run_of_follow params observed
  simp only [Prod.mk.injEq, decide_eq_true_eq] at facts
  obtain ⟨first, single⟩ := facts
  rcases List.map_eq_singleton_iff.mp single with ⟨p, flight, shape⟩
  obtain ⟨arrival, uid, outward, arrived, returns⟩ := of_decide_eq_true shape
  cases returned : net.exec sim (.deliver 0 (p.withTtl 3) [] 0) with
  | error failure =>
      rw [returned] at returns
      cases returns
  | ok turned =>
      obtain ⟨q, isTurned, _, _, up, _, _, _, _, straight, home, _⟩ :=
        ttl_suffices_iff_home (fun _ => rfl) run arrival outward arrived returned
      have enough := straight (by
        rw [show (p.withTtl 3).cmn.uid = 0 from uid, first]
        decide)
      exact ⟨_, turned, run.snoc ⟨arrival, returned⟩, q, isTurned, up, enough, home enough⟩

/-- In a triangle with a fourth node attached, an ant that goes round the triangle once
before it reaches that node has too little `ttl` left for its way back. -/
theorem ttl_exhausted_by_loop :
    let sim := Sim.idle {0, 1, 2, 3} (fun node => if node = 0 then [1, 2] else
      if node = 1 then [0, 2] else if node = 2 then [0, 1, 3] else [2]) 16
    let params : NsAddr → Params ℚ := fun _ => ⟨1 / 2, 4⟩
    ¬ ∀ before net index p draws junk turned,
      (network sim (.ttlChecker ℚ) params).Run (Net.initial params) before net →
      net.Enabled sim (.ttlChecker ℚ) (.deliver index p draws junk) →
      p.cmn.direction = .down → p.ip.daddr = p.ant.pktDst →
      net.exec sim (.deliver index p draws junk) = .ok turned →
      ∀ q ∈ turned.flight, q.cmn.uid = p.cmn.uid → (q.ant.pktMemSize : ℤ) - 1 < q.ip.ttl := by
  intro sim params enough
  have observed : ((Net.initial params).follow sim (.ttlChecker ℚ)
      [fun _ => some (.start 0), fun _ => some (.start 1), fun _ => some (.start 2),
        fun _ => some (.timer 0 [3] [0] 0), deliverOn [1 / 2], deliverOn [0], deliverOn [0],
        deliverOn [1 / 2], deliverOn [9 / 10]]).map (fun outcome =>
        outcome.2.flight.map fun p =>
          decide (outcome.2.Enabled sim (.ttlChecker ℚ) (.deliver 0 (p.withTtl 2) [] 0) ∧
            p.cmn.direction = .down ∧ p.ip.daddr = p.ant.pktDst ∧
            (outcome.2.exec sim (.deliver 0 (p.withTtl 2) [] 0)).toOption.map (fun turned =>
              turned.flight.map fun q =>
                decide (q.cmn.uid = p.cmn.uid ∧ q.ant.pktMemSize = 4 ∧ q.ip.ttl = 2)) =
                  some [true])) = some [true] := by
    decide +kernel
  obtain ⟨before, net, run, single⟩ := Net.exists_run_of_follow params observed
  rcases List.map_eq_singleton_iff.mp single with ⟨p, _, shape⟩
  obtain ⟨arrival, outward, arrived, outcome⟩ := of_decide_eq_true shape
  obtain ⟨turned, returned, single⟩ := exists_of_toOption outcome
  rcases List.map_eq_singleton_iff.mp single with ⟨q, flight, shape⟩
  obtain ⟨same, size, ttl⟩ := of_decide_eq_true shape
  have left := enough before net 0 (p.withTtl 2) [] 0 turned run arrival
    outward arrived returned q (by rw [flight]; exact List.mem_singleton_self q) same
  rw [size, ttl] at left
  exact absurd left (by decide)

end AntAodv
