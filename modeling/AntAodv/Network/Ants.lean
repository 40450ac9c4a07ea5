import AntAodv.Agent.Forward
import AntAodv.Agent.Retrace
import AntAodv.Network
import Mathlib.Data.Finset.Card

/-!
# The ants in flight

Between two calls an ant is either on its way to a destination it has not seen
yet, with its walk behind it in memory, or on its way back between two
neighbours in memory.  Receiving an ant of the one form or the other has exactly
the outcomes listed here.
-/

namespace AntAodv

open LoopErasure

/-- What holds of every ant in flight. -/
structure Ant {K : Type} (sim : Sim) (p : Packet K) : Prop where
  ptype : p.cmn.ptype = ptAnt
  sport : p.ip.sport = rtPort
  dport : p.ip.dport = rtPort
  length : p.ant.pktMemory.length = sim.slots
  bounded : p.ant.pktMemSize ≤ sim.slots
  distinct : p.ant.path.Nodup
  visited : ∀ node ∈ p.ant.path, node ∈ sim.nodes

/-- An ant on its way to its destination. -/
structure ForwardAnt {K : Type} (sim : Sim) (p : Packet K) : Prop extends Ant sim p where
  direction : p.cmn.direction = .down
  head : p.ant.path.head? = some p.ant.pktSrc
  last : p.ant.path.getLast? = some p.ip.saddr
  unreached : p.ant.pktDst ∉ p.ant.path
  hop : p.ip.daddr ≠ p.ip.saddr

/-- An ant on its way back to its source, which is now `pkt_dst`. -/
structure BackwardAnt {K : Type} (sim : Sim) (p : Packet K) : Prop extends Ant sim p where
  direction : p.cmn.direction = .up
  head : p.ant.path.head? = some p.ant.pktDst
  last : p.ant.path.getLast? = some p.ant.pktSrc
  hop : ∃ before after, p.ant.path = before ++ p.ip.daddr :: p.ip.saddr :: after

variable {K : Type}

/-- The packet with another `ttl`. -/
def Packet.withTtl (p : Packet K) (ttl : ℤ) : Packet K :=
  { p with ip := { p.ip with ttl := ttl } }

/-- A medium that delivers packets unchanged, up to their `ttl`. -/
def Medium.Faithful (medium : Medium K) : Prop :=
  ∀ sent p, medium.delivers sent p → ∃ ttl, p = sent.withTtl ttl

theorem Medium.perfect_faithful (K : Type) : (Medium.perfect K).Faithful :=
  fun sent _ same => ⟨sent.ip.ttl, same⟩

theorem ForwardAnt.withTtl {sim : Sim} {p : Packet K} (ant : ForwardAnt sim p) (ttl : ℤ) :
    ForwardAnt sim (p.withTtl ttl) :=
  ⟨⟨ant.ptype, ant.sport, ant.dport, ant.length, ant.bounded, ant.distinct, ant.visited⟩,
    ant.direction, ant.head, ant.last, ant.unreached, ant.hop⟩

theorem BackwardAnt.withTtl {sim : Sim} {p : Packet K} (ant : BackwardAnt sim p) (ttl : ℤ) :
    BackwardAnt sim (p.withTtl ttl) :=
  ⟨⟨ant.ptype, ant.sport, ant.dport, ant.length, ant.bounded, ant.distinct, ant.visited⟩,
    ant.direction, ant.head, ant.last, ant.hop⟩

theorem Ant.bounded' {sim : Sim} {p : Packet K} (ant : Ant sim p) :
    p.ant.pktMemSize ≤ p.ant.pktMemory.length := by
  rw [ant.length]
  exact ant.bounded

theorem Ant.length_path {sim : Sim} {p : Packet K} (ant : Ant sim p) :
    p.ant.path.length = p.ant.pktMemSize :=
  HdrAntPkt.length_path ant.bounded'

/-- An ant has no more entries in memory than there are nodes. -/
theorem Ant.pktMemSize_le_card {sim : Sim} {p : Packet K} (ant : Ant sim p) :
    p.ant.pktMemSize ≤ sim.nodes.card := by
  rw [← ant.length_path, ← List.toFinset_card_of_nodup ant.distinct]
  apply Finset.card_le_card
  intro node inPath
  exact ant.visited node (List.mem_toFinset.mp inPath)

/-- A node that is not in memory finds a free slot when there are as many slots
as nodes. -/
theorem Ant.room {sim : Sim} {p : Packet K} (ant : Ant sim p)
    (large : sim.nodes.card ≤ sim.slots) {node : NsAddr} (isNode : node ∈ sim.nodes) :
    node ∈ p.ant.path ∨ p.ant.pktMemSize < sim.slots := by
  by_cases membership : node ∈ p.ant.path
  · apply Or.inl
    exact membership
  · right
    have distinct : (node :: p.ant.path).Nodup := List.nodup_cons.mpr ⟨membership, ant.distinct⟩
    have count : (node :: p.ant.path).toFinset.card ≤ sim.nodes.card := by
      apply Finset.card_le_card
      intro other inPath
      rcases List.mem_cons.mp (List.mem_toFinset.mp inPath) with rfl | earlier
      · exact isNode
      · exact ant.visited other earlier
    rw [List.toFinset_card_of_nodup distinct, List.length_cons, ant.length_path] at count
    omega

theorem HdrAntPkt.path_ne_nil {ah : HdrAntPkt K} {node : NsAddr}
    (head : ah.path.head? = some node) : ah.path ≠ [] := by
  intro empty
  simp [empty] at head

/-- Splitting the addresses in memory splits the memory. -/
theorem HdrAntPkt.exists_live_of_path {ah : HdrAntPkt K} {before after : List NsAddr}
    {here next : NsAddr} (split : ah.path = before ++ here :: next :: after) :
    ∃ front entry second back, ah.live = front ++ entry :: second :: back ∧
      front.map Memory.nodeAddr = before ∧ entry.nodeAddr = here ∧
      second.nodeAddr = next ∧ back.map Memory.nodeAddr = after := by
  rcases List.map_eq_append_iff.mp split with ⟨front, rest, live, isBefore, isRest⟩
  rcases List.map_eq_cons_iff.mp isRest with ⟨entry, rest', rfl, isHere, isRest'⟩
  rcases List.map_eq_cons_iff.mp isRest' with ⟨second, back, rfl, isNext, isAfter⟩
  exact ⟨front, entry, second, back, live, isBefore, isHere, isNext, isAfter⟩

/-! ### Receiving an ant -/

section Recv

variable [Arithmetic K] [LinearOrder K] {sim : Sim} {c c' : Call K} {p : Packet K}

theorem Call.recv_down (held : c.held = some p) (foreign : p.ip.saddr ≠ c.agent.addr)
    (ant : Ant sim p) (direction : p.cmn.direction = .down) :
    c.recv sim =
      if c.agent.addr = p.ant.pktDst then c.memorize >>= Call.createBackwardAntPkt
      else c.memorize >>= Call.forwardAntPkt sim := by
  rw [Call.recv, Call.pkt_of_held held, ok_bind, if_neg foreign, if_pos ant.ptype,
    Call.recvAntPkt, Call.pkt_of_held held, ok_bind]
  simp only [ant.sport, ant.dport, direction, ne_eq, not_true_eq_false, if_false]

theorem Call.recv_up (held : c.held = some p) (foreign : p.ip.saddr ≠ c.agent.addr)
    (ant : Ant sim p) (direction : p.cmn.direction = .up) :
    c.recv sim =
      if c.agent.addr = p.ant.pktDst then c.updateTable sim >>= Call.free
      else c.updateTable sim >>= Call.backwardAntPkt := by
  rw [Call.recv, Call.pkt_of_held held, ok_bind, if_neg foreign, if_pos ant.ptype,
    Call.recvAntPkt, Call.pkt_of_held held, ok_bind]
  simp only [ant.sport, ant.dport, direction, ne_eq, not_true_eq_false, if_false]

omit [Arithmetic K] [LinearOrder K] in
/-- A new node in memory comes after the one the ant came from. -/
theorem ForwardAnt.exists_route (ant : ForwardAnt sim p) {ah : HdrAntPkt K} {node : NsAddr}
    (path : ah.path = p.ant.path ++ [node]) :
    ∃ before, ah.path = before ++ [p.ip.saddr, node] := by
  rcases List.getLast?_eq_some_iff.mp ant.last with ⟨before, split⟩
  refine ⟨before, ?_⟩
  rw [path, split, List.append_assoc]
  rfl

/-- A forward ant is turned round at its destination, towards the node it came
from. -/
theorem ForwardAnt.recv_destination (ant : ForwardAnt sim p) (held : c.held = some p)
    (here : c.agent.addr = p.ip.daddr) (arrived : p.ip.daddr = p.ant.pktDst)
    (room : p.ant.pktMemSize < sim.slots) :
    ∃ ah, c.memorize = .ok ((c.enter .memorize).store { p with ant := ah }) ∧
      p.ant.Memorized p.ip.daddr (c.now - p.ant.pktStartTime) ah ∧
      ah.path = p.ant.path ++ [p.ip.daddr] ∧
      c.recv sim = .ok { c with
        held := none
        log := c.log ++ [.memorize, .createBackwardAntPkt,
          .handed (turnedAnt { p with ant := ah } p.ip.daddr p.ip.saddr)] } := by
  have foreign : p.ip.saddr ≠ c.agent.addr := here ▸ ant.hop.symm
  have unvisited : p.ip.daddr ∉ p.ant.path := arrived ▸ ant.unreached
  obtain ⟨ah, returned, memorized⟩ := Call.memorize_ok held ant.bounded'
    (.inr (by rw [ant.length]; exact room))
  rw [here] at memorized
  have path : ah.path = p.ant.path ++ [p.ip.daddr] := by
    rw [memorized.path, visit_of_not_mem unvisited]
  obtain ⟨before, order⟩ := ant.exists_route path
  obtain ⟨front, prev, last, back, live, _, isPrev, _, isBack⟩ :=
    HdrAntPkt.exists_live_of_path order
  rw [List.map_eq_nil_iff.mp isBack] at live
  refine ⟨ah, returned, memorized, path, ?_⟩
  rw [c.recv_down held foreign ant.toAnt ant.direction, if_pos (here.trans arrived), returned,
    ok_bind, Call.createBackwardAntPkt_ok (p := { p with ant := ah }) rfl memorized.bounded live,
    isPrev]
  simp [Call.store, Call.enter, here]

/-- A new node finds no slot. -/
theorem ForwardAnt.recv_full (ant : ForwardAnt sim p) (held : c.held = some p)
    (here : c.agent.addr = p.ip.daddr) (unvisited : p.ip.daddr ∉ p.ant.path)
    (full : ¬ p.ant.pktMemSize < sim.slots) :
    c.recv sim = .error ⟨.memoryIndex (some sim.slots), c.log ++ [.memorize]⟩ := by
  have size : p.ant.pktMemSize = p.ant.pktMemory.length :=
    le_antisymm ant.bounded' (ant.length ▸ not_lt.mp full)
  have foreign : p.ip.saddr ≠ c.agent.addr := here ▸ ant.hop.symm
  rw [c.recv_down held foreign ant.toAnt ant.direction,
    Call.memorize_full held size (here ▸ unvisited), size, ant.length]
  split <;> rfl

/-- Elsewhere a forward ant is memorized and then freed or sent on. -/
theorem ForwardAnt.recv_forward (ant : ForwardAnt sim p) (held : c.held = some p)
    (here : c.agent.addr = p.ip.daddr) (underway : p.ip.daddr ≠ p.ant.pktDst)
    (returned : c.recv sim = .ok c') :
    ∃ ah next, p.ant.Memorized p.ip.daddr (c.now - p.ant.pktStartTime) ah ∧
      NextHop.value c.junk (Rtable.calcNext sim c.globals.n c.agent.rtable c.agent.addr
        p.ant.pktDst p.ip.saddr c.draws) = some next ∧
      c' = { c with
        held := none
        log := c.log ++ [.memorize, .forwardAntPkt,
          .calcNext p.ant.pktDst p.ip.saddr (Rtable.calcNext sim c.globals.n c.agent.rtable
            c.agent.addr p.ant.pktDst p.ip.saddr c.draws),
          if next = p.ip.daddr ∨ next = p.ip.saddr then .freed { p with ant := ah }
          else .handed (forwardedAnt { p with ant := ah } p.ip.daddr next)] } := by
  have foreign : p.ip.saddr ≠ c.agent.addr := here ▸ ant.hop.symm
  rw [c.recv_down held foreign ant.toAnt ant.direction, if_neg (here ▸ underway)] at returned
  by_cases room : c.agent.addr ∈ p.ant.path ∨ p.ant.pktMemSize < p.ant.pktMemory.length
  · obtain ⟨ah, stored, memorized⟩ := Call.memorize_ok held ant.bounded' room
    rw [stored, ok_bind] at returned
    obtain ⟨next, value, rfl⟩ := Call.forwardAntPkt_cases rfl returned
    have pktDst : ah.pktDst = p.ant.pktDst := memorized.pktDst
    refine ⟨ah, next, here ▸ memorized, ?_, ?_⟩
    · rw [← pktDst]
      exact value
    · simp [Call.store, Call.enter, pktDst, here]
  · rw [not_or, not_lt] at room
    rw [Call.memorize_full held (le_antisymm ant.bounded' room.2) room.1, error_bind] at returned
    cases returned

omit [Arithmetic K] [LinearOrder K] in
/-- The node a backward ant has reached is in memory only once. -/
theorem BackwardAnt.apart (ant : BackwardAnt sim p) {before after : List NsAddr}
    (split : p.ant.path = before ++ p.ip.daddr :: p.ip.saddr :: after) :
    p.ip.daddr ∉ before ∧ p.ip.daddr ∉ p.ip.saddr :: after ∧ (p.ip.saddr :: after).Nodup := by
  have distinct := ant.distinct
  rw [split] at distinct
  have apart := List.nodup_append.mp distinct
  refine ⟨?_, List.nodup_cons.mp apart.2.1⟩
  intro membership
  exact apart.2.2 _ membership _ (by simp) rfl

/-- A backward ant updates the rows of all nodes behind it in memory towards the
node it came from, and goes on to the node before in memory, if any. -/
theorem BackwardAnt.recv_eq (ant : BackwardAnt sim p) (held : c.held = some p)
    (here : c.agent.addr = p.ip.daddr) {before after : List NsAddr}
    (split : p.ant.path = before ++ p.ip.daddr :: p.ip.saddr :: after) :
    c.recv sim = .ok { c.tableUpdated sim p.ip.saddr (p.ip.saddr :: after) with
      held := none
      log := (c.tableUpdated sim p.ip.saddr (p.ip.saddr :: after)).log ++
        match before.getLast? with
        | none => [.freed p]
        | some prev => [.backwardAntPkt, .handed (returnedAnt p p.ip.daddr prev)] } := by
  obtain ⟨notBefore, notAfter, _⟩ := ant.apart split
  have foreign : p.ip.saddr ≠ c.agent.addr := by
    rw [here]
    rintro same
    apply notAfter
    simp [same]
  obtain ⟨front, entry, second, back, live, isBefore, isHere, isNext, isAfter⟩ :=
    HdrAntPkt.exists_live_of_path split
  have updated := Call.updateTable_ok sim held ant.bounded' live (by rwa [here, isBefore])
    (isHere.trans here.symm)
  rw [List.map_cons, isNext, isAfter] at updated
  have head := ant.head
  rw [split] at head
  rw [c.recv_up held foreign ant.toAnt ant.direction, updated, ok_bind, ok_bind, here]
  cases ends : before.getLast? with
  | none =>
      rw [List.getLast?_eq_none_iff.mp ends, List.nil_append, List.head?_cons,
        Option.some.injEq] at head
      rw [if_pos head, Call.free, Call.release_ok
        (c := c.tableUpdated sim p.ip.saddr (p.ip.saddr :: after)) held]
  | some prev =>
      rcases List.getLast?_eq_some_iff.mp ends with ⟨early, order⟩
      have notHome : p.ip.daddr ≠ p.ant.pktDst := by
        rintro same
        apply notBefore
        rw [List.head?_append_of_ne_nil _ (by rw [order]; simp)] at head
        rw [same]
        exact List.mem_of_head? head
      have split' : p.ant.path = early ++ prev :: p.ip.daddr :: p.ip.saddr :: after := by
        rw [split, order]
        simp
      obtain ⟨_, previous, entry, behind, live, _, isPrevious, isHere, isBehind⟩ :=
        HdrAntPkt.exists_live_of_path split'
      rw [if_neg notHome, Call.backwardAntPkt_ok
        (c := c.tableUpdated sim p.ip.saddr (p.ip.saddr :: after)) held ant.bounded' live
        (isHere.trans here.symm) (by rw [isBehind]; exact here ▸ notAfter), isPrevious]
      simp [Call.tableUpdated, here]

/-- What a returned `send_ant_pkt` has done. -/
inductive Emitted (sim : Sim) (c : Call K) : Call K → Prop where
  | freed {dest : NsAddr} {result : NextHop} :
      Rtable.calcDestination sim c.globals.numNodes c.agent.addr c.raws = some dest →
      Rtable.calcNext sim c.globals.n c.agent.rtable c.agent.addr dest c.agent.addr
        c.draws = result →
      result.value c.junk = some c.agent.addr →
      Emitted sim c { c with
        agent := { c.agent with antSeqNum := c.agent.antSeqNum + 1 }
        uidcnt := c.uidcnt + 1
        held := none
        log := c.log ++ [.calcDestination dest, .calcNext dest c.agent.addr result,
          .freed (c.newAnt sim dest)] }
  | handed {dest next : NsAddr} {result : NextHop} :
      0 < sim.slots →
      Rtable.calcDestination sim c.globals.numNodes c.agent.addr c.raws = some dest →
      Rtable.calcNext sim c.globals.n c.agent.rtable c.agent.addr dest c.agent.addr
        c.draws = result →
      result.value c.junk = some next →
      next ≠ c.agent.addr →
      Emitted sim c { c with
        agent := { c.agent with antSeqNum := c.agent.antSeqNum + 1 }
        uidcnt := c.uidcnt + 1
        held := none
        log := c.log ++ [.calcDestination dest, .calcNext dest c.agent.addr result,
          .handed (c.sentAnt sim dest next)] }

theorem Call.emitted (sent : c.sendAntPkt sim = .ok c') : Emitted sim c c' := by
  obtain ⟨dest, next, slots, chosen, value, rfl⟩ := c.sendAntPkt_cases sent
  by_cases dead : next = c.agent.addr
  · simp only [dead, if_true]
    exact .freed chosen rfl (dead ▸ value)
  · simp only [dead, if_false]
    exact .handed slots chosen rfl value dead

/-- What a returned call has done with the ant it received. -/
inductive Received (sim : Sim) (c : Call K) (p : Packet K) : Call K → Prop where
  | turned {ah : HdrAntPkt K} :
      ForwardAnt sim p →
      p.ip.daddr = p.ant.pktDst →
      p.ant.Memorized p.ip.daddr (c.now - p.ant.pktStartTime) ah →
      ah.path = p.ant.path ++ [p.ip.daddr] →
      Received sim c p { c with
        held := none
        log := c.log ++ [.memorize, .createBackwardAntPkt,
          .handed (turnedAnt { p with ant := ah } p.ip.daddr p.ip.saddr)] }
  | ended {ah : HdrAntPkt K} {result : NextHop} {next : NsAddr} :
      ForwardAnt sim p →
      p.ip.daddr ≠ p.ant.pktDst →
      Rtable.calcNext sim c.globals.n c.agent.rtable p.ip.daddr p.ant.pktDst p.ip.saddr
        c.draws = result →
      result.value c.junk = some next →
      next = p.ip.daddr ∨ next = p.ip.saddr →
      Received sim c p { c with
        held := none
        log := c.log ++ [.memorize, .forwardAntPkt, .calcNext p.ant.pktDst p.ip.saddr result,
          .freed { p with ant := ah }] }
  | forwarded {ah : HdrAntPkt K} {result : NextHop} {next : NsAddr} :
      ForwardAnt sim p →
      p.ip.daddr ≠ p.ant.pktDst →
      p.ant.Memorized p.ip.daddr (c.now - p.ant.pktStartTime) ah →
      Rtable.calcNext sim c.globals.n c.agent.rtable p.ip.daddr p.ant.pktDst p.ip.saddr
        c.draws = result →
      result.value c.junk = some next →
      next ≠ p.ip.daddr → next ≠ p.ip.saddr →
      Received sim c p { c with
        held := none
        log := c.log ++ [.memorize, .forwardAntPkt, .calcNext p.ant.pktDst p.ip.saddr result,
          .handed (forwardedAnt { p with ant := ah } p.ip.daddr next)] }
  | home {after : List NsAddr} :
      BackwardAnt sim p →
      p.ant.path = p.ip.daddr :: p.ip.saddr :: after →
      Received sim c p { c.tableUpdated sim p.ip.saddr (p.ip.saddr :: after) with
        held := none
        log := (c.tableUpdated sim p.ip.saddr (p.ip.saddr :: after)).log ++ [.freed p] }
  | returned {early after : List NsAddr} {prev : NsAddr} :
      BackwardAnt sim p →
      p.ant.path = (early ++ [prev]) ++ p.ip.daddr :: p.ip.saddr :: after →
      Received sim c p { c.tableUpdated sim p.ip.saddr (p.ip.saddr :: after) with
        held := none
        log := (c.tableUpdated sim p.ip.saddr (p.ip.saddr :: after)).log ++
          [.backwardAntPkt, .handed (returnedAnt p p.ip.daddr prev)] }

/-- How a call that does not return fails on an ant. -/
inductive Refused (sim : Sim) (c : Call K) (p : Packet K) : Failure K → Prop where
  | full :
      ForwardAnt sim p →
      p.ip.daddr ∉ p.ant.path →
      ¬ p.ant.pktMemSize < sim.slots →
      Refused sim c p ⟨.memoryIndex (some sim.slots), c.log ++ [.memorize]⟩
  | noDraw :
      ForwardAnt sim p →
      p.ip.daddr ≠ p.ant.pktDst →
      Rtable.calcNext sim c.globals.n c.agent.rtable p.ip.daddr p.ant.pktDst p.ip.saddr
        c.draws = .looping →
      Refused sim c p ⟨.looping, c.log ++
        [.memorize, .forwardAntPkt, .calcNext p.ant.pktDst p.ip.saddr .looping]⟩

theorem ForwardAnt.refused (ant : ForwardAnt sim p) (held : c.held = some p)
    (here : c.agent.addr = p.ip.daddr) {failure : Failure K}
    (failed : c.recv sim = .error failure) : Refused sim c p failure := by
  by_cases room : p.ip.daddr ∈ p.ant.path ∨ p.ant.pktMemSize < sim.slots
  · by_cases arrived : p.ip.daddr = p.ant.pktDst
    · obtain ⟨_, _, _, _, result⟩ := ant.recv_destination held here arrived
        (room.resolve_left (arrived ▸ ant.unreached))
      rw [result] at failed
      cases failed
    · have foreign : p.ip.saddr ≠ c.agent.addr := here ▸ ant.hop.symm
      obtain ⟨ah, stored, memorized⟩ := Call.memorize_ok held ant.bounded'
        (by rw [here, ant.length]; exact room)
      rw [c.recv_down held foreign ant.toAnt ant.direction, if_neg (here ▸ arrived), stored,
        ok_bind] at failed
      obtain ⟨looping, rfl⟩ := Call.forwardAntPkt_error rfl failed
      have pktDst : ah.pktDst = p.ant.pktDst := memorized.pktDst
      simp only [Call.store, Call.enter, pktDst, here] at looping ⊢
      have refused : Refused sim c p _ := .noDraw ant arrived looping
      simpa using refused
  · rw [not_or] at room
    rw [ant.recv_full held here room.1 room.2] at failed
    cases failed
    exact .full ant room.1 room.2

theorem BackwardAnt.not_refused (ant : BackwardAnt sim p) (held : c.held = some p)
    (here : c.agent.addr = p.ip.daddr) : ∃ c', c.recv sim = .ok c' := by
  rcases ant.hop with ⟨before, after, split⟩
  exact ⟨_, ant.recv_eq held here split⟩

theorem ForwardAnt.received (ant : ForwardAnt sim p) (held : c.held = some p)
    (here : c.agent.addr = p.ip.daddr) (returned : c.recv sim = .ok c') :
    Received sim c p c' := by
  by_cases arrived : p.ip.daddr = p.ant.pktDst
  · by_cases room : p.ant.pktMemSize < sim.slots
    · obtain ⟨ah, _, memorized, path, result⟩ := ant.recv_destination held here arrived room
      rw [result, Except.ok.injEq] at returned
      exact returned ▸ .turned ant arrived memorized path
    · rw [ant.recv_full held here (arrived ▸ ant.unreached) room] at returned
      cases returned
  · obtain ⟨ah, next, memorized, value, rfl⟩ := ant.recv_forward held here arrived returned
    by_cases dead : next = p.ip.daddr ∨ next = p.ip.saddr
    · simp only [dead, if_true]
      rw [here] at value ⊢
      exact .ended ant arrived rfl value dead
    · simp only [dead, if_false]
      rw [not_or] at dead
      rw [here] at value ⊢
      exact .forwarded ant arrived memorized rfl value dead.1 dead.2

theorem BackwardAnt.received (ant : BackwardAnt sim p) (held : c.held = some p)
    (here : c.agent.addr = p.ip.daddr) (returned : c.recv sim = .ok c') :
    Received sim c p c' := by
  rcases ant.hop with ⟨before, after, split⟩
  rw [ant.recv_eq held here split, Except.ok.injEq] at returned
  cases ends : before.getLast? with
  | none =>
      rw [ends] at returned
      rw [List.getLast?_eq_none_iff.mp ends, List.nil_append] at split
      exact returned ▸ .home ant split
  | some prev =>
      rcases List.getLast?_eq_some_iff.mp ends with ⟨early, order⟩
      rw [ends] at returned
      rw [order] at split
      exact returned ▸ .returned ant split

end Recv

/-! ### The ants agents send -/

section Sent

variable [Arithmetic K] {sim : Sim} {p : Packet K} {ah : HdrAntPkt K} {node next : NsAddr} {time : K}

theorem Ant.memorized (ant : Ant sim p) (memorized : p.ant.Memorized node time ah)
    (isNode : node ∈ sim.nodes) : Ant sim { p with ant := ah } where
  ptype := ant.ptype
  sport := ant.sport
  dport := ant.dport
  length := memorized.length.trans ant.length
  bounded := by
    rw [← ant.length, ← memorized.length]
    exact memorized.bounded
  distinct := by
    rw [memorized.path]
    exact nodup_visit ant.distinct node
  visited := by
    intro other membership
    rw [memorized.path] at membership
    rcases mem_of_mem_visit membership with earlier | rfl
    · exact ant.visited other earlier
    · exact isNode

theorem Call.path_sentAnt {c : Call K} (slots : 0 < sim.slots) (dest next : NsAddr) :
    (c.sentAnt sim dest next).ant.path = [c.agent.addr] := by
  obtain ⟨rest, size⟩ := Nat.exists_eq_succ_of_ne_zero slots.ne'
  simp [HdrAntPkt.path, HdrAntPkt.live, Call.sentAnt, Call.newAnt, Packet.alloc, size,
    List.replicate_succ]

theorem ForwardAnt.sent {c : Call K} (slots : 0 < sim.slots) {dest : NsAddr}
    (isNode : c.agent.addr ∈ sim.nodes) (destination : dest ≠ c.agent.addr)
    (hop : next ≠ c.agent.addr) : ForwardAnt sim (c.sentAnt sim dest next) := by
  have path := c.path_sentAnt slots dest next
  refine ⟨⟨rfl, rfl, rfl, ?_, slots, ?_, ?_⟩, rfl, ?_, ?_, ?_, hop⟩
  · simp [Call.sentAnt, Call.newAnt, Packet.alloc]
  · simp [path]
  · simpa [path] using isNode
  · rw [path]
    rfl
  · rw [path]
    rfl
  · rw [path, List.mem_singleton]
    exact destination

theorem ForwardAnt.forwarded (ant : ForwardAnt sim p)
    (memorized : p.ant.Memorized p.ip.daddr time ah) (isNode : p.ip.daddr ∈ sim.nodes)
    (underway : p.ip.daddr ≠ p.ant.pktDst) (hop : next ≠ p.ip.daddr) :
    ForwardAnt sim (forwardedAnt { p with ant := ah } p.ip.daddr next) := by
  have kept := ant.toAnt.memorized memorized isNode
  have nonempty := HdrAntPkt.path_ne_nil ant.head
  have src : ah.pktSrc = p.ant.pktSrc := memorized.pktSrc
  have dst : ah.pktDst = p.ant.pktDst := memorized.pktDst
  refine ⟨⟨kept.ptype, kept.sport, kept.dport, kept.length, kept.bounded, kept.distinct,
    kept.visited⟩, ant.direction, ?_, ?_, ?_, hop⟩
  · change ah.path.head? = some ah.pktSrc
    rw [memorized.path, head?_visit nonempty, src]
    exact ant.head
  · change ah.path.getLast? = some p.ip.daddr
    rw [memorized.path, getLast?_visit]
  · change ah.pktDst ∉ ah.path
    rw [memorized.path, dst]
    intro membership
    rcases mem_of_mem_visit membership with earlier | same
    · exact ant.unreached earlier
    · exact underway same.symm

theorem BackwardAnt.turned (ant : ForwardAnt sim p)
    (memorized : p.ant.Memorized p.ip.daddr time ah)
    (path : ah.path = p.ant.path ++ [p.ip.daddr]) (isNode : p.ip.daddr ∈ sim.nodes)
    (arrived : p.ip.daddr = p.ant.pktDst) :
    BackwardAnt sim (turnedAnt { p with ant := ah } p.ip.daddr p.ip.saddr) := by
  have kept := ant.toAnt.memorized memorized isNode
  have src : ah.pktSrc = p.ant.pktSrc := memorized.pktSrc
  have dst : ah.pktDst = p.ant.pktDst := memorized.pktDst
  have nonempty := HdrAntPkt.path_ne_nil ant.head
  obtain ⟨before, route⟩ := ant.exists_route path
  refine ⟨⟨rfl, kept.sport, kept.dport, kept.length, kept.bounded, kept.distinct,
    kept.visited⟩, rfl, ?_, ?_, before, [], route⟩
  · change ah.path.head? = some ah.pktSrc
    rw [path, List.head?_append_of_ne_nil _ nonempty, src]
    exact ant.head
  · change ah.path.getLast? = some ah.pktDst
    rw [path, dst, ← arrived]
    simp

omit [Arithmetic K] in
theorem BackwardAnt.returned (ant : BackwardAnt sim p) {early after : List NsAddr}
    {prev : NsAddr} (split : p.ant.path = (early ++ [prev]) ++ p.ip.daddr :: after) :
    BackwardAnt sim (returnedAnt p p.ip.daddr prev) :=
  ⟨⟨rfl, ant.sport, ant.dport, ant.length, ant.bounded, ant.distinct, ant.visited⟩, rfl,
    ant.head, ant.last, early, after, by
      change p.ant.path = early ++ prev :: p.ip.daddr :: after
      rw [split]
      simp⟩

end Sent

end AntAodv
