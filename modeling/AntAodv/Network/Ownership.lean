import AntAodv.Agent.Disposal
import AntAodv.Network.Supply
import AntAodv.Rtable.NextHop
import Mathlib.Algebra.Order.Field.Rat

/-!
# The ownership of packets

Every memory of an ant in flight is sound, whatever a medium does to the common and
IP headers.  So an agent disposes of a packet with such a memory exactly once,
except for its own packets that were not forwarded yet, for ants it cannot handle, and
for forward ants whose parent leaves no draw to the loop of `calc_next`.
-/

namespace AntAodv

variable {K : Type}

/-- A medium that leaves the ant header alone. -/
def Medium.KeepsHeader (medium : Medium K) : Prop :=
  ∀ sent p, medium.delivers sent p → p.ant = sent.ant

variable [Arithmetic K] [LinearOrder K] {sim : Sim} {medium : Medium K} {net net' : Net K}
  {event : Event K} {c c' : Call K} {p q : Packet K}

omit [LinearOrder K] in
theorem HdrAntPkt.Sound.memorized {ah ah' : HdrAntPkt K} (sound : ah.Sound) {addr : NsAddr}
    {time : K} (memorized : ah.Memorized addr time ah') : ah'.Sound := by
  refine ⟨memorized.bounded, ?_, ?_⟩
  · rw [memorized.path]
    exact LoopErasure.visit_ne_nil _ _
  · rw [memorized.path]
    exact LoopErasure.nodup_visit sound.distinct addr

omit [LinearOrder K] in
theorem Call.memorize_sound (held : c.held = some p) (sound : p.ant.Sound)
    (memorized : c.memorize = .ok c') :
    ∃ ah, ah.Sound ∧ c' = (c.enter .memorize).store { p with ant := ah } := by
  by_cases room : c.agent.addr ∈ p.ant.path ∨ p.ant.pktMemSize < p.ant.pktMemory.length
  · obtain ⟨ah, stored, recorded⟩ := Call.memorize_ok held sound.bounded room
    rw [stored] at memorized
    cases memorized
    exact ⟨ah, sound.memorized recorded, rfl⟩
  · have full : p.ant.pktMemSize = p.ant.pktMemory.length :=
      le_antisymm sound.bounded (not_lt.mp (not_or.mp room).2)
    rw [Call.memorize_full held full (not_or.mp room).1] at memorized
    cases memorized

omit [LinearOrder K] in
theorem Call.turn_sound (held : c.held = some p) (sound : p.ant.Sound) (quiet : handed c.log = [])
    (turned : (c.memorize >>= Call.createBackwardAntPkt) = .ok c') :
    ∀ q ∈ handed c'.log, q.ant.Sound := by
  intro q sent
  obtain ⟨middle, memorized, created⟩ := bind_eq_ok turned
  obtain ⟨ah, after, rfl⟩ := Call.memorize_sound held sound memorized
  by_cases long : 2 ≤ ah.pktMemSize
  · obtain ⟨before, prev, last, split⟩ := HdrAntPkt.exists_last_two after.bounded long
    rw [Call.createBackwardAntPkt_ok (c := (c.enter .memorize).store { p with ant := ah })
      rfl after.bounded split] at created
    cases created
    simp only [Call.store, Call.enter, handed_append, quiet] at sent
    cases List.mem_singleton.mp sent
    exact ⟨after.bounded, after.nonempty, after.distinct⟩
  · obtain ⟨index, failed⟩ := Call.createBackwardAntPkt_short
      (c := (c.enter .memorize).store { p with ant := ah }) rfl (not_le.mp long)
    rw [failed] at created
    cases created

theorem Call.forward_sound (held : c.held = some p) (sound : p.ant.Sound)
    (quiet : handed c.log = [])
    (returned : (c.memorize >>= Call.forwardAntPkt sim) = .ok c') :
    ∀ q ∈ handed c'.log, q.ant.Sound := by
  intro q sent
  obtain ⟨middle, memorized, forwarded⟩ := bind_eq_ok returned
  obtain ⟨ah, after, rfl⟩ := Call.memorize_sound held sound memorized
  obtain ⟨next, _, rfl⟩ := Call.forwardAntPkt_cases rfl forwarded
  by_cases dead : next = c.agent.addr ∨ next = p.ip.saddr
  · simp only [Call.store, Call.enter, handed_append, quiet, dead, if_true] at sent
    cases sent
  · simp only [Call.store, Call.enter, handed_append, quiet, dead, if_false] at sent
    cases List.mem_singleton.mp sent
    exact after

omit [LinearOrder K] in
theorem Call.back_sound (held : c.held = some p) (sound : p.ant.Sound) (quiet : handed c.log = [])
    (returned : (c.updateTable sim >>= Call.backwardAntPkt) = .ok c') :
    ∀ q ∈ handed c'.log, q.ant.Sound := by
  intro q sent
  obtain ⟨middle, updated, sentBack⟩ := bind_eq_ok returned
  rcases Call.updateTable_cases sim held sound.bounded with
    ⟨_, next, dests, outcome⟩ | ⟨_, index, failed⟩
  · cases updated.symm.trans outcome
    rcases Call.backwardAntPkt_cases (c := c.tableUpdated sim next dests) held sound.bounded
        sound.distinct with ⟨_, prev, outcome⟩ | ⟨_, index, failed⟩
    · cases sentBack.symm.trans outcome
      rw [handed_append, handed_tableUpdated, quiet] at sent
      cases List.mem_singleton.mp sent
      exact sound
    · cases sentBack.symm.trans failed
  · cases updated.symm.trans failed

omit [LinearOrder K] in
theorem Call.home_quiet (held : c.held = some p) (sound : p.ant.Sound) (quiet : handed c.log = [])
    (returned : (c.updateTable sim >>= Call.free) = .ok c') : handed c'.log = [] := by
  obtain ⟨middle, updated, freed⟩ := bind_eq_ok returned
  rcases Call.updateTable_cases sim held sound.bounded with
    ⟨_, next, dests, outcome⟩ | ⟨_, index, failed⟩
  · cases updated.symm.trans outcome
    have still : (c.tableUpdated sim next dests).held = some p := held
    cases freed.symm.trans (Call.release_ok still .freed)
    rw [handed_append, handed_tableUpdated, quiet]
    rfl
  · cases updated.symm.trans failed

/-- Whatever the other headers of a packet are, an agent hands on sound memories
only. -/
theorem Call.recv_sound (held : c.held = some p) (sound : p.ant.Sound) (quiet : handed c.log = [])
    (received : c.recv sim = .ok c') : ∀ q ∈ handed c'.log, q.ant.Sound := by
  have none : ∀ log : List (Op K), handed log = [] → ∀ q ∈ handed log, q.ant.Sound := by
    intro log empty q sent
    rw [empty] at sent
    cases sent
  cases Call.recv_handling held received with
  | ignored _ _ same | undirected _ _ same =>
      rw [same]
      exact none _ quiet
  | dropped _ done =>
      cases done.symm.trans (Call.release_ok held .dropped)
      apply none
      rw [handed_append, quiet]
      rfl
  | turned _ _ _ done => exact Call.turn_sound held sound quiet done
  | forwarded _ _ _ done => exact Call.forward_sound held sound quiet done
  | home _ _ _ done => exact none _ (Call.home_quiet held sound quiet done)
  | back _ _ _ done => exact Call.back_sound held sound quiet done

/-- Every memory in flight is sound. -/
theorem Medium.KeepsHeader.sound (keeps : medium.KeepsHeader) {params : NsAddr → Params K}
    (reached : (network sim medium params).Reachable net) : ∀ p ∈ net.flight, p.ant.Sound := by
  refine reached.invariant (fun net => ∀ p ∈ net.flight, p.ant.Sound) ?_ ?_
  · rintro state rfl p inFlight
    cases inFlight
  · rintro first event last sound ⟨enabled, returned⟩ p inFlight
    cases event with
    | tick =>
        cases returned
        exact sound p inFlight
    | start | stop =>
        cases returned
        exact sound p ((List.mem_append.mp inFlight).resolve_right (by rintro ⟨⟩))
    | lose =>
        cases returned
        exact sound p (List.mem_of_mem_eraseIdx inFlight)
    | timer addr raws draws junk =>
        obtain ⟨c, sent, done⟩ := bind_eq_ok returned
        cases done
        rcases List.mem_append.mp inFlight with earlier | new
        · exact sound p earlier
        · cases Call.emitted sent with
          | freed => cases new
          | @handed dest next _ slots =>
              cases List.mem_singleton.mp new
              have path := (first.call addr none raws draws junk).path_sentAnt slots dest next
              refine ⟨?_, by rw [path]; simp, by rw [path]; simp⟩
              simpa [Call.sentAnt, Call.newAnt, Packet.alloc] using Nat.succ_le_of_lt slots
    | deliver index q draws junk =>
        obtain ⟨⟨sent, found, delivered⟩, _⟩ := enabled
        obtain ⟨c, received, done⟩ := bind_eq_ok returned
        cases done
        rcases List.mem_append.mp inFlight with earlier | new
        · exact sound p (List.mem_of_mem_eraseIdx earlier)
        · have header : q.ant.Sound := by
            rw [keeps sent q delivered]
            exact sound sent (List.mem_of_getElem? found)
          exact Call.recv_sound (c := first.call q.ip.daddr (some q) [] draws junk) rfl header rfl
            received p new

/-! ### Disposal whatever is drawn -/

/-- A received packet is disposed of exactly once whatever is drawn: a call that has
rejected all draws so far has done nothing to the packet, and some more draws end it. -/
def Net.DisposesOnce (sim : Sim) (net : Net K) (addr : NsAddr) (p : Packet K) (junk : NsAddr) :
    Prop :=
  ∀ draws, Net.Uniform draws →
    DisposedOnce ((net.call addr (some p) [] draws junk).recv sim) ∨
      StillDrawing ((net.call addr (some p) [] draws junk).recv sim) ∧
        ∃ more, Net.Uniform more ∧
          DisposedOnce ((net.call addr (some p) [] (draws ++ more) junk).recv sim)

theorem Net.disposesOnce_iff {addr : NsAddr} (sound : p.cmn.ptype = ptAnt → p.ant.Sound)
    (junk : NsAddr) :
    net.DisposesOnce sim addr p junk ↔ p.Disposable (net.agent addr).addr ∧
      (p.Underway (net.agent addr).addr →
        Rtable.Escapes (net.agent addr).rtable p.ant.pktDst p.ip.saddr) := by
  let call (draws : List K) := net.call addr (some p) [] draws junk
  have outcome : ∀ draws, DisposedOnce ((call draws).recv sim) ↔ _ :=
    fun draws => disposedOnce_recv_iff rfl sound rfl
  have ends := Rtable.exists_not_looping_iff sim net.globals.n (net.agent addr).rtable
    (net.agent addr).addr p.ant.pktDst p.ip.saddr
  constructor
  · intro disposes
    have once : ∃ draws, Net.Uniform draws ∧ DisposedOnce ((call draws).recv sim) := by
      rcases disposes [] (by simp [Net.Uniform]) with now | ⟨_, more, uniform, later⟩
      · exact ⟨[], by simp [Net.Uniform], now⟩
      · exact ⟨more, uniform, later⟩
    obtain ⟨draws, uniform, disposed⟩ := once
    obtain ⟨disposable, suffice⟩ := (outcome draws).mp disposed
    exact ⟨disposable, fun underway => ends.mp ⟨draws, uniform, suffice underway⟩⟩
  · rintro ⟨disposable, escapes⟩ draws uniform
    by_cases looping : p.Underway (net.agent addr).addr ∧ Rtable.calcNext sim net.globals.n
        (net.agent addr).rtable (net.agent addr).addr p.ant.pktDst p.ip.saddr draws = .looping
    · obtain ⟨underway, looping⟩ := looping
      obtain ⟨more, uniform, ended⟩ := ends.mpr (escapes underway)
      refine .inr ⟨?_, more, uniform, (outcome (draws ++ more)).mpr ⟨disposable, fun _ => ?_⟩⟩
      · rw [Call.recv_underway (c := call draws) rfl underway]
        exact stillDrawing_forward (c := call draws) rfl (sound underway.isAnt.type) rfl
          (underway.disposable_iff.mp disposable) looping
      · exact (Rtable.calcNext_append looping more).trans_ne ended
    · exact .inl ((outcome draws).mpr ⟨disposable, fun underway now => looping ⟨underway, now⟩⟩)

/-- In every state of every run, an agent disposes of a packet with the memory of an
ant in flight exactly once if and only if the packet is one it can dispose of and, for a
forward ant under way, the loop of `calc_next` can end.  With exact arithmetic and the
rates of the agents started so far in the unit interval, it always can. -/
theorem disposesOnce_iff_disposable (keeps : medium.KeepsHeader) {params : NsAddr → Params K}
    {trace : List (Net K × Event K)}
    (run : (network sim medium params).Run (Net.initial params) trace net) {addr : NsAddr}
    {p : Packet K} (header : p.cmn.ptype = ptAnt → ∃ q ∈ net.flight, p.ant = q.ant)
    (junk : NsAddr) :
    (net.DisposesOnce sim addr p junk ↔ p.Disposable (net.agent addr).addr ∧
      (p.Underway (net.agent addr).addr →
        Rtable.Escapes (net.agent addr).rtable p.ant.pktDst p.ip.saddr)) ∧
    (Exact K → RatesUnit params trace →
      (net.DisposesOnce sim addr p junk ↔ p.Disposable (net.agent addr).addr)) := by
  have sound : p.cmn.ptype = ptAnt → p.ant.Sound := by
    intro isAnt
    obtain ⟨q, inFlight, same⟩ := header isAnt
    rw [same]
    exact keeps.sound ⟨_, trace, rfl, run⟩ q inFlight
  refine ⟨Net.disposesOnce_iff sound junk, ?_⟩
  rintro ⟨field, ordered, rfl⟩ rates
  rw [Net.disposesOnce_iff sound junk]
  exact and_iff_left fun _ => Rtable.escapes_of_unit ((unitValued_of_run run rates).rows addr _)

/-- A forward ant half way along a line of three nodes. -/
theorem disposesOnce_iff_disposable_line :
    let sim := Sim.line 3 maxNumNodes
    let params : NsAddr → Params ℚ := fun _ => ⟨1 / 2, 3⟩
    ∃ trace net p, (network sim (.perfect ℚ) params).Run (Net.initial params) trace net ∧
      p ∈ net.flight ∧ p.Underway 1 ∧ net.DisposesOnce sim 1 p 0 := by
  intro sim params
  have observed : ((Net.initial params).follow sim (.perfect ℚ)
      [fun _ => some (.start 0), fun _ => some (.start 1), fun _ => some (.timer 0 [2] [0] 0)]).map
      (fun outcome => ((outcome.2.agent 1).addr, outcome.2.flight.map fun p =>
        decide (p.ip.saddr = 0 ∧ p.cmn.ptype = ptAnt ∧ p.ip.sport = rtPort ∧ p.ip.dport = rtPort ∧
          p.cmn.direction = .down ∧ p.ant.pktDst = 2 ∧
            p.ant.pktMemSize < p.ant.pktMemory.length))) = some (1, [true]) := by
    decide +kernel
  obtain ⟨trace, net, run, facts⟩ := Net.exists_run_of_follow params observed
  simp only [Prod.mk.injEq] at facts
  obtain ⟨own, single⟩ := facts
  rcases List.map_eq_singleton_iff.mp single with ⟨p, flight, shape⟩
  obtain ⟨saddr, type, sport, dport, direction, dest, room⟩ := of_decide_eq_true shape
  have inFlight : p ∈ net.flight := by rw [flight]; exact List.mem_singleton_self p
  have keeps : (Medium.perfect ℚ).KeepsHeader := fun sent q same => by rw [same]
  have underway : p.Underway 1 :=
    ⟨⟨by rw [saddr]; decide, type, sport, dport⟩, direction, by rw [dest]; decide⟩
  refine ⟨trace, net, p, run, inFlight, underway, ?_⟩
  refine ((disposesOnce_iff_disposable keeps run (fun _ => ⟨p, inFlight, rfl⟩) 0).2 exact_of_field
    (fun _ _ => by norm_num [params])).mpr ?_
  rw [own]
  exact underway.disposable_iff.mpr (.inr room)

/-- A started agent keeps the first packet its own node sends. -/
theorem own_packet_leaks :
    let sim := Sim.line 2 16
    let params : NsAddr → Params ℚ := fun _ => ⟨1 / 2, 2⟩
    ¬ ∀ (net : Net ℚ) (addr : NsAddr) (p : Packet ℚ) (junk : NsAddr),
      (network sim (.perfect ℚ) params).Reachable net →
      (net.agent addr).timerPending = true →
      (p.cmn.ptype = ptAnt → ∃ q ∈ net.flight, p.ant = q.ant) →
      net.DisposesOnce sim addr p junk := by
  intro sim params disposes
  have observed : ((Net.initial params).follow sim (.perfect ℚ) [fun _ => some (.start 0)]).map
      (fun outcome => ((outcome.2.agent 0).addr, (outcome.2.agent 0).timerPending)) =
        some (0, true) := by
    decide +kernel
  obtain ⟨trace, net, run, facts⟩ := Net.exists_run_of_follow params observed
  simp only [Prod.mk.injEq] at facts
  have reached : (network sim (.perfect ℚ) params).Reachable net := ⟨_, trace, rfl, run⟩
  -- `Packet::alloc` leaves the source address, the type and the number of forwards zero
  have notAnt : (Packet.alloc 16 : Packet ℚ).cmn.ptype ≠ ptAnt := by decide
  have once := disposes net 0 (.alloc 16) 0 reached facts.2 fun isAnt => absurd isAnt notAnt
  rw [Net.disposesOnce_iff fun isAnt => absurd isAnt notAnt] at once
  have forwarded := once.1.1 facts.1.symm
  cases forwarded

end AntAodv
