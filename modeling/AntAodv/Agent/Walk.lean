import AntAodv.Agent.Forward
import Mathlib.Algebra.Order.Field.Rat
import Mathlib.Data.Finset.Card

/-!
# The memory of a forward ant along its walk

The agents an ant visits run `memorize` on it one after another.  After every
call the memory in use is the chronological loop erasure of the walk, and its
trip times charge exactly the surviving hops.
-/

namespace AntAodv

open LoopErasure

/-- The visit a call of `memorize` records: its agent and its time. -/
def Call.arrival {K : Type} (c : Call K) : NsAddr × K := (c.agent.addr, c.now)

def Memory.entry {K : Type} (memory : Memory K) : NsAddr × K :=
  (memory.nodeAddr, memory.tripTime)

variable {K : Type} [Field K]

/-- The agents of `calls` run `memorize` on the same ant, in this order. -/
def Call.memorizeAll : Packet K → List (Call K) → Except (Failure K) (Packet K)
  | p, [] => .ok p
  | p, c :: calls => do
      let c ← (c.store p).memorize
      let p ← c.pkt
      memorizeAll p calls

/-- The memory of an ant that started at time `start` and has made `walk`. -/
structure Walked (slots : ℕ) (start : K) (walk : List (NsAddr × K)) (p : Packet K) : Prop where
  length : p.ant.pktMemory.length = slots
  bounded : p.ant.pktMemSize ≤ slots
  started : p.ant.pktStartTime = start
  charged : ∃ stop, walk.getLast? = some stop ∧
    Charged (stop.2 - start) (loopErase walk) (p.ant.live.map Memory.entry)

theorem Walked.path {slots : ℕ} {start : K} {walk : List (NsAddr × K)} {p : Packet K}
    (walked : Walked slots start walk p) : p.ant.path = (loopErase walk).map Stay.node := by
  rcases walked.charged with ⟨stop, _, charged⟩
  rw [← charged.map_fst, List.map_map]
  rfl

/-- One more call of `memorize` follows the walk one visit further. -/
theorem Walked.memorize {slots : ℕ} {start : K} {walk : List (NsAddr × K)} {p : Packet K}
    (walked : Walked slots start walk p) (c : Call K)
    (room : c.agent.addr ∈ p.ant.path ∨ p.ant.pktMemSize < slots) :
    ∃ c' p', (c.store p).memorize = .ok c' ∧ c'.pkt = .ok p' ∧
      Walked slots start (walk ++ [c.arrival]) p' := by
  have length := walked.length
  obtain ⟨ah, returned, memorized⟩ := Call.memorize_ok (c := c.store p) (p := p) rfl
    (by rw [length]; exact walked.bounded) (by rw [length]; exact room)
  refine ⟨_, _, returned, Call.pkt_store _ _, ?_⟩
  have header := memorized.header
  rcases walked.charged with ⟨last, ends, charged⟩
  refine ⟨memorized.length.trans length, ?_, ?_, c.arrival, by simp, ?_⟩
  · rw [← length, ← memorized.length]
    exact memorized.bounded
  · rw [header]
    exact walked.started
  · rw [loopErase_append]
    have memorized : p.ant.Memorized c.agent.addr (c.now - start) ah := by
      rw [← walked.started]
      exact memorized
    rcases memorized.live with ⟨fresh, live⟩ | ⟨before, entry, after, split, fresh, same, live⟩
    · have elapsed : ∀ stay ∈ (loopErase walk).getLast?,
          c.now - start - (last.2 - start) = c.now - stay.leave := by
        rcases getLast?_loopErase ends with ⟨arrive, lastStay⟩
        rw [lastStay]
        rintro stay ⟨rfl⟩
        exact sub_sub_sub_cancel_right c.now last.2 start
      rw [live, List.map_append]
      exact charged.extend_fresh (by rw [charged.map_fst, ← walked.path]; exact fresh) elapsed
    · have order : p.ant.live.map Memory.entry =
          before.map Memory.entry ++ (c.agent.addr, entry.tripTime) :: after.map Memory.entry := by
        rw [split, List.map_append, List.map_cons, ← same]
        rfl
      have cut := charged.extend_revisit order (by rw [List.map_map]; exact fresh) c.now
      have shifted := cut.shift (c.now - start - entry.tripTime)
      rw [add_sub_cancel] at shifted
      have kept : ah.live.map Memory.entry =
          (before.map Memory.entry ++ [(c.agent.addr, entry.tripTime)]).map
            fun old => (old.1, old.2 + (c.now - start - entry.tripTime)) := by
        rw [live, ← same]
        simp [Memory.entry, Function.comp_def]
      rw [kept]
      exact shifted

theorem Walked.memorizeAll {slots : ℕ} {start : K} {walk : List (NsAddr × K)} {p : Packet K}
    (walked : Walked slots start walk p) (calls : List (Call K))
    (large : ((walk ++ calls.map Call.arrival).map Prod.fst).toFinset.card ≤ slots) :
    ∃ p', Call.memorizeAll p calls = .ok p' ∧
      Walked slots start (walk ++ calls.map Call.arrival) p' := by
  induction calls generalizing walk p with
  | nil => exact ⟨p, rfl, by simpa using walked⟩
  | cons c calls inductionHypothesis =>
      have room : c.agent.addr ∈ p.ant.path ∨ p.ant.pktMemSize < slots := by
        by_cases membership : c.agent.addr ∈ p.ant.path
        · apply Or.inl
          exact membership
        · right
          -- the nodes in memory and the new one are distinct nodes of the walk
          have distinct : (c.agent.addr :: p.ant.path).Nodup :=
            List.nodup_cons.mpr ⟨membership, walked.path ▸ nodup_loopErase walk⟩
          have visited : (c.agent.addr :: p.ant.path).toFinset ⊆
              ((walk ++ (c :: calls).map Call.arrival).map Prod.fst).toFinset := by
            intro node inPath
            rw [List.mem_toFinset] at inPath ⊢
            rcases List.mem_cons.mp inPath with rfl | earlier
            · simp [Call.arrival]
            · rw [walked.path] at earlier
              rw [List.map_append, List.mem_append]
              apply Or.inl
              exact mem_of_mem_loopErase earlier
          have count := (Finset.card_le_card visited).trans large
          rw [List.toFinset_card_of_nodup distinct, List.length_cons,
            HdrAntPkt.length_path (by rw [walked.length]; exact walked.bounded)] at count
          exact count
      obtain ⟨c', p', returned, held, next⟩ := walked.memorize c room
      obtain ⟨last, rest, final⟩ := inductionHypothesis next
        (by simpa only [List.append_assoc, List.map_cons, List.singleton_append] using large)
      refine ⟨last, ?_, ?_⟩
      · rw [Call.memorizeAll, returned, ok_bind, held, ok_bind, rest]
      · simpa only [List.append_assoc, List.map_cons, List.singleton_append] using final

section Emitted

variable [LinearOrder K] {sim : Sim} {c c' : Call K} {p : Packet K}

/-- The ant a returned `send_ant_pkt` hands to the target. -/
theorem Call.sendAntPkt_handed (sent : c.sendAntPkt sim = .ok c') (fresh : c.log = [])
    (emitted : .handed p ∈ c'.log) :
    ∃ dest next, 0 < sim.slots ∧ next ≠ c.agent.addr ∧
      Rtable.calcDestination sim c.globals.numNodes c.agent.addr c.raws = some dest ∧
      NextHop.value c.junk (Rtable.calcNext sim c.globals.n c.agent.rtable c.agent.addr
        dest c.agent.addr c.draws) = some next ∧ p = c.sentAnt sim dest next := by
  obtain ⟨dest, next, slots, chosen, value, rfl⟩ := c.sendAntPkt_cases sent
  simp only [fresh, List.nil_append, List.mem_cons, List.not_mem_nil, or_false,
    reduceCtorEq, false_or] at emitted
  by_cases same : next = c.agent.addr
  · simp [same] at emitted
  · rw [if_neg same] at emitted
    cases emitted
    exact ⟨dest, next, slots, same, chosen, value, rfl⟩

omit [LinearOrder K] in
/-- A new ant's memory holds its source alone. -/
theorem walked_sentAnt (slots : 0 < sim.slots) (dest next : NsAddr) :
    Walked sim.slots c.now [c.arrival] (c.sentAnt sim dest next) := by
  have live : (c.sentAnt sim dest next).ant.live = [⟨c.agent.addr, 0⟩] := by
    obtain ⟨rest, size⟩ := Nat.exists_eq_succ_of_ne_zero slots.ne'
    simp [HdrAntPkt.live, Call.sentAnt, Call.newAnt, Packet.alloc, size, List.replicate_succ]
  refine ⟨by simp [Call.sentAnt, Call.newAnt, Packet.alloc], slots, rfl, c.arrival, rfl, ?_⟩
  rw [live, Call.arrival, sub_self]
  simpa [loopErase, afterLast, lastArrival, Memory.entry] using
    Charged.last (0 : K) (⟨c.agent.addr, c.now, c.now⟩ : Stay NsAddr K)

/-- The live memory of a forward ant is the chronological loop erasure of its
walk, with exact hop times. -/
theorem memory_eq_loopErase [IsStrictOrderedRing K]
    (sent : c.sendAntPkt sim = .ok c') (fresh : c.log = []) (emitted : .handed p ∈ c'.log)
    (calls : List (Call K))
    (large : ((c :: calls).map fun call => call.agent.addr).toFinset.card ≤ sim.slots)
    (ordered : ((c :: calls).map Call.now).IsChain (· ≤ ·)) :
    let walk := (c :: calls).map Call.arrival
    let stays := loopErase walk
    ∃ p', Call.memorizeAll p calls = .ok p' ∧
      p'.ant.path = stays.map Stay.node ∧ p'.ant.path.Nodup ∧
      p'.ant.path.head? = some c.agent.addr ∧
      p'.ant.path.getLast? = walk.getLast?.map Prod.fst ∧
      stays.IsChain (Hop walk) ∧
      p'.ant.live.getLast?.map Memory.tripTime =
        walk.getLast?.map (fun stop => stop.2 - c.now) ∧
      (p'.ant.live.map Memory.tripTime).IsChain (· ≤ ·) ∧
      ∀ index first second entry next,
        stays[index]? = some first → stays[index + 1]? = some second →
        p'.ant.live[index]? = some entry → p'.ant.live[index + 1]? = some next →
        next.tripTime - entry.tripTime = second.arrive - first.leave := by
  intro walk stays
  obtain ⟨dest, next, slots, _, _, _, rfl⟩ := c.sendAntPkt_handed sent fresh emitted
  obtain ⟨p', returned, walked⟩ := (walked_sentAnt slots dest next).memorizeAll calls
    (by simpa [Call.arrival, Function.comp_def] using large)
  have path : p'.ant.path = stays.map Stay.node := walked.path
  rcases walked.charged with ⟨last, ends, charged⟩
  have ends : walk.getLast? = some last := ends
  refine ⟨p', returned, path, path ▸ nodup_loopErase walk, ?_, ?_, loopErase_hops walk, ?_, ?_, ?_⟩
  · rw [path, head?_loopErase]
    rfl
  · rcases getLast?_loopErase ends with ⟨arrive, lastStay⟩
    rw [path, ends, List.getLast?_map, lastStay]
    rfl
  · have total := charged.getLast?
    rw [List.getLast?_map, Option.map_map] at total
    rw [ends]
    exact total
  · have times : walk.map Prod.snd = (c :: calls).map Call.now := by
      simp [walk, Call.arrival, Function.comp_def]
    rw [← times] at ordered
    have chain := charged.isChain_times
      ((loopErase_hops walk).imp fun _ _ hop => hop.leave_le_arrive ordered)
    rw [List.map_map] at chain
    exact chain
  · intro index first second entry next isFirst isSecond isEntry isNext
    have isEntry' : (p'.ant.live.map Memory.entry)[index]? = some entry.entry := by simp [isEntry]
    have isNext' : (p'.ant.live.map Memory.entry)[index + 1]? = some next.entry := by simp [isNext]
    exact charged.difference isFirst isSecond isEntry' isNext'

end Emitted

/-- An ant that walks from node 0 over 1 and 2 back to 0 and then to 3: the time of
the loop is charged to no hop. -/
theorem memory_eq_loopErase_of_loop :
    let call (addr : NsAddr) (now : ℚ) : Call ℚ :=
      ⟨⟨addr, fun _ => some [⟨1, 1⟩], 0, 1 / 2, 4, true⟩, ⟨1 / 2, 0, 4⟩, now, 0, [3], [0], 0,
        none, []⟩
    let calls := [call 1 1, call 2 2, call 0 4, call 3 7]
    ∃ c' p p', (call 0 0).sendAntPkt (.idle {0, 1, 2, 3} (fun _ => [1]) 16) = .ok c' ∧
      .handed p ∈ c'.log ∧ Call.memorizeAll p calls = .ok p' ∧ p'.ant.path = [0, 3] ∧
      p'.ant.live.getLast?.map Memory.tripTime = some 7 ∧
      (p'.ant.live.map Memory.tripTime).IsChain (· ≤ ·) := by
  intro call calls
  have sends : ((call 0 0).sendAntPkt (.idle {0, 1, 2, 3} (fun _ => [1]) 16)).toOption.map
      (fun c' => c'.log.getLast?) = some (some (.handed
        ((call 0 0).sentAnt (.idle {0, 1, 2, 3} (fun _ => [1]) 16) 3 1))) := by
    decide +kernel
  obtain ⟨c', sent, last⟩ := exists_of_toOption sends
  have emitted := List.mem_of_getLast? last
  obtain ⟨p', memorized, path, _, _, _, _, total, ordered, _⟩ :=
    memory_eq_loopErase sent rfl emitted calls (by decide)
      (by simp [calls, call]; decide +kernel)
  refine ⟨c', _, p', sent, emitted, memorized, ?_, ?_, ordered⟩
  · rw [path]
    simp [calls, call, Call.arrival, loopErase, afterLast, lastArrival]
  · rw [total]
    simp [calls, call, Call.arrival]

end AntAodv
