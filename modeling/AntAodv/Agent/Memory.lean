import AntAodv.Agent
import AntAodv.Library.LoopErasure

/-!
# The route memory of an ant

What the scans, writes and shifts of `pkt_memory_` do to the entries in use, and
from that what one call of `memorize` does.
-/

namespace AntAodv

section Except

variable {α β ε : Type}

@[simp]
theorem ok_bind (value : α) (next : α → Except ε β) :
    (Except.ok value >>= next) = next value := rfl

@[simp]
theorem error_bind (error : ε) (next : α → Except ε β) :
    (Except.error error >>= next) = .error error := rfl

theorem bind_eq_ok {first : Except ε α} {next : α → Except ε β} {result : β}
    (run : (first >>= next) = .ok result) :
    ∃ value, first = .ok value ∧ next value = .ok result := by
  cases first with
  | ok value => exact ⟨value, rfl, run⟩
  | error error => cases run

theorem bind_eq_error {first : Except ε α} {next : α → Except ε β} {error : ε}
    (run : (first >>= next) = .error error) :
    first = .error error ∨ ∃ value, first = .ok value ∧ next value = .error error := by
  cases first with
  | ok value => exact .inr ⟨value, rfl, run⟩
  | error first =>
      cases run
      apply Or.inl
      rfl

theorem exists_of_toOption {observe : α → β} {result : Except ε α} {outcome : β}
    (observed : result.toOption.map observe = some outcome) :
    ∃ value, result = .ok value ∧ observe value = outcome := by
  cases result with
  | ok value => exact ⟨value, rfl, Option.some.inj observed⟩
  | error error => cases observed

end Except

namespace HdrAntPkt

variable {K : Type} {ah : HdrAntPkt K} {addr : NsAddr}

theorem length_live (bounded : ah.pktMemSize ≤ ah.pktMemory.length) :
    ah.live.length = ah.pktMemSize := by
  simpa [live] using bounded

theorem length_path (bounded : ah.pktMemSize ≤ ah.pktMemory.length) :
    ah.path.length = ah.pktMemSize := by
  simp [path, length_live bounded]

/-- The slots are the entries in use followed by stale ones. -/
theorem pktMemory_eq (ah : HdrAntPkt K) :
    ah.pktMemory = ah.live ++ ah.pktMemory.drop ah.pktMemSize :=
  (List.take_append_drop _ _).symm

theorem read_natCast {index : ℕ} {entry : Memory K}
    (slot : ah.pktMemory[index]? = some entry) : ah.read index = .ok entry := by
  change ah.read (.ofNat index) = .ok entry
  simp only [read, slot]

theorem read_outside {index : ℕ} (outside : ah.pktMemory.length ≤ index) :
    ah.read index = .error (.memoryIndex (some index)) := by
  change ah.read (.ofNat index) = .error (.memoryIndex (some (.ofNat index)))
  simp only [read, List.getElem?_eq_none outside]

theorem read_negative {index : ℤ} (negative : index < 0) :
    ah.read index = .error (.memoryIndex (some index)) := by
  cases index with
  | ofNat index => exact absurd negative (by simp)
  | negSucc index => rfl

theorem read_live {before after : List (Memory K)} {entry : Memory K}
    (split : ah.live = before ++ entry :: after) :
    ah.read before.length = .ok entry := by
  apply read_natCast
  rw [pktMemory_eq, split]
  simp

theorem write_ok {index : ℕ} {entry : Memory K} (inside : index < ah.pktMemory.length) :
    ah.write index entry = .ok { ah with pktMemory := ah.pktMemory.set index entry } := by
  rw [write, if_pos inside]

theorem write_error {index : ℕ} {entry : Memory K} (outside : ¬ index < ah.pktMemory.length) :
    ah.write index entry = .error (.memoryIndex (some index)) := by
  rw [write, if_neg outside]

/-- The first slot of an address, with those in front of it and behind it. -/
theorem exists_first_slot {slots : List (Memory K)} (present : addr ∈ slots.map Memory.nodeAddr) :
    ∃ before entry after, slots = before ++ entry :: after ∧
      addr ∉ before.map Memory.nodeAddr ∧ entry.nodeAddr = addr := by
  obtain ⟨front, back, order, fresh⟩ := List.eq_append_cons_of_mem present
  rcases List.map_eq_append_iff.mp order with ⟨before, rest, split, isFront, isBack⟩
  rcases List.map_eq_cons_iff.mp isBack with ⟨entry, after, isRest, found, _⟩
  subst isFront isRest
  exact ⟨before, entry, after, split, fresh, found⟩

theorem scanUp_found {before skipped after : List (Memory K)} {entry : Memory K}
    (split : ah.live = before ++ (skipped ++ entry :: after))
    (fresh : addr ∉ skipped.map Memory.nodeAddr) (found : entry.nodeAddr = addr)
    (count : ℕ) :
    ah.scanUp addr before.length (skipped.length + 1 + count) =
      .ok (some (before.length + skipped.length)) := by
  induction skipped generalizing before with
  | nil =>
      have here : ah.live = before ++ entry :: after := by simpa using split
      have slot := read_live here
      simp [scanUp, slot, found, Nat.add_comm 1 count]
  | cons head skipped inductionHypothesis =>
      simp only [List.map_cons, List.mem_cons, not_or] at fresh
      have here : ah.live = before ++ head :: (skipped ++ entry :: after) := by simpa using split
      have slot := read_live here
      have further : ah.live = (before ++ [head]) ++ (skipped ++ entry :: after) := by
        simpa using split
      have rest := inductionHypothesis further fresh.2
      simp only [List.length_append, List.length_singleton] at rest
      rw [List.length_cons, show skipped.length + 1 + 1 + count =
        (skipped.length + 1 + count) + 1 by omega, scanUp, slot, ok_bind,
        if_neg (Ne.symm fresh.1), rest]
      congr 2
      omega

theorem scanUp_absent {before rest : List (Memory K)}
    (split : ah.live = before ++ rest) (fresh : addr ∉ rest.map Memory.nodeAddr) :
    ah.scanUp addr before.length rest.length = .ok none := by
  induction rest generalizing before with
  | nil => rfl
  | cons head rest inductionHypothesis =>
      simp only [List.map_cons, List.mem_cons, not_or] at fresh
      have slot := read_live split
      have further : ah.live = (before ++ [head]) ++ rest := by simpa using split
      have remaining := inductionHypothesis further fresh.2
      simp only [List.length_append, List.length_singleton] at remaining
      rw [List.length_cons, scanUp, slot, ok_bind, if_neg (Ne.symm fresh.1), remaining]

theorem scanDown_found {before after : List (Memory K)} {entry : Memory K}
    (split : ah.live = before ++ entry :: after)
    (fresh : addr ∉ after.map Memory.nodeAddr) (found : entry.nodeAddr = addr) :
    ah.scanDown addr (before.length + 1 + after.length) = .ok (some before.length) := by
  -- the scan passes the entries behind `entry` from the last one on
  suffices passed : ∀ skipped rest, after = skipped ++ rest →
      ah.scanDown addr (before.length + 1 + skipped.length) = .ok (some before.length) from
    passed after [] (by simp)
  intro skipped
  induction skipped using List.reverseRecOn with
  | nil =>
      intro rest _
      rw [List.length_nil, Nat.add_zero, scanDown, read_live split, ok_bind, if_pos found]
  | append_singleton skipped last inductionHypothesis =>
      intro rest order
      have here : ah.live = (before ++ entry :: skipped) ++ last :: rest := by
        rw [split, order]
        simp
      have slot := read_live here
      have different : last.nodeAddr ≠ addr := by
        rintro rfl
        apply fresh
        rw [order]
        simp
      have length : before.length + 1 + (skipped ++ [last]).length =
          (before ++ entry :: skipped).length + 1 := by
        simp only [List.length_append, List.length_cons, List.length_nil]
        omega
      rw [length, scanDown, slot, ok_bind, if_neg different]
      have remaining := inductionHypothesis (last :: rest) (by rw [order]; simp)
      rw [← remaining]
      congr 1
      simp only [List.length_append, List.length_cons]
      omega

theorem scanDown_absent (bounded : ah.pktMemSize ≤ ah.pktMemory.length) (fresh : addr ∉ ah.path) :
    ah.scanDown addr ah.pktMemSize = .ok none := by
  suffices passed : ∀ front rest, ah.live = front ++ rest →
      ah.scanDown addr front.length = .ok none by
    rw [← length_live bounded]
    apply passed ah.live []
    simp
  intro front
  induction front using List.reverseRecOn with
  | nil =>
      intro rest _
      rfl
  | append_singleton front last inductionHypothesis =>
      intro rest split
      have here : ah.live = front ++ last :: rest := by simpa using split
      have slot := read_live here
      have different : last.nodeAddr ≠ addr := by
        rintro rfl
        apply fresh
        simp [path, split]
      rw [List.length_append, List.length_singleton, scanDown, slot, ok_bind, if_neg different]
      apply inductionHypothesis (last :: rest)
      simpa using split

theorem scanUnbounded_found {before : List (Memory K)} {entry : Memory K}
    (fresh : addr ∉ before.map Memory.nodeAddr) (found : entry.nodeAddr = addr)
    (after : List (Memory K)) (index : ℕ) :
    scanUnbounded addr index (before ++ entry :: after) = .ok (index + before.length) := by
  induction before generalizing index with
  | nil => simp [scanUnbounded, found]
  | cons head before inductionHypothesis =>
      simp only [List.map_cons, List.mem_cons, not_or] at fresh
      rw [List.cons_append, scanUnbounded, if_neg (Ne.symm fresh.1),
        inductionHypothesis fresh.2, List.length_cons]
      congr 1
      omega

theorem scanUnbounded_absent {slots : List (Memory K)}
    (fresh : addr ∉ slots.map Memory.nodeAddr) (index : ℕ) :
    scanUnbounded addr index slots =
      .error (.memoryIndex (some ((index + slots.length : ℕ) : ℤ))) := by
  induction slots generalizing index with
  | nil => rfl
  | cons head slots inductionHypothesis =>
      simp only [List.map_cons, List.mem_cons, not_or] at fresh
      rw [scanUnbounded, if_neg (Ne.symm fresh.1), inductionHypothesis fresh.2,
        List.length_cons]
      congr 4
      omega

/-- The shift of the first `count` slots, written out. -/
theorem shiftTimes_eq [Add K] (extra : K) {count : ℕ}
    (bounded : count ≤ ah.pktMemory.length) :
    ah.shiftTimes extra count =
      .ok { ah with
        pktMemory := (ah.pktMemory.take count).map
          (fun entry => { entry with tripTime := entry.tripTime + extra }) ++
            ah.pktMemory.drop count } := by
  induction count with
  | zero => simp [shiftTimes]
  | succ count inductionHypothesis =>
      have inside : count < ah.pktMemory.length := bounded
      rw [shiftTimes, inductionHypothesis (Nat.le_of_succ_le bounded), ok_bind]
      have shifted : ((ah.pktMemory.take count).map
          (fun entry : Memory K => { entry with tripTime := entry.tripTime + extra })).length =
            count := by
        simp only [List.length_map, List.length_take]
        omega
      have slot : ((ah.pktMemory.take count).map
          (fun entry : Memory K => { entry with tripTime := entry.tripTime + extra }) ++
            ah.pktMemory.drop count)[count]? = some ah.pktMemory[count] := by
        rw [List.getElem?_append_right (by omega), shifted]
        simp [inside]
      rw [read_natCast slot, ok_bind, write, if_pos]
      · congr 2
        rw [List.set_append_right _ _ (by omega), shifted, Nat.sub_self,
          List.drop_eq_getElem_cons inside, List.set_cons_zero,
          List.take_succ_eq_append_getElem inside, List.map_append]
        simp
      · simp only [List.length_append, shifted, List.length_drop]
        omega

/-- What one more visit, to `addr` after `time`, makes of the memory. -/
structure Memorized [Arithmetic K] (ah : HdrAntPkt K) (addr : NsAddr) (time : K)
    (ah' : HdrAntPkt K) : Prop where
  header : ah' = { ah with pktMemory := ah'.pktMemory, pktMemSize := ah'.pktMemSize }
  length : ah'.pktMemory.length = ah.pktMemory.length
  bounded : ah'.pktMemSize ≤ ah'.pktMemory.length
  /-- Either the node is new and ends the memory, or the memory is cut back to
  it and the trip times before the loop are shifted by the time of the loop. -/
  live : (addr ∉ ah.path ∧ ah'.live = ah.live ++ [⟨addr, time⟩]) ∨
    ∃ before entry after, ah.live = before ++ entry :: after ∧
      addr ∉ before.map Memory.nodeAddr ∧ entry.nodeAddr = addr ∧
      ah'.live = (before ++ [entry]).map fun kept =>
        { kept with tripTime := kept.tripTime + (time - entry.tripTime) }

section Memorized

variable [Arithmetic K] {time : K} {ah' : HdrAntPkt K}

theorem Memorized.pktSrc (memorized : Memorized ah addr time ah') : ah'.pktSrc = ah.pktSrc := by
  rw [memorized.header]

theorem Memorized.pktDst (memorized : Memorized ah addr time ah') : ah'.pktDst = ah.pktDst := by
  rw [memorized.header]

theorem Memorized.pktSeqNum (memorized : Memorized ah addr time ah') :
    ah'.pktSeqNum = ah.pktSeqNum := by
  rw [memorized.header]

end Memorized

theorem Memorized.path [Arithmetic K] {time : K} {ah' : HdrAntPkt K}
    (memorized : Memorized ah addr time ah') :
    ah'.path = LoopErasure.visit ah.path addr := by
  rcases memorized.live with ⟨fresh, live⟩ | ⟨before, entry, after, split, fresh, same, live⟩
  · rw [LoopErasure.visit_of_not_mem fresh, HdrAntPkt.path, live]
    simp [HdrAntPkt.path]
  · subst same
    have cut := LoopErasure.visit_append_cons fresh (after.map Memory.nodeAddr)
    rw [HdrAntPkt.path, live, HdrAntPkt.path, split]
    simp only [List.map_append, List.map_cons]
    rw [cut]
    simp

end HdrAntPkt

namespace Call

variable {K : Type} {c : Call K} {p : Packet K}

@[simp]
theorem lift_ok {α : Type} (c : Call K) (value : α) : c.lift (.ok value) = .ok value := rfl

@[simp]
theorem lift_error {α : Type} (c : Call K) (fault : Fault) :
    c.lift (.error fault : Except Fault α) = .error ⟨fault, c.log⟩ := rfl

theorem pkt_of_held (held : c.held = some p) : c.pkt = .ok p := by
  rw [pkt, held]

@[simp]
theorem pkt_store (c : Call K) (p : Packet K) : (c.store p).pkt = .ok p := rfl

@[simp]
theorem enter_agent (c : Call K) (op : Op K) : (c.enter op).agent = c.agent := rfl

@[simp]
theorem enter_now (c : Call K) (op : Op K) : (c.enter op).now = c.now := rfl

theorem pkt_enter (held : c.held = some p) (op : Op K) : (c.enter op).pkt = .ok p :=
  pkt_of_held held

variable [Arithmetic K]

theorem memorize_fresh (held : c.held = some p)
    (room : p.ant.pktMemSize < p.ant.pktMemory.length)
    (fresh : c.agent.addr ∉ p.ant.path) :
    c.memorize = .ok ((c.enter .memorize).store { p with
      ant := { p.ant with
        pktMemory := p.ant.pktMemory.set p.ant.pktMemSize
          ⟨c.agent.addr, c.now - p.ant.pktStartTime⟩
        pktMemSize := p.ant.pktMemSize + 1 } }) := by
  have scan := HdrAntPkt.scanUp_absent (List.nil_append p.ant.live).symm fresh
  rw [List.length_nil, HdrAntPkt.length_live room.le] at scan
  rw [memorize, pkt_enter held]
  simp only [ok_bind]
  rw [enter_agent, scan]
  simp [HdrAntPkt.write, room, enter]

theorem memorize_full (held : c.held = some p)
    (full : p.ant.pktMemSize = p.ant.pktMemory.length)
    (fresh : c.agent.addr ∉ p.ant.path) :
    c.memorize = .error
      ⟨.memoryIndex (some p.ant.pktMemSize), c.log ++ [.memorize]⟩ := by
  have scan := HdrAntPkt.scanUp_absent (List.nil_append p.ant.live).symm fresh
  rw [List.length_nil, HdrAntPkt.length_live full.le] at scan
  rw [memorize, pkt_enter held]
  simp only [ok_bind]
  rw [enter_agent, scan]
  simp [HdrAntPkt.write, full, enter]

theorem memorize_revisit (held : c.held = some p)
    (bounded : p.ant.pktMemSize ≤ p.ant.pktMemory.length)
    {before after : List (Memory K)} {entry : Memory K}
    (split : p.ant.live = before ++ entry :: after)
    (fresh : c.agent.addr ∉ before.map Memory.nodeAddr)
    (found : entry.nodeAddr = c.agent.addr) :
    c.memorize = .ok ((c.enter .memorize).store { p with
      ant := { p.ant with
        pktMemory := (p.ant.pktMemory.take (before.length + 1)).map (fun kept =>
          { kept with
            tripTime := kept.tripTime + (c.now - p.ant.pktStartTime - entry.tripTime) }) ++
              p.ant.pktMemory.drop (before.length + 1)
        pktMemSize := before.length + 1 } }) := by
  have size : before.length + 1 + after.length = p.ant.pktMemSize := by
    rw [← HdrAntPkt.length_live bounded, split, List.length_append, List.length_cons]
    omega
  have whole : p.ant.live = [] ++ (before ++ entry :: after) := by simpa using split
  have scan := HdrAntPkt.scanUp_found whole fresh found after.length
  rw [List.length_nil, size, Nat.zero_add] at scan
  let cut : HdrAntPkt K := { p.ant with pktMemSize := before.length + 1 }
  have inside : before.length + 1 ≤ cut.pktMemory.length := le_trans (by omega) bounded
  have shift := HdrAntPkt.shiftTimes_eq (c.now - p.ant.pktStartTime - entry.tripTime) inside
  rw [memorize, pkt_enter held]
  simp only [ok_bind]
  rw [enter_agent, scan]
  simp only [lift_ok, ok_bind, HdrAntPkt.read_live split]
  rw [enter_now, shift]
  rfl

/-- `memorize` succeeds unless a new node meets a full array. -/
theorem memorize_ok (held : c.held = some p)
    (bounded : p.ant.pktMemSize ≤ p.ant.pktMemory.length)
    (room : c.agent.addr ∈ p.ant.path ∨ p.ant.pktMemSize < p.ant.pktMemory.length) :
    ∃ ah, c.memorize = .ok ((c.enter .memorize).store { p with ant := ah }) ∧
      p.ant.Memorized c.agent.addr (c.now - p.ant.pktStartTime) ah := by
  by_cases membership : c.agent.addr ∈ p.ant.path
  · obtain ⟨before, entry, after, split, fresh, entrySame⟩ :=
      HdrAntPkt.exists_first_slot membership
    refine ⟨_, memorize_revisit held bounded split fresh entrySame, ⟨rfl, ?_, ?_, .inr
      ⟨before, entry, after, split, fresh, entrySame, ?_⟩⟩⟩
    · simp only [List.length_append, List.length_map, List.length_take, List.length_drop]
      omega
    · have size := HdrAntPkt.length_live bounded
      rw [split, List.length_append, List.length_cons] at size
      simp only [List.length_append, List.length_map, List.length_take, List.length_drop]
      omega
    · have kept : p.ant.pktMemory.take (before.length + 1) = before ++ [entry] := by
        rw [HdrAntPkt.pktMemory_eq, split, List.append_assoc, List.cons_append,
          List.append_cons, List.take_left' (by simp)]
      rw [HdrAntPkt.live]
      simp only [kept]
      apply List.take_left'
      simp
  · have inside : p.ant.pktMemSize < p.ant.pktMemory.length := room.resolve_left membership
    refine ⟨_, memorize_fresh held inside membership, ⟨rfl, by simp, ?_, .inl
      ⟨membership, ?_⟩⟩⟩
    · rw [List.length_set]
      exact inside
    · have unchanged : (p.ant.pktMemory.take p.ant.pktMemSize).set p.ant.pktMemSize
          ⟨c.agent.addr, c.now - p.ant.pktStartTime⟩ = p.ant.live :=
        List.set_eq_of_length_le (by simp)
      rw [HdrAntPkt.live]
      simp only
      rw [List.take_succ_eq_append_getElem (by simpa using inside), List.take_set, unchanged]
      simp

end Call

end AntAodv
