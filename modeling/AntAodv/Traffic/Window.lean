import AntAodv.Traffic.Estimates
import Mathlib.Data.List.DropRight
import Mathlib.Tactic.NormNum

/-!
# The observation window

`WIN_LEN` is to bound the window of trip times to a destination, but `update_traffic`
does not read it: the window keeps every sample, and the best trip time is the least
of them all.
-/

namespace AntAodv

variable {K : Type}

/-- `WIN_LEN`, the maximum length of an observation window. -/
def winLen : ℕ := 300

/-! ### The slots behind a node -/

namespace HdrAntPkt

variable {addr : NsAddr} {ah : HdrAntPkt K}

theorem exists_split_of_scan {index : ℕ}
    (scan : scanUnbounded addr 0 ah.pktMemory = .ok index) :
    ∃ before self after, ah.pktMemory = before ++ self :: after ∧
      addr ∉ before.map Memory.nodeAddr ∧ self.nodeAddr = addr ∧ index = before.length := by
  by_cases present : addr ∈ ah.pktMemory.map Memory.nodeAddr
  · obtain ⟨before, self, after, split, fresh, found⟩ := exists_first_slot present
    rw [split, scanUnbounded_found fresh found, Nat.zero_add] at scan
    exact ⟨before, self, after, split, fresh, found, (Except.ok.inj scan).symm⟩
  · rw [scanUnbounded_absent present] at scan
    cases scan

theorem live_of_lt {before after : List (Memory K)} {self : Memory K}
    (split : ah.pktMemory = before ++ self :: after) (inUse : before.length < ah.pktMemSize) :
    ah.live = before ++ self :: after.take (ah.pktMemSize - (before.length + 1)) := by
  obtain ⟨count, size⟩ := Nat.exists_eq_add_of_lt inUse
  rw [live, split, size, Nat.add_assoc, List.take_length_add_append, List.take_succ_cons]
  congr 3
  omega

variable [Field K]

/-- A node found behind the memory in use gives no samples. -/
theorem sampled_stale {before after : List (Memory K)} {self : Memory K}
    (split : ah.pktMemory = before ++ self :: after) (fresh : addr ∉ before.map Memory.nodeAddr)
    (stale : ah.pktMemSize ≤ before.length) :
    ah.sampled addr = [] := by
  have others : ∀ entry ∈ ah.live, decide (entry.nodeAddr ≠ addr) = true := by
    intro entry member
    rw [live, split, List.take_append_of_le_length stale] at member
    apply decide_eq_true
    rintro rfl
    exact fresh (List.mem_map_of_mem (List.mem_of_mem_take member))
  rw [sampled, List.dropWhile_eq_nil_iff.mpr others]

end HdrAntPkt

namespace Traffic

variable [Field K] [LinearOrder K]

/-! ### What a call keeps -/

/-- The first two loops of `update_traffic`.  The third only assigns `r`. -/
def record (addr : NsAddr) (ah : HdrAntPkt K) (t : Traffic K) :
    Except TrafficFault (Traffic K) := do
  let i ← ofMemory (HdrAntPkt.scanUnbounded addr 0 ah.pktMemory)
  let self ← ofMemory (ah.read i)
  let initialtt := self.tripTime
  let i := i + 1
  let _next ← ofMemory (ah.read i)
  let count := ah.pktMemSize - i
  let t ← forSlots ah initialtt (fun dest tt t => .ok (t.updateWindow dest tt)) i count t
  forSlots ah initialtt updateState i count t

/-- The models of an agent after calls of `update_traffic` for ants in order,
whatever the third loop makes of `r`. -/
inductive Reached (addr : NsAddr) : List (HdrAntPkt K) → Traffic K → Prop
  | init : Reached addr [] init
  | call {ants : List (HdrAntPkt K)} {ah : HdrAntPkt K} {t t' : Traffic K} (assigned : List K)
      (before : Reached addr ants t) (run : t.record addr ah = .ok t') :
      Reached addr (ants ++ [ah]) { t' with assigned }

/-- The window to `dest` holds the most recent of the samples, at most `winLen`, and
the best trip time is the least of them. -/
structure Slides (samples : List K) (dest : NsAddr) (t : Traffic K) : Prop where
  bounded : ∀ winTt, t.window dest = some winTt → winTt.length ≤ winLen
  recent : t.window dest = windowOf (samples.rtake winLen)
  best : (t.state dest).map TrafficMatrix.bestTt = (samples.rtake winLen).min?

/-! ### A call as two passes -/

variable {addr : NsAddr} {ah : HdrAntPkt K} {t t' : Traffic K}

omit [Field K] [LinearOrder K] in
theorem ofMemory_eq_ok {α : Type} {result : Except Fault α} {value : α}
    (same : ofMemory result = .ok value) : result = .ok value := by
  cases result with
  | ok result => simpa using same
  | error fault => cases same

omit [LinearOrder K] in
/-- A loop that returns stays inside the slots. -/
theorem forSlots_inside {initialtt : K}
    {body : NsAddr → K → Traffic K → Except TrafficFault (Traffic K)} {index count : ℕ}
    (run : forSlots ah initialtt body index count t = .ok t') (positive : 0 < count) :
    index + count ≤ ah.pktMemory.length := by
  induction count generalizing index t with
  | zero => exact absurd positive (Nat.lt_irrefl 0)
  | succ count inductionHypothesis =>
      rw [forSlots] at run
      obtain ⟨entry, slot, rest⟩ := bind_eq_ok run
      obtain ⟨next, _, later⟩ := bind_eq_ok rest
      have inside : index < ah.pktMemory.length := by
        by_contra outside
        rw [HdrAntPkt.read_outside (not_lt.mp outside)] at slot
        cases slot
      cases count with
      | zero => exact inside
      | succ count =>
          have further := inductionHypothesis later (Nat.succ_pos count)
          omega

/-- A call that returns has passed over the samples of its ant twice. -/
theorem passes_of_record (run : t.record addr ah = .ok t') :
    ∃ windows, forSamples (fun dest tt t => .ok (t.updateWindow dest tt)) (ah.sampled addr) t =
        .ok windows ∧
      forSamples updateState (ah.sampled addr) windows = .ok t' := by
  rw [record] at run
  obtain ⟨i, scan, run⟩ := bind_eq_ok run
  obtain ⟨self, slot, run⟩ := bind_eq_ok run
  obtain ⟨_, _, run⟩ := bind_eq_ok run
  obtain ⟨windows, first, second⟩ := bind_eq_ok run
  obtain ⟨before, entry, after, split, fresh, found, rfl⟩ :=
    HdrAntPkt.exists_split_of_scan (ofMemory_eq_ok scan)
  refine ⟨windows, ?_⟩
  by_cases inUse : before.length < ah.pktMemSize
  · have order := HdrAntPkt.live_of_lt split inUse
    obtain rfl : entry = self := by
      simpa [HdrAntPkt.read_live order] using slot
    have further : ah.live = (before ++ [entry]) ++
        after.take (ah.pktMemSize - (before.length + 1)) := by simpa using order
    have count : (after.take (ah.pktMemSize - (before.length + 1))).length =
        ah.pktMemSize - (before.length + 1) := by
      rw [List.length_take, Nat.min_eq_left]
      by_contra short
      have inside := forSlots_inside first (by omega)
      rw [split, List.length_append, List.length_cons] at inside
      omega
    have loop := fun body t => forSlots_eq further entry.tripTime body t
    simp only [List.length_append, List.length_singleton, count] at loop
    rw [HdrAntPkt.sampled_eq order fresh found, ← loop, ← loop]
    exact ⟨first, second⟩
  · have none : ah.pktMemSize - (before.length + 1) = 0 := by omega
    rw [none] at first second
    rw [HdrAntPkt.sampled_stale split fresh (not_lt.mp inUse)]
    exact ⟨first, second⟩

/-- A call for an ant that visited other nodes after this one returns. -/
theorem record_ok {history : NsAddr → List K} (records : Records history t)
    (bounded : ah.pktMemSize ≤ ah.pktMemory.length) (visited : addr ∈ ah.path.dropLast) :
    ∃ t', t.record addr ah = .ok t' := by
  obtain ⟨i, self, next, scan, slot, slotNext, loop⟩ := exists_slots bounded visited
  obtain ⟨windows, t', first, second, _⟩ := records.passes (ah.sampled addr)
  refine ⟨t', ?_⟩
  rw [record, scan]
  simp only [ofMemory_ok, ok_bind, slot, slotNext, loop, first, second]

/-! ### The third loop -/

theorem findR_keeps {sqrt : K → K} {dest : NsAddr} {tt : K}
    (run : t.findR sqrt dest tt = .ok t') : ∃ assigned, t' = { t with assigned } := by
  rw [findR] at run
  obtain ⟨entry, _, run⟩ := bind_eq_ok run
  obtain ⟨sigma, _, run⟩ := bind_eq_ok run
  obtain ⟨w, _, run⟩ := bind_eq_ok run
  obtain ⟨rootW, _, run⟩ := bind_eq_ok run
  obtain ⟨spread, _, run⟩ := bind_eq_ok run
  by_cases flat : entry.meanTt + zee * spread = entry.bestTt ∧ entry.bestTt = tt
  · rw [if_pos flat] at run
    exact ⟨_, (Except.ok.inj run).symm⟩
  · rw [if_neg flat] at run
    obtain ⟨ratio, _, run⟩ := bind_eq_ok run
    obtain ⟨share, _, run⟩ := bind_eq_ok run
    exact ⟨_, (Except.ok.inj run).symm⟩

theorem forSlots_findR_keeps {sqrt : K → K} {initialtt : K} {index count : ℕ}
    (run : forSlots ah initialtt (findR sqrt) index count t = .ok t') :
    ∃ assigned, t' = { t with assigned } := by
  induction count generalizing index t with
  | zero =>
      cases run
      exact ⟨_, rfl⟩
  | succ count inductionHypothesis =>
      rw [forSlots] at run
      obtain ⟨entry, _, run⟩ := bind_eq_ok run
      obtain ⟨next, step, later⟩ := bind_eq_ok run
      obtain ⟨assigned, rfl⟩ := findR_keeps step
      obtain ⟨assignedLast, rfl⟩ := inductionHypothesis later
      exact ⟨assignedLast, rfl⟩

/-! ### Any number of calls -/

theorem Reached.updateTraffic {ants : List (HdrAntPkt K)} (reached : Reached addr ants t)
    {sqrt : K → K} (run : t.updateTraffic sqrt addr ah = .ok t') :
    Reached addr (ants ++ [ah]) t' := by
  rw [Traffic.updateTraffic] at run
  obtain ⟨i, scan, run⟩ := bind_eq_ok run
  obtain ⟨self, slot, run⟩ := bind_eq_ok run
  obtain ⟨next, slotNext, run⟩ := bind_eq_ok run
  obtain ⟨windows, first, run⟩ := bind_eq_ok run
  obtain ⟨recorded, second, third⟩ := bind_eq_ok run
  obtain ⟨assigned, rfl⟩ := forSlots_findR_keeps third
  apply Reached.call assigned reached
  rw [record]
  simp only [scan, slot, slotNext, first, second, ok_bind]

/-- Calls that return reach their models. -/
theorem Reached.updateAll {ants more : List (HdrAntPkt K)} (reached : Reached addr ants t)
    {sqrt : K → K} (run : t.updateAll sqrt addr more = .ok t') :
    Reached addr (ants ++ more) t' := by
  induction more generalizing ants t with
  | nil =>
      cases run
      simpa using reached
  | cons ah more inductionHypothesis =>
      rw [Traffic.updateAll] at run
      obtain ⟨middle, step, later⟩ := bind_eq_ok run
      simpa using inductionHypothesis (reached.updateTraffic step) later

theorem Reached.records {ants : List (HdrAntPkt K)} (reached : Reached addr ants t) :
    Records (fun dest => samplesFor addr dest ants) t := by
  induction reached with
  | init => exact ⟨fun _ => rfl, fun _ => rfl, fun _ => rfl⟩
  | @call ants ah t t' assigned before run recordsBefore =>
      obtain ⟨windows, first, second⟩ := passes_of_record run
      obtain ⟨windows', t'', sameFirst, sameSecond, records, _⟩ :=
        recordsBefore.passes (ah.sampled addr)
      rw [first] at sameFirst
      cases sameFirst
      rw [second] at sameSecond
      cases sameSecond
      have grown : ∀ dest, samplesFor addr dest (ants ++ [ah]) =
          samplesFor addr dest ants ++ valuesFor dest (ah.sampled addr) := by
        intro dest
        simp [samplesFor]
      simp only [grown]
      exact ⟨records.window, records.moments, records.best⟩

/-- Calls for ants that visited other nodes after this one reach a model. -/
theorem exists_reached {ants : List (HdrAntPkt K)}
    (visited : ∀ ah ∈ ants, ah.pktMemSize ≤ ah.pktMemory.length ∧ addr ∈ ah.path.dropLast) :
    ∃ t, Reached addr ants t := by
  induction ants using List.reverseRecOn with
  | nil => exact ⟨_, .init⟩
  | append_singleton ants ah inductionHypothesis =>
      obtain ⟨t, reached⟩ := inductionHypothesis fun ah earlier =>
        visited ah (List.mem_append_left _ earlier)
      obtain ⟨bounded, visited⟩ := visited ah (List.mem_append_right _ (List.mem_singleton_self ah))
      obtain ⟨t', run⟩ := record_ok reached.records bounded visited
      exact ⟨_, reached.call [] run⟩

omit [Field K] in
/-- The least of a list is the least of its end unless something earlier is below
all of the end. -/
theorem min?_append_eq_iff (old : List K) {recent : List K} (nonempty : recent ≠ []) :
    (old ++ recent).min? = recent.min? ↔ ∀ tt ∈ old, ∃ later ∈ recent, later ≤ tt := by
  obtain ⟨best, least⟩ : ∃ best, recent.min? = some best :=
    Option.isSome_iff_exists.mp (List.isSome_min?_of_ne_nil nonempty)
  obtain ⟨isRecent, belowRecent⟩ := List.min?_eq_some_iff.mp least
  rw [least, List.min?_eq_some_iff]
  constructor
  · rintro ⟨_, below⟩ tt member
    exact ⟨best, isRecent, below tt (List.mem_append_left _ member)⟩
  · intro above
    refine ⟨List.mem_append_right _ isRecent, ?_⟩
    intro tt member
    rcases List.mem_append.mp member with inOld | inRecent
    · obtain ⟨later, inRecent, below⟩ := above tt inOld
      exact (belowRecent later inRecent).trans below
    · exact belowRecent tt inRecent

/-- The best trip time is that of the recent samples unless an older one is below
all of them. -/
theorem Reached.best_iff {ants : List (HdrAntPkt K)} (reached : Reached addr ants t)
    {dest : NsAddr} (sampled : samplesFor addr dest ants ≠ []) :
    (t.state dest).map TrafficMatrix.bestTt = ((samplesFor addr dest ants).rtake winLen).min? ↔
      ∀ tt ∈ (samplesFor addr dest ants).rdrop winLen,
        ∃ later ∈ (samplesFor addr dest ants).rtake winLen, later ≤ tt := by
  have nonempty : (samplesFor addr dest ants).rtake winLen ≠ [] := by
    have positive := List.length_pos_of_ne_nil sampled
    simp only [List.rtake, winLen, ne_eq, List.drop_eq_nil_iff]
    omega
  rw [reached.records.best dest, ← min?_append_eq_iff _ nonempty, List.rdrop, List.rtake,
    List.take_append_drop]

end Traffic

/-- The window to a destination slides exactly as long as no more than `winLen`
samples came for it. -/
theorem window_slides_iff [Field K] [LinearOrder K] {addr : NsAddr} {ants : List (HdrAntPkt K)}
    {t : Traffic K} (reached : Traffic.Reached addr ants t) (dest : NsAddr) :
    t.Slides (samplesFor addr dest ants) dest ↔
      (samplesFor addr dest ants).length ≤ winLen := by
  have window := reached.records.window dest
  have best := reached.records.best dest
  constructor
  · intro slides
    cases samples : samplesFor addr dest ants with
    | nil => exact Nat.zero_le _
    | cons first rest =>
        rw [samples] at window
        exact slides.bounded _ window
  · intro short
    have recent : (samplesFor addr dest ants).rtake winLen = samplesFor addr dest ants := by
      rw [List.rtake, Nat.sub_eq_zero_of_le short, List.drop_zero]
    refine ⟨?_, by rw [recent, window], by rw [recent, best]⟩
    intro winTt kept
    cases samples : samplesFor addr dest ants with
    | nil =>
        rw [samples] at window
        cases window.symm.trans kept
    | cons first rest =>
        rw [samples] at window short
        obtain rfl := Option.some.inj (window.symm.trans kept)
        exact short

/-- An ant back at node 0 from its neighbor 1. -/
def backFrom (tt : ℚ) : HdrAntPkt ℚ :=
  ⟨forwardAnt, 1, 0, antSize, 0, 0, [⟨0, 0⟩, ⟨1, tt⟩], 2⟩

theorem samplesFor_backFrom (tts : List ℚ) : samplesFor 0 1 (tts.map backFrom) = tts := by
  induction tts with
  | nil => rfl
  | cons tt tts inductionHypothesis =>
      have one : (backFrom tt).sampled 0 = [(1, tt)] := by
        simp [backFrom, HdrAntPkt.sampled, HdrAntPkt.live]
      rw [samplesFor] at inductionHypothesis
      rw [samplesFor, List.map_cons, List.flatMap_cons, inductionHypothesis, one]
      simp [valuesFor]

theorem exists_reached_backFrom (tts : List ℚ) :
    ∃ t, Traffic.Reached 0 (tts.map backFrom) t := by
  apply Traffic.exists_reached
  intro ah member
  rcases List.mem_map.mp member with ⟨tt, _, rfl⟩
  constructor
  · simp [backFrom]
  · simp [backFrom, HdrAntPkt.path, HdrAntPkt.live]

/-- An ant back at node 0 from node 2, by way of node 1. -/
def backFromBehind (tt tt' : ℚ) : HdrAntPkt ℚ :=
  ⟨forwardAnt, 2, 0, antSize, 0, 0, [⟨0, 0⟩, ⟨1, tt⟩, ⟨2, tt'⟩], 3⟩

/-- Three trip times to the neighbor and two to the node behind it, in windows for 300. -/
theorem window_slides_iff_first :
    ∃ t, Traffic.Reached 0 [backFromBehind 3 5, backFrom 1, backFromBehind 2 4] t ∧
      t.Slides [3, 1, 2] 1 ∧ t.Slides [5, 4] 2 := by
  obtain ⟨t, reached⟩ : ∃ t,
      Traffic.Reached 0 [backFromBehind 3 5, backFrom 1, backFromBehind 2 4] t := by
    apply Traffic.exists_reached
    intro ah member
    simp only [List.mem_cons, List.not_mem_nil, or_false] at member
    rcases member with rfl | rfl | rfl <;>
      exact ⟨by simp [backFrom, backFromBehind],
        by simp [backFrom, backFromBehind, HdrAntPkt.path, HdrAntPkt.live]⟩
  have near : samplesFor 0 1 [backFromBehind 3 5, backFrom 1, backFromBehind 2 4] = [3, 1, 2] := by
    decide +kernel
  have far : samplesFor 0 2 [backFromBehind 3 5, backFrom 1, backFromBehind 2 4] = [5, 4] := by
    decide +kernel
  have slides := (window_slides_iff reached 1).mpr (by rw [near]; decide)
  have slides' := (window_slides_iff reached 2).mpr (by rw [far]; decide)
  rw [near] at slides
  rw [far] at slides'
  exact ⟨t, reached, slides, slides'⟩

/-- Behind 300 later samples of 2 the first sample of 1 is still in the window and
still the best trip time. -/
theorem window_never_slides :
    ∃ t, Traffic.Reached 0 ((1 :: List.replicate 300 2).map backFrom) t ∧
      ¬ t.Slides (samplesFor 0 1 ((1 :: List.replicate 300 2).map backFrom)) 1 ∧
      t.window 1 = some (1 :: List.replicate 300 2) ∧
      (t.state 1).map TrafficMatrix.bestTt = some 1 ∧
      ((1 :: List.replicate 300 (2 : ℚ)).rtake winLen).min? = some 2 := by
  obtain ⟨t, reached⟩ := exists_reached_backFrom (1 :: List.replicate 300 2)
  have window := reached.records.window 1
  have best := reached.records.best 1
  rw [samplesFor_backFrom] at window best ⊢
  have least : (1 :: List.replicate 300 (2 : ℚ)).min? = some 1 := by
    apply List.min?_eq_some_iff.mpr
    refine ⟨List.mem_cons_self, ?_⟩
    intro tt member
    rcases List.mem_cons.mp member with rfl | later
    · exact le_rfl
    · rw [List.eq_of_mem_replicate later]
      norm_num
  refine ⟨t, reached, ?_, window, best.trans least, ?_⟩
  · intro slides
    have short := slides.bounded _ window
    rw [List.length_cons, List.length_replicate] at short
    exact absurd short (by decide)
  · have recent : (1 :: List.replicate 300 (2 : ℚ)).rtake winLen = List.replicate 300 2 := by
      rw [List.rtake, List.length_cons, List.length_replicate, winLen, Nat.add_sub_cancel_left,
        List.drop_one, List.tail_cons]
    rw [recent, List.min?_replicate_of_pos (by decide)]

end AntAodv
