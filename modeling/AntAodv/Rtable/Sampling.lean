import AntAodv.Rtable.NextHop
import Mathlib.MeasureTheory.Measure.Lebesgue.Basic
import Mathlib.Order.CompletePartialOrder

/-!
# What `calc_next` samples

With the row of a destination as a probability distribution and uniform draws, the
`do`-`while` loop rejects the draws in the parent's cumulative range, and an accepted
draw selects every other neighbour on an interval as long as its pheromone value.
-/

namespace AntAodv.Rtable

open MeasureTheory

/-- The cumulative ranges of the entries of a neighbour. -/
def interval {K : Type} [Field K] [LinearOrder K] (row : PheromoneMatrix K)
    (neighbor : NsAddr) : Set K :=
  { draw | ∃ before entry after, row = before ++ entry :: after ∧ entry.neighbor = neighbor ∧
    Roulette.total Pheromone.phvalue before ≤ draw ∧
      draw < Roulette.total Pheromone.phvalue before + entry.phvalue }

/-- The pheromone value of a neighbour, 0 when it is not in the row. -/
def ph {K : Type} [Field K] (row : PheromoneMatrix K) (neighbor : NsAddr) : K :=
  match row.find? fun entry => entry.neighbor = neighbor with
  | some entry => entry.phvalue
  | none => 0

/-- A row that is a distribution over distinct neighbours. -/
structure Distribution {K : Type} [Field K] [LinearOrder K] (row : PheromoneMatrix K) :
    Prop where
  distinct : (row.map Pheromone.neighbor).Nodup
  positive : ∀ entry ∈ row, 0 < entry.phvalue
  total : Roulette.total Pheromone.phvalue row = 1

section Distribution

variable {K : Type} [Field K] [LinearOrder K] [IsStrictOrderedRing K]
  {row before after : PheromoneMatrix K} {entry : Pheromone K}

omit [Field K] [LinearOrder K] [IsStrictOrderedRing K] in
theorem not_mem_before (distinct : (row.map Pheromone.neighbor).Nodup)
    (split : row = before ++ entry :: after) :
    entry.neighbor ∉ before.map Pheromone.neighbor := by
  rw [split, List.map_append, List.map_cons] at distinct
  intro membership
  exact (List.nodup_append.mp distinct).2.2 _ membership _ (by simp) rfl

omit [Field K] [LinearOrder K] [IsStrictOrderedRing K] in
/-- A neighbour has one place in a row. -/
theorem split_unique (distinct : (row.map Pheromone.neighbor).Nodup)
    (split : row = before ++ entry :: after) {before' after' : PheromoneMatrix K}
    {entry' : Pheromone K} (split' : row = before' ++ entry' :: after')
    (same : entry'.neighbor = entry.neighbor) : before' = before ∧ entry' = entry := by
  have place : ∀ front (middle : Pheromone K) back, row = front ++ middle :: back →
      (row.map Pheromone.neighbor).idxOf middle.neighbor = front.length := by
    intro front middle back order
    have absent := not_mem_before distinct order
    rw [order, List.map_append, List.map_cons, List.idxOf_append_of_notMem absent,
      List.idxOf_cons_self, List.length_map, Nat.add_zero]
  have lengths : before'.length = before.length := by
    rw [← place _ _ _ split', ← place _ _ _ split, same]
  obtain ⟨front, rest⟩ := List.append_inj (split'.symm.trans split) lengths
  exact ⟨front, (List.cons.inj rest).1⟩

omit [IsStrictOrderedRing K] in
theorem interval_of_not_mem {neighbor : NsAddr}
    (absent : neighbor ∉ row.map Pheromone.neighbor) : interval row neighbor = ∅ := by
  ext draw
  constructor
  · rintro ⟨before, entry, after, rfl, rfl, _⟩
    exact absent (by simp)
  · exact False.elim

namespace Distribution

omit [IsStrictOrderedRing K] in
theorem interval_eq (distribution : Distribution row) (split : row = before ++ entry :: after) :
    interval row entry.neighbor = Set.Ico (Roulette.total Pheromone.phvalue before)
      (Roulette.total Pheromone.phvalue before + entry.phvalue) := by
  ext draw
  constructor
  · rintro ⟨before', entry', after', split', same, range⟩
    obtain ⟨rfl, rfl⟩ := split_unique distribution.distinct split split' same
    exact range
  · intro range
    exact ⟨before, entry, after, split, rfl, range⟩

omit [IsStrictOrderedRing K] in
theorem ph_eq (distribution : Distribution row) (split : row = before ++ entry :: after) :
    ph row entry.neighbor = entry.phvalue := by
  have absent : before.find? (fun other => other.neighbor = entry.neighbor) = none := by
    apply List.find?_eq_none.mpr
    intro other membership same
    apply not_mem_before distribution.distinct split
    exact List.mem_map.mpr ⟨other, membership, of_decide_eq_true same⟩
  rw [ph, split, List.find?_append, absent]
  simp

omit [LinearOrder K] [IsStrictOrderedRing K] in
theorem ph_of_not_mem {neighbor : NsAddr} (absent : neighbor ∉ row.map Pheromone.neighbor) :
    ph row neighbor = 0 := by
  have none : row.find? (fun other => other.neighbor = neighbor) = none := by
    apply List.find?_eq_none.mpr
    intro other membership same
    exact absent (List.mem_map.mpr ⟨other, membership, of_decide_eq_true same⟩)
  rw [ph, none]

/-- The entries around one of them take the rest of the wheel. -/
theorem total_split (distribution : Distribution row) (split : row = before ++ entry :: after) :
    0 ≤ Roulette.total Pheromone.phvalue before ∧ 0 < entry.phvalue ∧
      0 ≤ Roulette.total Pheromone.phvalue after ∧
      Roulette.total Pheromone.phvalue before + entry.phvalue +
        Roulette.total Pheromone.phvalue after = 1 := by
  refine ⟨?_, ?_, ?_, ?_⟩
  · apply Roulette.total_nonneg
    intro passed membership
    exact (distribution.positive passed (by rw [split]; simp [membership])).le
  · exact distribution.positive entry (by rw [split]; simp)
  · apply Roulette.total_nonneg
    intro behind membership
    exact (distribution.positive behind (by rw [split]; simp [membership])).le
  · rw [← distribution.total, split, Roulette.total_append, Roulette.total_cons, add_assoc]

/-- Entries of total 0 are none. -/
theorem eq_nil_of_total (distribution : Distribution row)
    {part : PheromoneMatrix K} (inside : part ⊆ row)
    (zero : Roulette.total Pheromone.phvalue part = 0) : part = [] := by
  cases part with
  | nil => rfl
  | cons head rest =>
      have positive := distribution.positive head (inside List.mem_cons_self)
      have nonneg : 0 ≤ Roulette.total Pheromone.phvalue rest := by
        apply Roulette.total_nonneg
        intro entry membership
        exact (distribution.positive entry (inside (List.mem_cons_of_mem head membership))).le
      rw [Roulette.total_cons] at zero
      linarith

/-- An entry that takes the whole wheel is the only one. -/
theorem eq_singleton (distribution : Distribution row) (split : row = before ++ entry :: after)
    (whole : 1 ≤ entry.phvalue) : row = [entry] := by
  obtain ⟨front, _, back, total⟩ := distribution.total_split split
  have noBack : after = [] := by
    apply distribution.eq_nil_of_total
    · intro other membership
      simp [split, membership]
    · linarith
  have noFront : before = [] := by
    apply distribution.eq_nil_of_total
    · intro other membership
      simp [split, membership]
    · linarith
  rw [split, noFront, noBack, List.nil_append]

/-- A draw falls on the entry in whose range it lies. -/
theorem spin_eq (distribution : Distribution row) (split : row = before ++ entry :: after)
    {draw : K} (inside : draw ∈ interval row entry.neighbor) :
    Roulette.spin Pheromone.phvalue draw 0 row = some entry := by
  rw [distribution.interval_eq split] at inside
  rw [split]
  apply Roulette.spin_of_mem_range
  · intro passed membership
    exact (distribution.positive passed (by rw [split]; simp [membership])).le
  · rw [zero_add]
    exact inside.1
  · rw [zero_add]
    exact inside.2

theorem interval_subset (distribution : Distribution row) (neighbor : NsAddr) :
    interval row neighbor ⊆ Set.Ico 0 1 := by
  rintro draw ⟨before, entry, after, split, _, above, below⟩
  obtain ⟨nonneg, _, rest, total⟩ := distribution.total_split split
  exact ⟨nonneg.trans above, by linarith⟩

variable {sim : Sim} {n : ℤ} {rt : Rtable K} {source dest parent : NsAddr}

theorem calcNext_alone (distribution : Distribution row) (known : rt dest = some row)
    (alone : row.map Pheromone.neighbor = [parent]) (draws : List K) :
    calcNext sim n rt source dest parent draws = .ret parent := by
  have bounds := parentBounds parent row
  rw [calcNext_some sim n source parent known]
  generalize parentLower parent row = lower at bounds ⊢
  generalize parentUpper parent row = upper at bounds ⊢
  cases bounds with
  | absent missing =>
      rw [alone] at missing
      exact absurd (List.mem_singleton_self parent) missing
  | @present before after entry split found =>
      have total := distribution.total
      rw [split, List.map_append, List.map_cons] at alone
      rcases List.append_eq_singleton_iff.mp alone with ⟨front, back⟩ | ⟨_, back⟩
      · have noFront := List.map_eq_nil_iff.mp front
        have noBack := List.map_eq_nil_iff.mp (List.cons.inj back).2
        rw [split, noFront, noBack, List.nil_append, Roulette.total_cons, Roulette.total_nil,
          add_zero] at total
        rw [noFront, Roulette.cumulated_zero, Roulette.total_nil, zero_add, total]
        simp
      · cases back

theorem mem_parent_range_iff (distribution : Distribution row) {draw : K} (below : draw < 1) :
    parentLower parent row ≤ draw ∧ draw < parentUpper parent row ↔
      draw ∈ interval row parent := by
  have bounds := parentBounds parent row
  generalize parentLower parent row = lower at bounds ⊢
  generalize parentUpper parent row = upper at bounds ⊢
  cases bounds with
  | absent missing =>
      rw [interval_of_not_mem missing, Roulette.cumulated_zero, distribution.total]
      constructor
      · exact fun inside => absurd inside.1 below.not_ge
      · exact False.elim
  | @present before after entry split found =>
      obtain ⟨nonneg, positive, _, _⟩ := distribution.total_split split
      rw [← found, distribution.interval_eq split, Roulette.cumulated_zero,
        if_neg (by positivity)]
      exact Iff.rfl

variable (sim n source) in
/-- Otherwise the loop draws, and rejects the draws in the parent's range. -/
theorem calcNext_draws (distribution : Distribution row) (known : rt dest = some row)
    (others : row.map Pheromone.neighbor ≠ [parent]) (draws : List K) :
    calcNext sim n rt source dest parent draws =
      match drawOutside (parentLower parent row) (parentUpper parent row) draws with
      | none => .looping
      | some draw =>
          match Roulette.spin Pheromone.phvalue draw 0 row with
          | some entry => .ret entry.neighbor
          | none => .offEnd := by
  have drawing : ¬ (parentLower parent row = 0 ∧ parentUpper parent row = 1) := by
    have bounds := parentBounds parent row
    generalize parentLower parent row = lower at bounds ⊢
    generalize parentUpper parent row = upper at bounds ⊢
    rintro ⟨zero, one⟩
    apply others
    cases bounds with
    | absent =>
        rw [Roulette.cumulated_zero, distribution.total] at zero
        exact absurd zero one_ne_zero
    | @present before after entry split found =>
        obtain ⟨_, positive, _, _⟩ := distribution.total_split split
        rw [zero, zero_add, if_neg positive.ne'] at one
        rw [distribution.eq_singleton split one.ge, ← found]
        rfl
  exact (calcNext_some sim n source parent known draws).trans (if_neg drawing)

theorem calcNext_rejected (distribution : Distribution row) (known : rt dest = some row)
    (others : row.map Pheromone.neighbor ≠ [parent]) {draws : List K}
    (inside : ∀ draw ∈ draws, draw ∈ interval row parent) :
    calcNext sim n rt source dest parent draws = .looping := by
  have skipped := drawOutside_append [] fun draw membership =>
    (distribution.mem_parent_range_iff
      (distribution.interval_subset parent (inside draw membership)).2).mpr (inside draw membership)
  rw [distribution.calcNext_draws sim n source known others, ← List.append_nil draws, skipped]
  rfl

/-- The first draw outside the parent's range selects the neighbour in whose range it
lies. -/
theorem calcNext_accepted (distribution : Distribution row) (known : rt dest = some row)
    (others : row.map Pheromone.neighbor ≠ [parent]) {early : List K} {draw : K}
    (inside : ∀ passed ∈ early, passed ∈ interval row parent) (unit : draw ∈ Set.Ico 0 1)
    (outside : draw ∉ interval row parent) (rest : List K) :
    ∃ entry ∈ row, entry.neighbor ≠ parent ∧ draw ∈ interval row entry.neighbor ∧
      calcNext sim n rt source dest parent (early ++ draw :: rest) = .ret entry.neighbor := by
  have skipped := drawOutside_append (draw :: rest) fun passed membership =>
    (distribution.mem_parent_range_iff
      (distribution.interval_subset parent (inside passed membership)).2).mpr
        (inside passed membership)
  have taken : drawOutside (parentLower parent row) (parentUpper parent row) (draw :: rest) =
      some draw := by
    rw [drawOutside, if_neg]
    exact fun within => outside ((distribution.mem_parent_range_iff unit.2).mp within)
  have onWheel : draw < Roulette.cumulated Pheromone.phvalue 0 row := by
    rw [Roulette.cumulated_zero, distribution.total]
    exact unit.2
  obtain ⟨entry, spun⟩ := Roulette.exists_spin unit.1 onWheel
  have selected : draw ∈ interval row entry.neighbor := by
    obtain ⟨before, after, split, above, below⟩ := Roulette.mem_range_of_spin spun
    rw [zero_add] at above below
    exact ⟨before, entry, after, split, rfl, above, below⟩
  refine ⟨entry, Roulette.mem_of_spin spun, ?_, selected, ?_⟩
  · intro same
    exact outside (same ▸ selected)
  · rw [distribution.calcNext_draws sim n source known others, skipped, taken]
    simp only [spun]

/-- Ranges of different neighbours do not meet. -/
theorem interval_unique (distribution : Distribution row) {neighbor other : NsAddr} {draw : K}
    (inside : draw ∈ interval row neighbor) (inside' : draw ∈ interval row other) :
    neighbor = other := by
  obtain ⟨_, entry, _, split, rfl, _⟩ := id inside
  obtain ⟨_, entry', _, split', rfl, _⟩ := id inside'
  have spun := distribution.spin_eq split inside
  have spun' := distribution.spin_eq split' inside'
  rw [Option.some.inj (spun.symm.trans spun')]

omit [Field K] [LinearOrder K] [IsStrictOrderedRing K] in
theorem exists_split {neighbor : NsAddr} (listed : neighbor ∈ row.map Pheromone.neighbor) :
    ∃ before entry after, row = before ++ entry :: after ∧ entry.neighbor = neighbor := by
  rcases List.mem_map.mp listed with ⟨entry, membership, same⟩
  rcases List.append_of_mem membership with ⟨before, after, split⟩
  exact ⟨before, entry, after, split, same⟩

theorem one_sub_ph_pos (distribution : Distribution row)
    (others : row.map Pheromone.neighbor ≠ [parent]) : 0 < 1 - ph row parent := by
  by_cases listed : parent ∈ row.map Pheromone.neighbor
  · obtain ⟨before, entry, after, split, rfl⟩ := exists_split listed
    rw [distribution.ph_eq split]
    by_contra full
    apply others
    rw [distribution.eq_singleton split (by linarith)]
    rfl
  · rw [ph_of_not_mem listed, sub_zero]
    exact one_pos

end Distribution

end Distribution

/-! ### The accepted draws -/

/-- The draws that the loop accepts, where `choose` is `calc_next` with given draws. -/
def accepted (choose : List ℝ → NextHop) : Set ℝ :=
  { draw ∈ Set.Ico (0 : ℝ) 1 | choose [draw] ≠ .looping }

/-- The accepted draws that select a neighbour. -/
def selecting (choose : List ℝ → NextHop) (neighbor : NsAddr) : Set ℝ :=
  { draw ∈ accepted choose | choose [draw] = .ret neighbor }

/-- A row with another neighbour than the parent is sampled without the parent. -/
structure SampledOutside (row : PheromoneMatrix ℝ) (parent : NsAddr)
    (choose : List ℝ → NextHop) : Prop where
  rejected : Set.Ico 0 1 \ accepted choose = interval row parent
  measure : volume (accepted choose) = ENNReal.ofReal (1 - ph row parent)
  positive : 0 < 1 - ph row parent
  /-- As long as all draws are rejected, the loop goes on. -/
  loops : ∀ draws, (∀ draw ∈ draws, draw ∈ interval row parent) → choose draws = .looping
  /-- The first accepted draw decides. -/
  first : ∀ early draw rest, (∀ passed ∈ early, passed ∈ interval row parent) →
    draw ∈ accepted choose → ∃ entry ∈ row, entry.neighbor ≠ parent ∧
      choose (early ++ draw :: rest) = .ret entry.neighbor ∧
      draw ∈ selecting choose entry.neighbor
  share : ∀ entry ∈ row, entry.neighbor ≠ parent → 0 < entry.phvalue ∧
    ∃ lower, selecting choose entry.neighbor = Set.Ico lower (lower + entry.phvalue)
  disjoint : (row.map Pheromone.neighbor).Pairwise fun neighbor other =>
    Disjoint (selecting choose neighbor) (selecting choose other)

section Sampled

variable {row : PheromoneMatrix ℝ} {sim : Sim} {n : ℤ} {rt : Rtable ℝ}
  {source dest parent : NsAddr}

variable (sim n source) in
/-- A single draw outside the parent's range. -/
theorem Distribution.calcNext_first (distribution : Distribution row) (known : rt dest = some row)
    (others : row.map Pheromone.neighbor ≠ [parent]) {draw : ℝ} (unit : draw ∈ Set.Ico 0 1)
    (outside : draw ∉ interval row parent) :
    ∃ neighbor, draw ∈ interval row neighbor ∧
      calcNext sim n rt source dest parent [draw] = .ret neighbor := by
  obtain ⟨entry, _, _, inside, returned⟩ :=
    distribution.calcNext_accepted known others (List.forall_mem_nil _) unit outside []
  exact ⟨entry.neighbor, inside, returned⟩

theorem Distribution.mem_accepted_iff (distribution : Distribution row)
    (known : rt dest = some row) (others : row.map Pheromone.neighbor ≠ [parent]) {draw : ℝ} :
    draw ∈ accepted (calcNext sim n rt source dest parent) ↔
      draw ∈ Set.Ico 0 1 ∧ draw ∉ interval row parent := by
  constructor
  · rintro ⟨unit, returned⟩
    refine ⟨unit, fun inside => returned ?_⟩
    apply distribution.calcNext_rejected known others
    simpa using inside
  · rintro ⟨unit, outside⟩
    obtain ⟨neighbor, _, returned⟩ :=
      distribution.calcNext_first sim n source known others unit outside
    refine ⟨unit, fun looping => ?_⟩
    rw [looping] at returned
    cases returned

/-- Any neighbour but the parent is selected on its range. -/
theorem Distribution.selecting_eq (distribution : Distribution row) (known : rt dest = some row)
    (others : row.map Pheromone.neighbor ≠ [parent]) {neighbor : NsAddr}
    (different : neighbor ≠ parent) :
    selecting (calcNext sim n rt source dest parent) neighbor = interval row neighbor := by
  ext draw
  constructor
  · rintro ⟨isAccepted, selected⟩
    obtain ⟨unit, outside⟩ := (distribution.mem_accepted_iff known others).mp isAccepted
    obtain ⟨selection, inside, returned⟩ :=
      distribution.calcNext_first sim n source known others unit outside
    rw [selected, NextHop.ret.injEq] at returned
    exact returned ▸ inside
  · intro inside
    have unit := distribution.interval_subset neighbor inside
    have outside : draw ∉ interval row parent :=
      fun back => different (distribution.interval_unique inside back)
    obtain ⟨selection, inside', returned⟩ :=
      distribution.calcNext_first sim n source known others unit outside
    rw [distribution.interval_unique inside inside']
    exact ⟨(distribution.mem_accepted_iff known others).mpr ⟨unit, outside⟩, returned⟩

theorem Distribution.measurableSet_interval (distribution : Distribution row)
    (neighbor : NsAddr) : MeasurableSet (interval row neighbor) := by
  by_cases listed : neighbor ∈ row.map Pheromone.neighbor
  · obtain ⟨before, entry, after, split, rfl⟩ := exists_split listed
    rw [distribution.interval_eq split]
    exact measurableSet_Ico
  · rw [interval_of_not_mem listed]
    exact MeasurableSet.empty

theorem Distribution.volume_interval (distribution : Distribution row) (neighbor : NsAddr) :
    volume (interval row neighbor) = ENNReal.ofReal (ph row neighbor) := by
  by_cases listed : neighbor ∈ row.map Pheromone.neighbor
  · obtain ⟨before, entry, after, split, rfl⟩ := exists_split listed
    rw [distribution.interval_eq split, distribution.ph_eq split, Real.volume_Ico,
      add_sub_cancel_left]
  · rw [interval_of_not_mem listed, ph_of_not_mem listed, measure_empty, ENNReal.ofReal_zero]

theorem Distribution.ph_nonneg (distribution : Distribution row) (neighbor : NsAddr) :
    0 ≤ ph row neighbor := by
  by_cases listed : neighbor ∈ row.map Pheromone.neighbor
  · obtain ⟨before, entry, after, split, rfl⟩ := exists_split listed
    rw [distribution.ph_eq split]
    exact (distribution.total_split split).2.1.le
  · rw [ph_of_not_mem listed]

theorem Distribution.volume_accepted (distribution : Distribution row) (known : rt dest = some row)
    (others : row.map Pheromone.neighbor ≠ [parent]) :
    volume (accepted (calcNext sim n rt source dest parent)) =
      ENNReal.ofReal (1 - ph row parent) := by
  have split : accepted (calcNext sim n rt source dest parent) =
      Set.Ico 0 1 \ interval row parent := by
    ext draw
    exact distribution.mem_accepted_iff known others
  rw [split, measure_sdiff (distribution.interval_subset parent)
    (distribution.measurableSet_interval parent).nullMeasurableSet, Real.volume_Ico,
    distribution.volume_interval, ENNReal.ofReal_sub _ (distribution.ph_nonneg parent), sub_zero]
  rw [distribution.volume_interval]
  exact ENNReal.ofReal_ne_top

variable (sim n source) in
theorem Distribution.rejected (distribution : Distribution row) (known : rt dest = some row)
    (others : row.map Pheromone.neighbor ≠ [parent]) :
    Set.Ico 0 1 \ accepted (calcNext sim n rt source dest parent) = interval row parent := by
  ext draw
  rw [Set.mem_sdiff, distribution.mem_accepted_iff known others, not_and, not_not]
  constructor
  · intro inside
    exact inside.2 inside.1
  · intro inside
    exact ⟨distribution.interval_subset parent inside, fun _ => inside⟩

/-- `calc_next` samples the row's distribution, conditioned on not going back. -/
theorem calcNext_sampledOutside (distribution : Distribution row) (known : rt dest = some row) :
    (calcNext sim n rt source dest parent [] = .ret parent ↔
      row.map Pheromone.neighbor = [parent]) ∧
    (row.map Pheromone.neighbor ≠ [parent] →
      SampledOutside row parent (calcNext sim n rt source dest parent)) := by
  constructor
  · constructor
    · intro returned
      by_contra others
      rw [distribution.calcNext_rejected known others (by simp)] at returned
      cases returned
    · intro alone
      exact distribution.calcNext_alone known alone []
  · intro others
    have rejected := distribution.rejected sim n source known others
    refine ⟨rejected, ?_, distribution.one_sub_ph_pos others, ?_, ?_, ?_, ?_⟩
    · exact distribution.volume_accepted known others
    · intro draws inside
      exact distribution.calcNext_rejected known others inside
    · intro early draw rest inside isAccepted
      obtain ⟨unit, outside⟩ := (distribution.mem_accepted_iff known others).mp isAccepted
      obtain ⟨entry, membership, different, selected, returned⟩ :=
        distribution.calcNext_accepted known others inside unit outside rest
      refine ⟨entry, membership, different, returned, ?_⟩
      rw [distribution.selecting_eq known others different]
      exact selected
    · intro entry membership different
      rcases List.append_of_mem membership with ⟨before, after, split⟩
      refine ⟨distribution.positive entry membership, Roulette.total Pheromone.phvalue before, ?_⟩
      rw [distribution.selecting_eq known others different]
      exact distribution.interval_eq split
    · refine distribution.distinct.imp ?_
      intro neighbor other different
      apply Set.disjoint_left.mpr
      rintro draw ⟨_, selected⟩ ⟨_, selected'⟩
      exact different (NextHop.ret.inj (selected.symm.trans selected'))

/-- A node with three neighbours, the second of which is the parent. -/
theorem calcNext_sampledOutside_three :
    let row : PheromoneMatrix ℝ := [⟨1, 1 / 2⟩, ⟨2, 1 / 4⟩, ⟨3, 1 / 4⟩]
    SampledOutside row 2 (calcNext (Sim.line 4 maxNumNodes) 3 (fun _ => some row) 0 3 2) := by
  intro row
  have distribution : Distribution row := by
    refine ⟨by decide, ?_, ?_⟩
    · simp [row]
    · norm_num [row]
  exact (calcNext_sampledOutside distribution rfl).2 (by decide)

end Sampled

end AntAodv.Rtable
