import AntAodv.Rtable.Rows
import Mathlib.Data.List.TakeWhile

/-!
# The choice of the next hop

`calc_next` spins the row's wheel for a draw outside the range of the parent.  It
yields the parent or a neighbour of the row; with a row that adds up to at least one
it never runs off its end.  When its arithmetic is exact and no weight leaves the unit
interval, some draw lets it return.
-/

namespace AntAodv.Rtable

variable {K : Type} [Arithmetic K] {n : ℤ} {queue : NsAddr → ℕ} {qtotal : K}

/-- `thisprob` is written in both passes and read in neither. -/
theorem parentRange_congr (n n' : ℤ) (queue queue' : NsAddr → ℕ) (qtotal qtotal' : K)
    (parent : NsAddr) (ranges ranges' : Ranges K) (lrange : ranges.lrange = ranges'.lrange)
    (urange : ranges.urange = ranges'.urange) (row : PheromoneMatrix K) :
    (parentRange n queue qtotal parent ranges row).lrange =
        (parentRange n' queue' qtotal' parent ranges' row).lrange ∧
      (parentRange n queue qtotal parent ranges row).urange =
        (parentRange n' queue' qtotal' parent ranges' row).urange := by
  induction row generalizing ranges ranges' with
  | nil => exact ⟨lrange, urange⟩
  | cons entry row inductionHypothesis =>
      rw [parentRange, parentRange]
      split
      · simp [lrange]
      · exact inductionHypothesis _ _ (by simp [lrange]) urange

variable [LinearOrder K]

/-- Where the range of the parent begins, behind the values in front of its first
entry. -/
def parentLower (parent : NsAddr) (row : PheromoneMatrix K) : K :=
  Roulette.cumulated Pheromone.phvalue 0 (row.takeWhile fun entry => entry.neighbor ≠ parent)

/-- Where it ends, behind the value of that entry; at one when there is no such entry
or the end comes out as zero. -/
def parentUpper (parent : NsAddr) (row : PheromoneMatrix K) : K :=
  match row.find? fun entry => entry.neighbor = parent with
  | none => 1
  | some entry =>
      let urange := parentLower parent row + entry.phvalue
      if urange = 0 then 1 else urange

omit [LinearOrder K] in
/-- The values the first pass leaves in `lrange` and `urange`. -/
theorem parentRange_eq (n : ℤ) (queue : NsAddr → ℕ) (qtotal : K) (parent : NsAddr)
    (lrange thisprob : K) (row : PheromoneMatrix K) :
    let before := row.takeWhile fun entry => entry.neighbor ≠ parent
    let ranges := parentRange n queue qtotal parent ⟨lrange, 0, thisprob⟩ row
    ranges.lrange = Roulette.cumulated Pheromone.phvalue lrange before ∧
      ranges.urange = match row.find? fun entry => entry.neighbor = parent with
        | none => 0
        | some entry => Roulette.cumulated Pheromone.phvalue lrange before + entry.phvalue := by
  induction row generalizing lrange thisprob with
  | nil => exact ⟨rfl, rfl⟩
  | cons entry row inductionHypothesis =>
      simp only [parentRange]
      by_cases found : entry.neighbor = parent
      · simp [found, Roulette.cumulated]
      · have later := inductionHypothesis (lrange + entry.phvalue)
          (Rtable.thisprob n qtotal entry.phvalue (queue entry.neighbor))
        simpa [found, Roulette.cumulated] using later

theorem parentRange_bounds (n : ℤ) (queue : NsAddr → ℕ) (qtotal : K) (parent : NsAddr)
    (row : PheromoneMatrix K) :
    let ranges := parentRange n queue qtotal parent ⟨0, 0, 0⟩ row
    ranges.lrange = parentLower parent row ∧
      (if ranges.urange = 0 then 1 else ranges.urange) = parentUpper parent row := by
  obtain ⟨lrange, urange⟩ := parentRange_eq n queue qtotal parent 0 0 row
  refine ⟨lrange, ?_⟩
  rw [urange, parentUpper]
  cases row.find? fun entry => entry.neighbor = parent with
  | none => exact if_pos rfl
  | some entry => rfl

/-- The range of the parent, without the parent in the row and with it. -/
inductive ParentBounds (parent : NsAddr) (row : PheromoneMatrix K) : K → K → Prop where
  | absent :
      parent ∉ row.map Pheromone.neighbor →
      ParentBounds parent row (Roulette.cumulated Pheromone.phvalue 0 row) 1
  | present {before after : PheromoneMatrix K} {entry : Pheromone K} :
      row = before ++ entry :: after →
      entry.neighbor = parent →
      ParentBounds parent row (Roulette.cumulated Pheromone.phvalue 0 before)
        (if Roulette.cumulated Pheromone.phvalue 0 before + entry.phvalue = 0 then 1
          else Roulette.cumulated Pheromone.phvalue 0 before + entry.phvalue)

theorem parentBounds (parent : NsAddr) (row : PheromoneMatrix K) :
    ParentBounds parent row (parentLower parent row) (parentUpper parent row) := by
  cases found : row.find? fun entry => entry.neighbor = parent with
  | none =>
      have others : ∀ entry ∈ row, entry.neighbor ≠ parent := by simpa using found
      have whole : row.takeWhile (fun entry => entry.neighbor ≠ parent) = row :=
        List.takeWhile_eq_self_iff.mpr (by simpa using others)
      rw [parentLower, parentUpper, found, whole]
      apply ParentBounds.absent
      simpa using others
  | some entry =>
      obtain ⟨isParent, before, after, split, others⟩ := List.find?_eq_some_iff_append.mp found
      have front : row.takeWhile (fun entry => entry.neighbor ≠ parent) = before := by
        rw [split, List.takeWhile_append_of_pos (by simpa using others),
          List.takeWhile_cons_of_neg (by simpa using isParent), List.append_nil]
      rw [parentUpper, found, parentLower, front]
      exact .present split (by simpa using isParent)

/-- The second pass spins the wheel of the row. -/
theorem nextInRange_eq_spin (draw : K) (ranges : Ranges K) (row : PheromoneMatrix K)
    (closed : ranges.urange = ranges.lrange) :
    nextInRange n queue qtotal draw ranges row =
      match Roulette.spin Pheromone.phvalue draw ranges.lrange row with
      | some entry => .ret entry.neighbor
      | none => .offEnd := by
  induction row generalizing ranges with
  | nil => rfl
  | cons entry row inductionHypothesis =>
      rw [nextInRange, Roulette.spin]
      simp only [closed, ge_iff_le]
      split
      · rfl
      · rw [inductionHypothesis _ rfl]

omit [Arithmetic K] in
theorem drawOutside_some {lrange urange draw : K} {draws : List K}
    (result : drawOutside lrange urange draws = some draw) : draw ∈ draws := by
  induction draws with
  | nil => cases result
  | cons first draws inductionHypothesis =>
      rw [drawOutside] at result
      split at result
      · exact List.mem_cons_of_mem first (inductionHypothesis result)
      · cases result
        exact List.mem_cons_self

variable {sim : Sim} {rt : Rtable K} {source dest parent : NsAddr} {draws : List K}

theorem calcNext_none (missing : rt dest = none) :
    calcNext sim n rt source dest parent draws = .offEnd := by
  rw [calcNext, missing]

theorem calcNext_some (sim : Sim) (n : ℤ) (source parent : NsAddr) {row : PheromoneMatrix K}
    (known : rt dest = some row) (draws : List K) :
    calcNext sim n rt source dest parent draws =
      if parentLower parent row = 0 ∧ parentUpper parent row = 1 then .ret parent
      else match drawOutside (parentLower parent row) (parentUpper parent row) draws with
        | none => .looping
        | some draw =>
            match Roulette.spin Pheromone.phvalue draw 0 row with
            | some entry => .ret entry.neighbor
            | none => .offEnd := by
  let queue := sim.getQueueLength source
  obtain ⟨lrange, urange⟩ := parentRange_bounds n queue (Rtable.qtotal queue row) parent row
  rw [calcNext, known, ← lrange, ← urange]
  simp only [nextInRange_eq_spin]
  rfl

/-- Neither the queues nor the shared neighbour count have a part in the choice. -/
theorem calcNext_blind (sim sim' : Sim) (n n' : ℤ) (rt : Rtable K) (source dest parent : NsAddr)
    (draws : List K) :
    calcNext sim n rt source dest parent draws = calcNext sim' n' rt source dest parent draws := by
  rw [calcNext, calcNext]
  cases rt dest with
  | none => rfl
  | some row =>
      obtain ⟨lrange, urange⟩ := parentRange_congr n n' (sim.getQueueLength source)
        (sim'.getQueueLength source) (Rtable.qtotal (sim.getQueueLength source) row)
        (Rtable.qtotal (sim'.getQueueLength source) row) parent ⟨0, 0, 0⟩ ⟨0, 0, 0⟩ rfl rfl row
      simp only [lrange, urange, nextInRange_eq_spin]

theorem calcNext_congr (sim : Sim) (n n' : ℤ) (rt : Rtable K) (source dest parent : NsAddr)
    (draws : List K) :
    calcNext sim n rt source dest parent draws = calcNext sim n' rt source dest parent draws :=
  calcNext_blind sim sim n n' rt source dest parent draws

theorem calcNext_ret {row : PheromoneMatrix K} (known : rt dest = some row) {next : NsAddr}
    (result : calcNext sim n rt source dest parent draws = .ret next) :
    next = parent ∨ next ∈ row.map Pheromone.neighbor := by
  rw [calcNext_some sim n source parent known] at result
  split at result
  · apply Or.inl
    exact (NextHop.ret.inj result).symm
  · cases outside : drawOutside (parentLower parent row) (parentUpper parent row) draws with
    | none => simp [outside] at result
    | some draw =>
        cases spun : Roulette.spin Pheromone.phvalue draw 0 row with
        | none => simp [outside, spun] at result
        | some entry =>
            simp only [outside, spun, NextHop.ret.injEq] at result
            apply Or.inr
            exact result ▸ List.mem_map_of_mem (Roulette.mem_of_spin spun)

/-- A row that adds up to at least one has an entry for every draw. -/
theorem calcNext_ne_offEnd {row : PheromoneMatrix K} (known : rt dest = some row)
    (enough : 1 ≤ Roulette.cumulated Pheromone.phvalue 0 row)
    (uniform : ∀ draw ∈ draws, 0 ≤ draw ∧ draw < 1) :
    calcNext sim n rt source dest parent draws ≠ .offEnd := by
  rw [calcNext_some sim n source parent known]
  split
  · exact NextHop.noConfusion
  · cases outside : drawOutside (parentLower parent row) (parentUpper parent row) draws with
    | none => simp
    | some draw =>
        obtain ⟨nonneg, below⟩ := uniform draw (drawOutside_some outside)
        obtain ⟨entry, spun⟩ := Roulette.exists_spin nonneg (below.trans_le enough)
        simp [spun]

/-! ### The end of the loop -/

omit [Arithmetic K] in
/-- Draws inside the range are passed over. -/
theorem drawOutside_append {lower upper : K} {early : List K} (draws : List K)
    (inside : ∀ passed ∈ early, lower ≤ passed ∧ passed < upper) :
    drawOutside lower upper (early ++ draws) = drawOutside lower upper draws := by
  induction early with
  | nil => rfl
  | cons first early inductionHypothesis =>
      rw [List.cons_append, drawOutside, if_pos (inside first List.mem_cons_self)]
      apply inductionHypothesis
      intro passed membership
      exact inside passed (List.mem_cons_of_mem first membership)

omit [Arithmetic K] in
theorem drawOutside_none_iff {lower upper : K} :
    drawOutside lower upper draws = none ↔ ∀ draw ∈ draws, lower ≤ draw ∧ draw < upper := by
  constructor
  · intro none
    induction draws with
    | nil => simp
    | cons first draws inductionHypothesis =>
        rw [drawOutside] at none
        split at none
        · rename_i inside
          exact List.forall_mem_cons.mpr ⟨inside, inductionHypothesis none⟩
        · cases none
  · intro inside
    simpa [drawOutside] using drawOutside_append [] inside

/-- The loop of `calc_next` can end: it is not entered, or some draw lies outside the
range of the parent. -/
def Escapes (rt : Rtable K) (dest parent : NsAddr) : Prop :=
  ∀ row, rt dest = some row → parentLower parent row = 0 ∧ parentUpper parent row = 1 ∨
    ∃ draw, 0 ≤ draw ∧ draw < 1 ∧ ¬ (parentLower parent row ≤ draw ∧ draw < parentUpper parent row)

/-- Draws that were all rejected have no part in the outcome. -/
theorem calcNext_append (looping : calcNext sim n rt source dest parent draws = .looping)
    (more : List K) : calcNext sim n rt source dest parent (draws ++ more) =
      calcNext sim n rt source dest parent more := by
  cases known : rt dest with
  | none => rw [calcNext_none known, calcNext_none known]
  | some row =>
      rw [calcNext_some sim n source parent known] at looping ⊢
      rw [calcNext_some sim n source parent known]
      split at looping
      · cases looping
      · cases outside : drawOutside (parentLower parent row) (parentUpper parent row) draws with
        | none => rw [drawOutside_append more (drawOutside_none_iff.mp outside)]
        | some draw =>
            cases spun : Roulette.spin Pheromone.phvalue draw 0 row <;>
              simp [outside, spun] at looping

/-- Some draws end the loop if and only if it can end. -/
theorem exists_not_looping_iff (sim : Sim) (n : ℤ) (rt : Rtable K) (source dest parent : NsAddr) :
    (∃ draws : List K, (∀ draw ∈ draws, 0 ≤ draw ∧ draw < 1) ∧
      calcNext sim n rt source dest parent draws ≠ .looping) ↔ Escapes rt dest parent := by
  constructor
  · rintro ⟨draws, uniform, ended⟩ row known
    rw [calcNext_some sim n source parent known] at ended
    split at ended
    · rename_i dead
      exact .inl dead
    · cases outside : drawOutside (parentLower parent row) (parentUpper parent row) draws with
      | none => exact absurd (by rw [outside]) ended
      | some draw =>
          apply Or.inr
          by_contra covered
          have inside := drawOutside_none_iff.mpr fun draw membership => not_not.mp fun outside =>
            covered ⟨draw, (uniform draw membership).1, (uniform draw membership).2, outside⟩
          exact absurd (inside.symm.trans outside) (by simp)
  · intro escapes
    cases known : rt dest with
    | none => exact ⟨[], by simp, by simp [calcNext_none known]⟩
    | some row =>
        rcases escapes row known with dead | ⟨draw, nonneg, below, outside⟩
        · exact ⟨[], by simp, by simp [calcNext_some sim n source parent known, dead]⟩
        · refine ⟨[draw], by simp [nonneg, below], ?_⟩
          rw [calcNext_some sim n source parent known, drawOutside, if_neg outside]
          split
          · exact NextHop.noConfusion
          · simp only
            split <;> exact NextHop.noConfusion

/-! ### Exact arithmetic -/

section Exact

variable {K : Type} [Field K] [LinearOrder K] [IsStrictOrderedRing K] {n : ℤ} {sim : Sim}
  {rt : Rtable K} {source dest parent : NsAddr}

/-- When no weight leaves the unit interval, the loop can end. -/
theorem escapes_of_unit
    (unit : ∀ row, rt dest = some row → ∀ entry ∈ row, 0 ≤ entry.phvalue ∧ entry.phvalue ≤ 1) :
    Escapes rt dest parent := by
  intro row known
  have nonneg : ∀ {part : PheromoneMatrix K}, part ⊆ row →
      0 ≤ Roulette.total Pheromone.phvalue part := fun inRow =>
    Roulette.total_nonneg fun entry membership => (unit row known entry (inRow membership)).1
  have bounds := parentBounds parent row
  generalize parentLower parent row = lower at bounds ⊢
  generalize parentUpper parent row = upper at bounds ⊢
  cases bounds with
  | absent =>
      rw [Roulette.cumulated_zero]
      by_cases zero : Roulette.total Pheromone.phvalue row = 0
      · exact .inl ⟨zero, rfl⟩
      · exact .inr ⟨0, le_rfl, one_pos, fun inside =>
          zero (le_antisymm inside.1 (nonneg (List.Subset.refl row)))⟩
  | @present before after entry split found =>
      obtain ⟨positive, atMost⟩ := unit row known entry (by rw [split]; simp)
      rw [Roulette.cumulated_zero]
      by_cases early : Roulette.total Pheromone.phvalue before = 0
      · rw [early, zero_add]
        by_cases full : entry.phvalue = 0 ∨ entry.phvalue = 1
        · apply Or.inl
          rcases full with zero | one
          · simp [zero]
          · simp [one]
        · rw [not_or] at full
          rw [if_neg full.1]
          exact .inr ⟨entry.phvalue, positive, lt_of_le_of_ne atMost full.2,
            fun inside => lt_irrefl _ inside.2⟩
      · have inRow : before ⊆ row := by
          rw [split]
          exact List.subset_append_left before _
        exact .inr ⟨0, le_rfl, one_pos, fun inside =>
          early (le_antisymm inside.1 (nonneg inRow))⟩

omit [IsStrictOrderedRing K] in
theorem calcNext_ne_offEnd_of_total {row : PheromoneMatrix K} (known : rt dest = some row)
    (enough : 1 ≤ Roulette.total Pheromone.phvalue row) {draws : List K}
    (uniform : ∀ draw ∈ draws, 0 ≤ draw ∧ draw < 1) :
    calcNext sim n rt source dest parent draws ≠ .offEnd :=
  calcNext_ne_offEnd known (by rwa [Roulette.cumulated_zero]) uniform

/-- With a row of total at least one, some draw then lets it return. -/
theorem exists_calcNext_ret {row : PheromoneMatrix K} (known : rt dest = some row)
    (enough : 1 ≤ Roulette.total Pheromone.phvalue row)
    (unit : ∀ entry ∈ row, 0 ≤ entry.phvalue ∧ entry.phvalue ≤ 1) :
    ∃ draws, (∀ draw ∈ draws, 0 ≤ draw ∧ draw < 1) ∧
      ∃ next, calcNext sim n rt source dest parent draws = .ret next := by
  have escapes : Escapes rt dest parent := escapes_of_unit fun other isRow => by
    rw [known] at isRow
    cases isRow
    exact unit
  obtain ⟨draws, uniform, ended⟩ := (exists_not_looping_iff sim n rt source dest parent).mpr escapes
  refine ⟨draws, uniform, ?_⟩
  cases result : calcNext sim n rt source dest parent draws with
  | ret next => exact ⟨next, rfl⟩
  | offEnd => exact absurd result (calcNext_ne_offEnd_of_total known enough uniform)
  | looping => exact absurd result ended

end Exact

end AntAodv.Rtable
