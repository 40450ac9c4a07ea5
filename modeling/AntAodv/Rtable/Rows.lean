import AntAodv.Rtable
import AntAodv.Library.Roulette

/-!
# Rows of the routing table

What the entries added at initialisation and the updates of a backward ant do to
each row, and what an update does to the neighbours and the total of a row.
-/

namespace AntAodv.Rtable

variable {K : Type}

theorem addEntry_apply (rt : Rtable K) (dest next : NsAddr) (phvalue : K) (other : NsAddr) :
    addEntry rt dest next phvalue other =
      if other = dest then some ((rt other).getD [] ++ [⟨next, phvalue⟩]) else rt other := by
  rw [addEntry]
  by_cases same : other = dest
  · subst same
    cases rt other <;> simp
  · simp [same]

/-- The row of a destination after entries for all of `neighbors` were added. -/
theorem foldl_addEntry_apply (rt : Rtable K) (dest : NsAddr) (neighbors : List NsAddr)
    (phvalue : K) (other : NsAddr) :
    neighbors.foldl (fun rt neighb => addEntry rt dest neighb phvalue) rt other =
      if other = dest ∧ neighbors ≠ [] then
        some ((rt other).getD [] ++ neighbors.map fun neighb => ⟨neighb, phvalue⟩)
      else rt other := by
  induction neighbors generalizing rt with
  | nil => simp
  | cons neighb neighbors inductionHypothesis =>
      rw [List.foldl_cons, inductionHypothesis, addEntry_apply]
      by_cases same : other = dest
      · subst same
        cases neighbors <;> simp
      · simp [same]

/-- The table after `initialize_rtable` ran over the destinations below `count`. -/
theorem foldl_initialize_apply (rt : Rtable K) (self : NsAddr) (neighbors : List NsAddr)
    (phvalue : K) (count : ℕ) (other : ℤ) :
    (List.range count).foldl (fun rt (i : ℕ) =>
        if self ≠ i then
          neighbors.foldl (fun rt neighb => addEntry rt i neighb phvalue) rt
        else rt) rt other =
      if (0 ≤ other ∧ other < count) ∧ other ≠ self ∧ neighbors ≠ [] then
        some ((rt other).getD [] ++ neighbors.map fun neighb => ⟨neighb, phvalue⟩)
      else rt other := by
  induction count with
  | zero =>
      rw [if_neg (by rintro ⟨range, _⟩; omega)]
      rfl
  | succ count inductionHypothesis =>
      rw [List.range_succ, List.foldl_append, List.foldl_cons, List.foldl_nil]
      by_cases here : other = count
      · subst here
        have outside : ¬ ((count : ℤ) < count) := by omega
        have inside : (0 : ℤ) ≤ count ∧ (count : ℤ) < (count + 1 : ℕ) := by omega
        simp only [outside, and_false, false_and, if_false] at inductionHypothesis
        by_cases own : self = count
        · rw [if_neg (by simpa using own), inductionHypothesis, if_neg (by simp [own])]
        · rw [if_pos own, foldl_addEntry_apply, inductionHypothesis]
          simp only [inside, true_and, ne_eq, Ne.symm own, not_false_eq_true]
      · have range : (0 ≤ other ∧ other < ((count + 1 : ℕ) : ℤ)) ↔
            0 ≤ other ∧ other < (count : ℤ) := by
          constructor <;> intro inside <;> omega
        simp only [range]
        by_cases own : self = count
        · rw [if_neg (by simpa using own), inductionHypothesis]
        · rw [if_pos own, foldl_addEntry_apply, if_neg (by simp [here]), inductionHypothesis]

section Update

variable [Arithmetic K]

theorem update_apply (r : K) (rt : Rtable K) (dest next other : NsAddr) :
    update r rt dest next other =
      if other = dest then (rt other).map (updateRow r next) else rt other := by
  rw [update]
  by_cases same : other = dest
  · subst same
    cases rt other <;> simp
  · simp [same]

/-- A row whose destination is among several different ones is updated once. -/
theorem foldl_update_apply (r : K) (rt : Rtable K) (next : NsAddr) {dests : List NsAddr}
    (distinct : dests.Nodup) (other : NsAddr) :
    dests.foldl (fun rt dest => update r rt dest next) rt other =
      if other ∈ dests then (rt other).map (updateRow r next) else rt other := by
  induction dests generalizing rt with
  | nil => simp
  | cons dest dests inductionHypothesis =>
      rw [List.nodup_cons] at distinct
      rw [List.foldl_cons, inductionHypothesis _ distinct.2, update_apply]
      by_cases same : other = dest
      · subst same
        simp [distinct.1]
      · simp [same]

@[simp]
theorem map_neighbor_updateRow (r : K) (next : NsAddr) (row : PheromoneMatrix K) :
    (updateRow r next row).map Pheromone.neighbor = row.map Pheromone.neighbor := by
  rw [updateRow, List.map_map]
  apply List.map_congr_left
  intro entry _
  simp only [Function.comp_apply]
  split <;> rfl

/-- The row after updates towards the winners. -/
def updateRows (r : K) (row : PheromoneMatrix K) (winners : List NsAddr) : PheromoneMatrix K :=
  winners.foldl (fun row next => updateRow r next row) row

theorem updateRows_append (r : K) (row : PheromoneMatrix K) (early late : List NsAddr) :
    updateRows r row (early ++ late) = updateRows r (updateRows r row early) late :=
  List.foldl_append

@[simp]
theorem map_neighbor_updateRows (r : K) (row : PheromoneMatrix K) (winners : List NsAddr) :
    (updateRows r row winners).map Pheromone.neighbor = row.map Pheromone.neighbor := by
  induction winners generalizing row with
  | nil => rfl
  | cons next winners inductionHypothesis =>
      exact (inductionHypothesis (updateRow r next row)).trans (map_neighbor_updateRow r next row)

/-- A property of rows that every update keeps holds after several of them. -/
theorem updateRows_invariant {holds : PheromoneMatrix K → Prop} {r : K}
    (preserved : ∀ next row, holds row → holds (updateRow r next row)) {row : PheromoneMatrix K}
    (before : holds row) (winners : List NsAddr) : holds (updateRows r row winners) := by
  induction winners generalizing row with
  | nil => exact before
  | cons next winners inductionHypothesis => exact inductionHypothesis (preserved next row before)

/-- A property of rows that updates towards `next` keep holds after several of
them. -/
theorem foldl_update_invariant {holds : PheromoneMatrix K → Prop} {r : K} {next : NsAddr}
    (preserved : ∀ row, holds row → holds (updateRow r next row)) (dests : List NsAddr)
    {rt : Rtable K} (before : ∀ dest row, rt dest = some row → holds row) :
    ∀ dest row, dests.foldl (fun rt dest => update r rt dest next) rt dest = some row →
      holds row := by
  induction dests generalizing rt with
  | nil => exact before
  | cons first dests inductionHypothesis =>
      refine @inductionHypothesis (update r rt first next) ?_
      intro dest row known
      rw [update_apply] at known
      split at known
      · rcases Option.map_eq_some_iff.mp known with ⟨old, wasKnown, rfl⟩
        exact preserved old (before dest old wasKnown)
      · exact before dest row known

/-- Updates neither add nor remove rows. -/
theorem isSome_foldl_update (r : K) (next : NsAddr) (dests : List NsAddr) (rt : Rtable K)
    (dest : NsAddr) :
    (dests.foldl (fun rt dest => update r rt dest next) rt dest).isSome = (rt dest).isSome := by
  induction dests generalizing rt with
  | nil => rfl
  | cons first dests inductionHypothesis =>
      rw [List.foldl_cons, inductionHypothesis, update_apply]
      split <;> simp

end Update

section Weights

variable [Field K]

theorem updateRow_eq (r : K) (next : NsAddr) (row : PheromoneMatrix K) :
    updateRow r next row = row.map fun entry =>
      { entry with phvalue := Roulette.reinforce r next entry.neighbor entry.phvalue } := by
  apply List.map_congr_left
  intro entry _
  by_cases wins : entry.neighbor = next <;> simp [wins, Roulette.reinforce]

theorem total_updateRow (r : K) (next : NsAddr) (row : PheromoneMatrix K) :
    Roulette.total Pheromone.phvalue (updateRow r next row) =
      (1 - r) * Roulette.total Pheromone.phvalue row +
        r * ((row.map Pheromone.neighbor).count next : K) := by
  rw [← Roulette.sum_reinforce, updateRow_eq]
  simp [Roulette.total, Function.comp_def]

theorem mem_updateRow {r : K} {next : NsAddr} {row : PheromoneMatrix K} {entry : Pheromone K}
    (membership : entry ∈ updateRow r next row) :
    ∃ old ∈ row, entry.neighbor = old.neighbor ∧
      entry.phvalue = Roulette.reinforce r next old.neighbor old.phvalue := by
  rw [updateRow_eq] at membership
  rcases List.mem_map.mp membership with ⟨old, inRow, rfl⟩
  exact ⟨old, inRow, rfl, rfl⟩

end Weights

section Fresh

/-- The entries `initialize_rtable` adds to a row. -/
def freshRow [Arithmetic K] (neighbors : List NsAddr) : PheromoneMatrix K :=
  neighbors.map fun neighb => ⟨neighb, 1 / (neighbors.length : K)⟩

@[simp]
theorem map_neighbor_freshRow [Arithmetic K] (neighbors : List NsAddr) :
    (freshRow (K := K) neighbors).map Pheromone.neighbor = neighbors := by
  simp [freshRow, Function.comp_def]

variable [Field K] [LinearOrder K] [IsStrictOrderedRing K]

theorem total_freshRow {neighbors : List NsAddr} (nonempty : neighbors ≠ []) :
    Roulette.total Pheromone.phvalue (freshRow (K := K) neighbors) = 1 := by
  have count : (neighbors.length : K) ≠ 0 := by
    exact_mod_cast (List.length_pos_iff.mpr nonempty).ne'
  simp [Roulette.total, freshRow, Function.comp_def, count]

theorem phvalue_freshRow {neighbors : List NsAddr} {entry : Pheromone K}
    (membership : entry ∈ freshRow (K := K) neighbors) :
    0 < entry.phvalue ∧ entry.phvalue ≤ 1 := by
  rcases List.mem_map.mp membership with ⟨neighb, isNeighbor, rfl⟩
  have count : (1 : K) ≤ neighbors.length := by
    exact_mod_cast List.length_pos_of_mem isNeighbor
  exact ⟨one_div_pos.mpr (zero_lt_one.trans_le count), div_le_one_of_le₀ count (by linarith)⟩

end Fresh

end AntAodv.Rtable
