import AntAodv.Library.Awk
import Mathlib.Algebra.BigOperators.Group.Finset.Basic
import Mathlib.Algebra.Order.BigOperators.Group.Finset
import Mathlib.Algebra.Order.Field.Basic
import Mathlib.Tactic.FieldSimp
import Mathlib.Tactic.Linarith

/-!
# The residual energy script

`Residual_Energy.awk`: the table of energies it keeps from the energy lines of a
trace, and the average it prints.
-/

namespace AntAodv

namespace ResidualEnergy

/-- Number of entries of `energy_left` the script visits. -/
def nodeCount : ℕ := 50

/-- The main rule, for one line: the loop sets the entries whose index equals
`node_num`. -/
def mainRule (energyLeft : ℕ → ℚ) (line : Text) : ℕ → ℚ :=
  let state := Awk.field line 1
  let nodeNum := Awk.field line 5
  let energyLevel := Awk.fieldNumber (Awk.field line 7)
  if state = some "N".toList then
    (List.range nodeCount).foldl (fun energyLeft i =>
      if Awk.equalsField i nodeNum then
        Function.update energyLeft i (energyLeft i - (energyLeft i - energyLevel))
      else energyLeft) energyLeft
  else energyLeft

/-- The `END` rule: what is printed, before rounding, or `none` where the script
divides by zero. -/
def endRule (energyLeft : ℕ → ℚ) : Option ℚ :=
  let (total, n) := (List.range nodeCount).foldl (fun (total, n) i =>
    (total + energyLeft i, if energyLeft i ≠ 0 then n + 1 else n)) ((0, 0) : ℚ × ℤ)
  let n := n - 1
  if n = 0 then none else some (total / n)

/-- The average the script prints for a trace. -/
def averageEnergy (lines : List Text) : Option ℚ :=
  endRule (lines.foldl mainRule fun _ => 0)

/-! ### What the energy lines report -/

/-- The node and the energy of a line `N -t <time> -n <node> -e <energy>`. -/
def report (line : Text) : Option (ℕ × ℚ) :=
  match Text.words line with
  | [event, t, _, n, node, e, energy] =>
      if event = "N".toList ∧ t = "-t".toList ∧ n = "-n".toList ∧ e = "-e".toList ∧
          (node ≠ [] ∧ ∀ c ∈ node, c.isDigit = true) ∧ Awk.looksNumeric energy = true then
        some (Nat.ofDigitChars 10 node 0, Awk.number energy)
      else none
  | _ => none

/-- A trace whose lines of type `N` are energy lines. -/
def EnergyTrace (lines : List Text) : Prop :=
  ∀ line ∈ lines, Awk.field line 1 = some "N".toList → report line ≠ none

instance (lines : List Text) : Decidable (EnergyTrace lines) :=
  inferInstanceAs (Decidable (∀ line ∈ lines, _ → _))

def reports (lines : List Text) : List (ℕ × ℚ) := lines.filterMap report

/-- The nodes that report. -/
def reporting (lines : List Text) : Finset ℕ := ((reports lines).map Prod.fst).toFinset

/-- The last energy a node reports, zero without a report. -/
def lastEnergy (lines : List Text) : ℕ → ℚ :=
  (reports lines).foldl (fun last entry => Function.update last entry.1 entry.2) fun _ => 0

/-- The mean of the last energies of all nodes that report. -/
def meanEnergy (lines : List Text) : ℚ :=
  (∑ node ∈ reporting lines, lastEnergy lines node) / (reporting lines).card

/-- The reporting nodes the script visits. -/
def visited (lines : List Text) : Finset ℕ := (reporting lines).filter (· < nodeCount)

/-- The reporting nodes the script does not visit. -/
def unvisited (lines : List Text) : Finset ℕ := (reporting lines).filter (¬ · < nodeCount)

/-- The visited nodes with energy left. -/
def lively (lines : List Text) : Finset ℕ :=
  (visited lines).filter (lastEnergy lines · ≠ 0)

/-- The visited nodes without. -/
def drained (lines : List Text) : Finset ℕ :=
  (visited lines).filter (¬ lastEnergy lines · ≠ 0)

/-- No reporting node has energy left. -/
def Depleted (lines : List Text) : Prop :=
  ∀ node ∈ reporting lines, lastEnergy lines node = 0

/-- The nodes not visited have exactly the energy that makes up for the nodes that are
not counted: as much for each of these, and for one more, as the visited nodes have for
each counted node but one. -/
def Compensated (lines : List Text) : Prop :=
  2 ≤ (lively lines).card ∧
    (∑ node ∈ unvisited lines, lastEnergy lines node) * ((lively lines).card - 1) =
      (∑ node ∈ visited lines, lastEnergy lines node) *
        ((drained lines).card + (unvisited lines).card + 1)

instance (lines : List Text) : Decidable (Depleted lines) :=
  inferInstanceAs (Decidable (∀ node ∈ reporting lines, _))

instance (lines : List Text) : Decidable (Compensated lines) :=
  inferInstanceAs (Decidable (_ ∧ _))

/-! ### The main rule -/

/-- What a line stores for a node: every line of type `N` is taken for an energy line. -/
def stored (node : ℕ) (line : Text) : Option ℚ :=
  if Awk.field line 1 = some "N".toList ∧ Awk.equalsField node (Awk.field line 5) = true then
    some (Awk.fieldNumber (Awk.field line 7))
  else none

/-- The last energy stored for a node, zero without one. -/
def lastStored (lines : List Text) (node : ℕ) : ℚ :=
  (lines.filterMap (stored node)).getLast?.getD 0

/-- What lines of type `N` say last of a node of the table is what it reports last. -/
def Undisturbed (lines : List Text) : Prop :=
  ∀ i < nodeCount, lastStored lines i = lastEnergy lines i

/-- The nodes of the table with energy left. -/
def left (lines : List Text) : Finset ℕ :=
  (Finset.range nodeCount).filter (lastStored lines · ≠ 0)

theorem lastStored_concat (lines : List Text) (line : Text) (node : ℕ) :
    lastStored (lines ++ [line]) node = (stored node line).getD (lastStored lines node) := by
  unfold lastStored
  rw [List.filterMap_append]
  cases isStored : stored node line with
  | none => simp [isStored]
  | some energy => simp [isStored]

/-- The loop sets the entries of the table that it finds equal. -/
theorem foldl_range_update (energyLeft : ℕ → ℚ) (equal : ℕ → Bool) (energyLevel : ℚ)
    (count i : ℕ) :
    (List.range count).foldl (fun energyLeft i =>
      if equal i then
        Function.update energyLeft i (energyLeft i - (energyLeft i - energyLevel))
      else energyLeft) energyLeft i =
      if i < count ∧ equal i then energyLevel else energyLeft i := by
  induction count with
  | zero => simp
  | succ count inductionHypothesis =>
      rw [List.range_succ, List.foldl_append, List.foldl_cons, List.foldl_nil]
      generalize (List.range count).foldl _ energyLeft = earlier at inductionHypothesis ⊢
      by_cases here : i = count
      · subst here
        rw [if_neg fun both => Nat.lt_irrefl i both.1] at inductionHypothesis
        by_cases isEqual : equal i
        · simp [isEqual]
        · simp [isEqual, inductionHypothesis]
      · have before : i < count + 1 ↔ i < count := by omega
        simp only [before, ← inductionHypothesis]
        split
        next => rw [Function.update_of_ne here]
        next => rfl

theorem mainRule_apply (energyLeft : ℕ → ℚ) (line : Text) {i : ℕ} (inTable : i < nodeCount) :
    mainRule energyLeft line i = (stored i line).getD (energyLeft i) := by
  unfold mainRule stored
  by_cases state : Awk.field line 1 = some "N".toList
  · rw [if_pos state, foldl_range_update _ fun i => Awk.equalsField i (Awk.field line 5)]
    simp only [inTable, state, true_and]
    split <;> rfl
  · rw [if_neg state, if_neg fun both => state both.1, Option.getD_none]

theorem foldl_mainRule (lines : List Text) {i : ℕ} (inTable : i < nodeCount) :
    lines.foldl mainRule (fun _ => 0) i = lastStored lines i := by
  induction lines using List.reverseRecOn with
  | nil => rfl
  | append_singleton lines line inductionHypothesis =>
      rw [List.foldl_append, List.foldl_cons, List.foldl_nil, mainRule_apply _ _ inTable,
        inductionHypothesis, lastStored_concat]

/-! ### Energy lines -/

theorem equalsField_digits {digits : Text} (areDigits : ∀ c ∈ digits, c.isDigit = true)
    (nonempty : digits ≠ []) (i : ℕ) :
    Awk.equalsField i (some digits) = decide (i = Nat.ofDigitChars 10 digits 0) := by
  have scan := Awk.scanNumber_digits areDigits nonempty
  simp only [Awk.equalsField, Awk.looksNumeric, Awk.number, scan, List.isEmpty_nil, if_pos]
  rw [Bool.eq_iff_iff, beq_iff_eq, decide_eq_true_iff, Nat.cast_inj, eq_comm]

/-- An energy line stores what it reports. -/
theorem stored_of_report {line : Text} {node : ℕ} {energy : ℚ}
    (reported : report line = some (node, energy)) (i : ℕ) :
    stored i line = if i = node then some energy else none := by
  unfold report at reported
  split at reported
  next event t time n digits e level split =>
    split at reported
    next layout =>
      obtain ⟨rfl, _, _, _, ⟨nonempty, areDigits⟩, _⟩ := layout
      rw [Option.some.injEq, Prod.mk.injEq] at reported
      obtain ⟨rfl, rfl⟩ := reported
      have state : Awk.field line 1 = some "N".toList := Awk.field_of_words split 1
      have nodeNum : Awk.field line 5 = some digits := Awk.field_of_words split 5
      have energyLevel : Awk.field line 7 = some level := Awk.field_of_words split 7
      rw [stored, nodeNum, energyLevel]
      simp only [state, true_and, equalsField_digits areDigits nonempty, decide_eq_true_eq,
        Awk.fieldNumber]
    next => cases reported
  next => cases reported

theorem lastEnergy_concat (lines : List Text) (line : Text) :
    lastEnergy (lines ++ [line]) = (report line).elim (lastEnergy lines) fun entry =>
      Function.update (lastEnergy lines) entry.1 entry.2 := by
  unfold lastEnergy reports
  rw [List.filterMap_append, List.foldl_append]
  cases reported : report line with
  | none => simp [reported]
  | some entry => simp [reported]

/-- Nothing is disturbed where all lines of type `N` are energy lines. -/
theorem EnergyTrace.undisturbed {lines : List Text} (trace : EnergyTrace lines) :
    Undisturbed lines := by
  intro i inTable
  induction lines using List.reverseRecOn with
  | nil => rfl
  | append_singleton lines line inductionHypothesis =>
      have earlier := inductionHypothesis fun line member =>
        trace line (List.mem_append_left _ member)
      rw [lastStored_concat, earlier, lastEnergy_concat]
      cases reported : report line with
      | none =>
          have other : Awk.field line 1 ≠ some "N".toList :=
            fun isEnergy => trace line (by simp) isEnergy reported
          rw [stored, if_neg fun both => other both.1]
          rfl
      | some entry =>
          rcases entry with ⟨node, energy⟩
          rw [stored_of_report reported]
          by_cases same : i = node
          · subst same
            simp
          · simp [same]

/-! ### The end rule -/

theorem foldl_total (energyLeft : ℕ → ℚ) (count : ℕ) :
    (List.range count).foldl (fun (total, n) i =>
      (total + energyLeft i, if energyLeft i ≠ 0 then n + 1 else n)) ((0, 0) : ℚ × ℤ) =
      (∑ i ∈ Finset.range count, energyLeft i,
        (((Finset.range count).filter (energyLeft · ≠ 0)).card : ℤ)) := by
  induction count with
  | zero => rfl
  | succ count inductionHypothesis =>
      rw [List.range_succ, List.foldl_append, inductionHypothesis, Finset.sum_range_succ,
        Finset.range_add_one, Finset.filter_insert]
      by_cases left : energyLeft count ≠ 0
      · simp [left]
      · simp [left]

theorem lastEnergy_of_notMem {lines : List Text} {node : ℕ} (silent : node ∉ reporting lines) :
    lastEnergy lines node = 0 := by
  suffices unchanged : ∀ (entries : List (ℕ × ℚ)) (last : ℕ → ℚ), node ∉ entries.map Prod.fst →
      entries.foldl (fun last entry => Function.update last entry.1 entry.2) last node = last node by
    exact unchanged _ _ (by simpa [reporting] using silent)
  intro entries
  induction entries with
  | nil => exact fun _ _ => rfl
  | cons entry entries inductionHypothesis =>
      intro last absent
      rw [List.map_cons, List.mem_cons, not_or] at absent
      rw [List.foldl_cons, inductionHypothesis _ absent.2, Function.update_of_ne absent.1]

theorem lastEnergy_nonneg {lines : List Text} (nonneg : ∀ entry ∈ reports lines, 0 ≤ entry.2)
    (node : ℕ) : 0 ≤ lastEnergy lines node := by
  suffices kept : ∀ (entries : List (ℕ × ℚ)) (last : ℕ → ℚ), (∀ entry ∈ entries, 0 ≤ entry.2) →
      0 ≤ last node →
      0 ≤ entries.foldl (fun last entry => Function.update last entry.1 entry.2) last node by
    exact kept _ _ nonneg le_rfl
  intro entries
  induction entries with
  | nil => exact fun _ _ start => start
  | cons entry entries inductionHypothesis =>
      intro last nonneg start
      apply inductionHypothesis _ fun entry later => nonneg entry (List.mem_cons_of_mem _ later)
      by_cases here : node = entry.1
      · subst here
        simpa using nonneg entry List.mem_cons_self
      · simpa [Function.update_of_ne here] using start

/-- What the script prints: the total of the table over one less than the number of
nodes with energy left. -/
theorem averageEnergy_eq (lines : List Text) :
    averageEnergy lines =
      if (left lines).card = 1 then none
      else some ((∑ i ∈ Finset.range nodeCount, lastStored lines i) / ((left lines).card - 1)) := by
  have table : ∀ i ∈ Finset.range nodeCount,
      lines.foldl mainRule (fun _ => 0) i = lastStored lines i :=
    fun i inTable => foldl_mainRule lines (Finset.mem_range.mp inTable)
  have total : ∑ i ∈ Finset.range nodeCount, lines.foldl mainRule (fun _ => 0) i =
      ∑ i ∈ Finset.range nodeCount, lastStored lines i := Finset.sum_congr rfl table
  have count : (Finset.range nodeCount).filter (lines.foldl mainRule (fun _ => 0) · ≠ 0) =
      left lines := Finset.filter_congr fun i inTable => by rw [table i inTable]
  rw [averageEnergy, endRule, foldl_total, total, count]
  by_cases single : (left lines).card = 1
  · simp [single]
  · have several : ((left lines).card : ℤ) - 1 ≠ 0 := by omega
    simp [single, several]

/-- In an undisturbed trace, the table holds the visited nodes. -/
theorem sum_lastStored {lines : List Text} (undisturbed : Undisturbed lines) :
    ∑ i ∈ Finset.range nodeCount, lastStored lines i =
      ∑ node ∈ visited lines, lastEnergy lines node := by
  have inside : visited lines ⊆ Finset.range nodeCount := by
    intro node member
    exact Finset.mem_range.mpr (Finset.mem_filter.mp member).2
  rw [Finset.sum_congr rfl fun i inTable => undisturbed i (Finset.mem_range.mp inTable)]
  refine (Finset.sum_subset inside ?_).symm
  intro node inTable absent
  apply lastEnergy_of_notMem
  intro reports
  exact absent (Finset.mem_filter.mpr ⟨reports, Finset.mem_range.mp inTable⟩)

theorem left_eq {lines : List Text} (undisturbed : Undisturbed lines) :
    left lines = lively lines := by
  ext node
  simp only [left, lively, visited, Finset.mem_filter, Finset.mem_range]
  constructor
  · rintro ⟨inTable, energy⟩
    rw [undisturbed node inTable] at energy
    have isReporting : node ∈ reporting lines := by
      by_contra silent
      exact energy (lastEnergy_of_notMem silent)
    exact ⟨⟨isReporting, inTable⟩, energy⟩
  · rintro ⟨⟨_, inTable⟩, energy⟩
    rw [undisturbed node inTable]
    exact ⟨inTable, energy⟩

/-! ### When the average is the mean -/

theorem sum_reporting (lines : List Text) :
    ∑ node ∈ reporting lines, lastEnergy lines node =
      (∑ node ∈ visited lines, lastEnergy lines node) +
        ∑ node ∈ unvisited lines, lastEnergy lines node :=
  (Finset.sum_filter_add_sum_filter_not _ _ _).symm

theorem card_reporting (lines : List Text) :
    (reporting lines).card =
      (lively lines).card + (drained lines).card + (unvisited lines).card := by
  rw [lively, drained, Finset.card_filter_add_card_filter_not, visited, unvisited,
    Finset.card_filter_add_card_filter_not]

theorem eq_mean_iff_table {lines : List Text} (reported : (reporting lines).Nonempty) :
    averageEnergy lines = some (meanEnergy lines) ↔
      (left lines).card ≠ 1 ∧
        (∑ i ∈ Finset.range nodeCount, lastStored lines i) * (reporting lines).card =
          (∑ node ∈ reporting lines, lastEnergy lines node) * ((left lines).card - 1) := by
  rw [averageEnergy_eq, meanEnergy]
  by_cases single : (left lines).card = 1
  · simp [single]
  · have divisor : ((left lines).card : ℚ) - 1 ≠ 0 := by
      rw [sub_ne_zero]
      exact_mod_cast single
    have nodes : ((reporting lines).card : ℚ) ≠ 0 := by
      exact_mod_cast reported.card_pos.ne'
    rw [if_neg single, Option.some.injEq, div_eq_div_iff divisor nodes]
    exact ⟨fun equal => ⟨single, equal⟩, fun both => both.2⟩

/-- The energy of the nodes not visited against that of the visited ones. -/
theorem eq_mean_iff_unvisited {lines : List Text} (undisturbed : Undisturbed lines)
    (reported : (reporting lines).Nonempty) :
    averageEnergy lines = some (meanEnergy lines) ↔
      (lively lines).card ≠ 1 ∧
        (∑ node ∈ unvisited lines, lastEnergy lines node) * ((lively lines).card - 1) =
          (∑ node ∈ visited lines, lastEnergy lines node) *
            ((drained lines).card + (unvisited lines).card + 1) := by
  rw [eq_mean_iff_table reported, sum_lastStored undisturbed, left_eq undisturbed,
    sum_reporting, card_reporting, Nat.cast_add, Nat.cast_add]
  apply and_congr_right
  intro _
  constructor <;> intro equal <;> linarith

theorem sum_unvisited_of_depleted {lines : List Text} (depleted : Depleted lines) :
    ∑ node ∈ unvisited lines, lastEnergy lines node = 0 :=
  Finset.sum_eq_zero fun node member => depleted node (Finset.filter_subset _ _ member)

theorem lively_of_depleted {lines : List Text} (depleted : Depleted lines) :
    lively lines = ∅ :=
  Finset.filter_false_of_mem fun node member =>
    not_not.mpr (depleted node (Finset.filter_subset _ _ member))

/-- Energy is left unless no visited node counts and those not visited have none. -/
theorem depleted_of_sums {lines : List Text} (nonneg : ∀ entry ∈ reports lines, 0 ≤ entry.2)
    (inTable : lively lines = ∅)
    (beyond : ∑ node ∈ unvisited lines, lastEnergy lines node ≤ 0) : Depleted lines := by
  intro node isReporting
  by_cases visit : node < nodeCount
  · by_contra energy
    have isLively : node ∈ lively lines :=
      Finset.mem_filter.mpr ⟨Finset.mem_filter.mpr ⟨isReporting, visit⟩, energy⟩
    rw [inTable] at isLively
    cases isLively
  · have isUnvisited : node ∈ unvisited lines := Finset.mem_filter.mpr ⟨isReporting, visit⟩
    have nonnegLast : ∀ node ∈ unvisited lines, 0 ≤ lastEnergy lines node :=
      fun node _ => lastEnergy_nonneg nonneg node
    have none := le_antisymm beyond (Finset.sum_nonneg nonnegLast)
    exact (Finset.sum_eq_zero_iff_of_nonneg nonnegLast).mp none node isUnvisited

theorem sum_visited_of_lively {lines : List Text} (nobody : lively lines = ∅) :
    ∑ node ∈ visited lines, lastEnergy lines node = 0 :=
  Finset.sum_eq_zero fun _ member =>
    not_not.mp (Finset.filter_eq_empty_iff.mp nobody member)

/-- Without disturbance, the script prints the mean where nothing is left, and where the
nodes not visited make up for its divisor. -/
theorem eq_mean_iff_depleted_or {lines : List Text} (undisturbed : Undisturbed lines)
    (nonneg : ∀ entry ∈ reports lines, 0 ≤ entry.2) (reported : (reporting lines).Nonempty) :
    averageEnergy lines = some (meanEnergy lines) ↔ Depleted lines ∨ Compensated lines := by
  rw [eq_mean_iff_unvisited undisturbed reported]
  constructor
  · rintro ⟨several, balance⟩
    by_cases nobody : lively lines = ∅
    · left
      rw [nobody, sum_visited_of_lively nobody, Finset.card_empty, Nat.cast_zero,
        zero_mul] at balance
      apply depleted_of_sums nonneg nobody
      linarith
    · right
      have positive : 0 < (lively lines).card :=
        Finset.card_pos.mpr (Finset.nonempty_iff_ne_empty.mpr nobody)
      exact ⟨by omega, balance⟩
  · rintro (depleted | ⟨several, balance⟩)
    · have nobody := lively_of_depleted depleted
      rw [nobody, sum_unvisited_of_depleted depleted, sum_visited_of_lively nobody]
      simp
    · exact ⟨by omega, balance⟩

/-- Energy of the nodes not visited, and of two visited ones, is needed to make up for
the divisor. -/
theorem Compensated.exists_unvisited {lines : List Text} (compensated : Compensated lines)
    (nonneg : ∀ entry ∈ reports lines, 0 ≤ entry.2) :
    ∃ node ∈ unvisited lines, lastEnergy lines node ≠ 0 := by
  obtain ⟨several, balance⟩ := compensated
  by_contra none
  push Not at none
  rw [Finset.sum_eq_zero none, zero_mul, eq_comm, mul_eq_zero] at balance
  have nonnegLast : ∀ node ∈ visited lines, 0 ≤ lastEnergy lines node :=
    fun node _ => lastEnergy_nonneg nonneg node
  rcases balance with total | divisor
  · have nobody : lively lines = ∅ := by
      apply Finset.filter_false_of_mem
      intro node member
      exact not_not.mpr ((Finset.sum_eq_zero_iff_of_nonneg nonnegLast).mp total node member)
    rw [nobody, Finset.card_empty] at several
    omega
  · have nodes : (0 : ℚ) < (drained lines).card + (unvisited lines).card + 1 := by positivity
    exact nodes.ne' divisor

/-- When the script prints the mean.  Where the lines of type `N` say last what the nodes
report last, no node must have energy left, or else the energy of the nodes not visited
must make up for the divisor, which it cannot do alone or for a single visited node.
With other lines of type `N`, the table decides. -/
theorem averageEnergy_eq_mean_iff {lines : List Text}
    (nonneg : ∀ entry ∈ reports lines, 0 ≤ entry.2) (reported : (reporting lines).Nonempty) :
    (Undisturbed lines →
      ((∀ node ∈ unvisited lines, lastEnergy lines node = 0) ∨ (lively lines).card ≤ 1 →
        (averageEnergy lines = some (meanEnergy lines) ↔ Depleted lines)) ∧
      (averageEnergy lines = some (meanEnergy lines) ↔ Depleted lines ∨ Compensated lines)) ∧
    (averageEnergy lines = some (meanEnergy lines) ↔
      (left lines).card ≠ 1 ∧
        (∑ i ∈ Finset.range nodeCount, lastStored lines i) * (reporting lines).card =
          (∑ node ∈ reporting lines, lastEnergy lines node) * ((left lines).card - 1)) := by
  refine ⟨?_, eq_mean_iff_table reported⟩
  intro undisturbed
  have general := eq_mean_iff_depleted_or undisturbed nonneg reported
  refine ⟨?_, general⟩
  intro few
  have uncompensated : ¬ Compensated lines := by
    intro compensated
    rcases few with none | few
    · obtain ⟨node, beyond, energy⟩ := compensated.exists_unvisited nonneg
      exact energy (none node beyond)
    · have several := compensated.1
      omega
  rw [general, or_iff_left uncompensated]

/-- Four nodes, one of them empty and one beyond the table. -/
def fourNodes : List Text :=
  ["N -t 1.0 -n 0 -e 7.0".toList, "N -t 1.0 -n 60 -e 30.0".toList,
    "s 1.1 _0_ AGT --- 0 cbr 512 [0 0 0 0]".toList,
    "N -t 2.0 -n 0 -e 3.0".toList, "N -t 2.0 -n 1 -e 5.0".toList,
    "N -t 2.0 -n 2 -e 0.0".toList, "N -t 2.0 -n 60 -e 24.0".toList]

/-- Half of 8 would be 4, but 24 beyond the table make 8 the mean of all four. -/
theorem averageEnergy_eq_mean_iff_fourNodes :
    averageEnergy fourNodes = some (meanEnergy fourNodes) := by
  have trace : EnergyTrace fourNodes := by decide +kernel
  have compensated : Compensated fourNodes := by decide +kernel
  exact ((averageEnergy_eq_mean_iff (by decide +kernel) (by decide +kernel)).1
    trace.undisturbed).2.mpr (Or.inr compensated)

/-- Nodes 0 and 1 report 3 and 5: the script prints 8, not 4. -/
theorem averageEnergy_ne_mean :
    ¬ ∀ lines : List Text, (∀ entry ∈ reports lines, 0 ≤ entry.2) →
      (reporting lines).Nonempty → averageEnergy lines = some (meanEnergy lines) := by
  intro mean
  have equal := mean ["N -t 1.5 -n 0 -e 3.0".toList, "N -t 1.5 -n 1 -e 5.0".toList]
    (by decide +kernel) (by decide +kernel)
  revert equal
  decide +kernel

end ResidualEnergy

end AntAodv
