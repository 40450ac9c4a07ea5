import AntAodv.Traffic.Estimates
import Mathlib.Analysis.Real.Sqrt
import Mathlib.Tactic.Linarith
import Mathlib.Tactic.NormNum.Ineq
import Mathlib.Tactic.Positivity

/-!
# The adaptive reinforcement

The best trip time is the least sample and bounds the mean from below, the
variance is not negative, so every value given to `r` is defined and a weight.
-/

namespace AntAodv

variable {K : Type} [Field K] [LinearOrder K]

/-- A square root that is not negative, on numbers that are not negative. -/
structure SquareRoot (sqrt : K → K) : Prop where
  nonneg : ∀ x, 0 ≤ x → 0 ≤ sqrt x
  mul_self : ∀ x, 0 ≤ x → sqrt x * sqrt x = x

theorem squareRoot_sqrt : SquareRoot Real.sqrt :=
  ⟨fun x _ => Real.sqrt_nonneg x, fun _ nonneg => Real.mul_self_sqrt nonneg⟩

theorem SquareRoot.pos [IsStrictOrderedRing K] {sqrt : K → K} (isRoot : SquareRoot sqrt) {x : K}
    (positive : 0 < x) : 0 < sqrt x := by
  apply lt_of_le_of_ne (isRoot.nonneg x positive.le)
  intro zero
  have square := isRoot.mul_self x positive.le
  rw [← zero, mul_zero] at square
  exact positive.ne square

section Constants

variable [IsStrictOrderedRing K]

theorem varsigma_nonneg : (0 : K) ≤ varsigma := by
  unfold varsigma
  positivity

theorem varsigma_le_one : (varsigma : K) ≤ 1 := by
  unfold varsigma
  norm_num

theorem zee_nonneg : (0 : K) ≤ zee := by
  unfold zee
  positivity

/-- Two ratios between zero and one make a weight. -/
theorem weight_mem {ratio share : K} (ratioNonneg : 0 ≤ ratio) (ratioLe : ratio ≤ 1)
    (shareNonneg : 0 ≤ share) (shareLe : share ≤ 1) :
    0 ≤ c1 * ratio + c2 * share ∧ c1 * ratio + c2 * share ≤ 1 := by
  unfold c1 c2
  constructor
  · positivity
  · linarith

end Constants

/-! ### Positive samples -/

theorem HdrAntPkt.Feeds.positive_append {addr : NsAddr} {ah : HdrAntPkt K} (feeds : ah.Feeds addr)
    {history : NsAddr → List K} (positive : ∀ dest, ∀ tt ∈ history dest, 0 < tt) :
    ∀ dest, ∀ tt ∈ history dest ++ valuesFor dest (ah.sampled addr), 0 < tt := by
  intro dest tt member
  rcases List.mem_append.mp member with old | new
  · exact positive dest tt old
  · exact feeds.positive (dest, tt) (mem_valuesFor.mp new)

theorem samplesFor_positive {addr : NsAddr} {ants : List (HdrAntPkt K)}
    (feeds : ∀ ah ∈ ants, ah.Feeds addr) {dest : NsAddr} {tt : K}
    (member : tt ∈ samplesFor addr dest ants) : 0 < tt := by
  rcases List.mem_flatMap.mp member with ⟨ah, inAnts, value⟩
  exact (feeds ah inAnts).positive (dest, tt) (mem_valuesFor.mp value)

/-! ### The entry of a destination -/

/-- What holds of the entry of a destination with positive samples. -/
structure TrafficMatrix.Sound (samples : List K) (entry : TrafficMatrix K) : Prop where
  best_mem : entry.bestTt ∈ samples
  best_le : ∀ tt ∈ samples, entry.bestTt ≤ tt
  best_le_mean : entry.bestTt ≤ entry.meanTt
  var_nonneg : 0 ≤ entry.varTt

namespace Moments

variable [IsStrictOrderedRing K]

theorem var_nonneg {tt : K} (positive : 0 < tt) (rest : List K) :
    0 ≤ (rest.foldl next (first tt)).var := by
  induction rest using List.reverseRecOn with
  | nil => exact positive.le
  | append_singleton rest last _ =>
      rw [List.foldl_append]
      exact le_smooth varsigma_nonneg varsigma_le_one (mul_self_nonneg _) (mul_self_nonneg _)

end Moments

namespace Traffic

variable {history : NsAddr → List K} {t : Traffic K}

/-- Every destination with samples has an entry. -/
theorem Records.entry (records : Records history t) {dest : NsAddr} {first : K} {rest : List K}
    (samples : history dest = first :: rest) :
    ∃ entry, t.state dest = some entry ∧
      entry.moments = rest.foldl Moments.next (Moments.first first) ∧
      (first :: rest).min? = some entry.bestTt := by
  have moments := records.moments dest
  have best := records.best dest
  rw [samples] at moments best
  cases found : t.state dest with
  | none =>
      rw [found] at moments
      simp [Moments.ofSamples] at moments
  | some entry =>
      rw [found, Option.map_some] at moments best
      exact ⟨entry, rfl, Option.some.inj moments, best.symm⟩

variable [IsStrictOrderedRing K]

theorem Records.sound (records : Records history t) (positive : ∀ dest, ∀ tt ∈ history dest, 0 < tt)
    {dest : NsAddr} (sampled : history dest ≠ []) :
    ∃ entry, t.state dest = some entry ∧ entry.Sound (history dest) := by
  obtain ⟨first, rest, samples⟩ := List.exists_cons_of_ne_nil sampled
  obtain ⟨entry, found, moments, least⟩ := records.entry samples
  have bestLe : ∀ tt ∈ first :: rest, entry.bestTt ≤ tt := (List.min?_eq_some_iff.mp least).2
  refine ⟨entry, found, ?_⟩
  rw [samples]
  refine ⟨List.min?_mem least, bestLe, ?_, ?_⟩
  · calc entry.bestTt ≤ smoothAll varsigma first rest :=
          le_smoothAll varsigma_nonneg varsigma_le_one bestLe
      _ = entry.moments.mean := by rw [moments, Moments.mean_foldl]
  · calc (0 : K) ≤ (rest.foldl Moments.next (Moments.first first)).var :=
          Moments.var_nonneg (positive dest first (by simp [samples])) rest
      _ = entry.moments.var := by rw [moments]

/-! ### The third pass -/

omit [IsStrictOrderedRing K] in
theorem divide_ok {x y : K} (positive : 0 < y) : divide x y = .ok (x / y) := by
  rw [divide, if_neg positive.ne']

omit [IsStrictOrderedRing K] in
theorem root_ok {sqrt : K → K} {x : K} (nonneg : 0 ≤ x) :
    root sqrt x = .ok (sqrt x) := by
  rw [root, if_neg (not_lt.mpr nonneg)]

variable {sqrt : K → K}

theorem findR_ok (isRoot : SquareRoot sqrt) {dest : NsAddr} {entry : TrafficMatrix K}
    {samples : List K} (found : t.state dest = some entry) (sound : entry.Sound samples)
    (window : t.window dest = some samples) {tt : K} (sampled : tt ∈ samples)
    (positive : ∀ tt ∈ samples, 0 < tt) :
    ∃ r, t.findR sqrt dest tt = .ok { t with assigned := t.assigned ++ [r] } ∧
      0 ≤ r ∧ r ≤ 1 := by
  have ttPositive : 0 < tt := positive tt sampled
  have bestPositive : 0 < entry.bestTt := positive _ sound.best_mem
  have bestLe : entry.bestTt ≤ tt := sound.best_le tt sampled
  have counted : (0 : K) < samples.length := by
    exact_mod_cast List.length_pos_of_mem sampled
  have rootCounted := isRoot.pos counted
  have spreadNonneg : 0 ≤ sqrt entry.varTt / sqrt samples.length :=
    div_nonneg (isRoot.nonneg _ sound.var_nonneg) rootCounted.le
  rw [findR, findState, found]
  simp only [ok_bind, root_ok sound.var_nonneg, getWinSize, findWindow, window,
    root_ok counted.le, divide_ok rootCounted]
  generalize high : entry.meanTt + zee * (sqrt entry.varTt / sqrt samples.length) = iSup
  have above : entry.bestTt ≤ iSup := by
    rw [← high]
    exact sound.best_le_mean.trans (le_add_of_nonneg_right (mul_nonneg zee_nonneg spreadNonneg))
  by_cases flat : iSup = entry.bestTt ∧ entry.bestTt = tt
  · rw [if_pos flat]
    exact ⟨0, rfl, le_rfl, zero_le_one⟩
  · -- one of the two distances from the best trip time is positive
    have apart : 0 < (iSup - entry.bestTt) + (tt - entry.bestTt) := by
      rcases above.lt_or_eq with higher | level
      · exact add_pos_of_pos_of_nonneg (sub_pos.mpr higher) (sub_nonneg.mpr bestLe)
      · have later : entry.bestTt < tt :=
          lt_of_le_of_ne bestLe fun same => flat ⟨level.symm, same⟩
        exact add_pos_of_nonneg_of_pos (sub_nonneg.mpr above) (sub_pos.mpr later)
    rw [if_neg flat]
    simp only [divide_ok ttPositive, divide_ok apart, ok_bind]
    refine ⟨_, rfl, weight_mem ?_ ?_ ?_ ?_⟩
    · exact div_nonneg bestPositive.le ttPositive.le
    · exact (div_le_one ttPositive).mpr bestLe
    · exact div_nonneg (sub_nonneg.mpr above) apart.le
    · exact (div_le_one apart).mpr (le_add_of_nonneg_right (sub_nonneg.mpr bestLe))

/-- The third pass assigns weights only. -/
theorem forSamples_findR (isRoot : SquareRoot sqrt) (samples : List (NsAddr × K))
    (records : Records history t) (positive : ∀ dest, ∀ tt ∈ history dest, 0 < tt)
    (held : ∀ sample ∈ samples, sample.2 ∈ history sample.1) :
    ∃ weights, forSamples (findR sqrt) samples t =
        .ok { t with assigned := t.assigned ++ weights } ∧
      weights.length = samples.length ∧ ∀ r ∈ weights, 0 ≤ r ∧ r ≤ 1 := by
  induction samples generalizing t with
  | nil => exact ⟨[], by simp [forSamples], rfl, by simp⟩
  | cons sample samples inductionHypothesis =>
      rcases sample with ⟨dest, tt⟩
      have member : tt ∈ history dest := held (dest, tt) List.mem_cons_self
      obtain ⟨entry, found, sound⟩ := records.sound positive (List.ne_nil_of_mem member)
      have window := (records.window dest).trans (windowOf_of_mem member)
      obtain ⟨r, step, weight⟩ := findR_ok isRoot found sound window member (positive dest)
      obtain ⟨weights, run, count, areWeights⟩ := inductionHypothesis
        (t := { t with assigned := t.assigned ++ [r] })
        ⟨records.window, records.moments, records.best⟩
        (fun sample later => held sample (List.mem_cons_of_mem _ later))
      refine ⟨r :: weights, ?_, congrArg (· + 1) count,
        List.forall_mem_cons.mpr ⟨weight, areWeights⟩⟩
      rw [forSamples, step, ok_bind, run]
      simp

/-! ### Any number of calls -/

variable {addr : NsAddr}

/-- One call adds the samples of its ant and assigns one weight for each. -/
theorem updateTraffic_ok (isRoot : SquareRoot sqrt) {ah : HdrAntPkt K} (feeds : ah.Feeds addr)
    (records : Records history t) (positive : ∀ dest, ∀ tt ∈ history dest, 0 < tt) :
    ∃ t' weights, t.updateTraffic sqrt addr ah = .ok t' ∧
      Records (fun dest => history dest ++ valuesFor dest (ah.sampled addr)) t' ∧
      t'.assigned = t.assigned ++ weights ∧
      weights.length = (ah.sampled addr).length ∧ ∀ r ∈ weights, 0 ≤ r ∧ r ≤ 1 := by
  have positiveNext := feeds.positive_append positive
  have held : ∀ sample ∈ ah.sampled addr,
      sample.2 ∈ history sample.1 ++ valuesFor sample.1 (ah.sampled addr) := by
    intro sample member
    exact List.mem_append_right _ (mem_valuesFor.mpr member)
  obtain ⟨windows, recorded, first, second, recordsNext, assigned⟩ :=
    records.passes (ah.sampled addr)
  obtain ⟨weights, third, count, areWeights⟩ :=
    forSamples_findR isRoot (ah.sampled addr) recordsNext positiveNext held
  rw [assigned] at third
  refine ⟨{ recorded with assigned := t.assigned ++ weights },
    weights, ?_, ⟨recordsNext.window, recordsNext.moments, recordsNext.best⟩, rfl,
    count, areWeights⟩
  rw [updateTraffic_eq sqrt feeds.bounded feeds.visited, first, ok_bind, second, ok_bind, third]

/-- Calls keep the samples of all their ants. -/
theorem updateAll_ok (isRoot : SquareRoot sqrt) {ants : List (HdrAntPkt K)}
    (feeds : ∀ ah ∈ ants, ah.Feeds addr)
    (records : Records history t) (positive : ∀ dest, ∀ tt ∈ history dest, 0 < tt) :
    ∃ t' weights, t.updateAll sqrt addr ants = .ok t' ∧
      Records (fun dest => history dest ++ samplesFor addr dest ants) t' ∧
      t'.assigned = t.assigned ++ weights ∧
      weights.length = (ants.flatMap (·.sampled addr)).length ∧ ∀ r ∈ weights, 0 ≤ r ∧ r ≤ 1 := by
  induction ants generalizing t history with
  | nil =>
      refine ⟨t, [], rfl, ?_, by simp, rfl, by simp⟩
      simpa [samplesFor] using records
  | cons ah ants inductionHypothesis =>
      have feedsFirst := feeds ah List.mem_cons_self
      obtain ⟨middle, early, step, recordsNext, assignedNext, countEarly, areEarly⟩ :=
        updateTraffic_ok isRoot feedsFirst records positive
      obtain ⟨last, late, run, recordsLast, assignedLast, countLate, areLate⟩ :=
        inductionHypothesis (fun ah later => feeds ah (List.mem_cons_of_mem _ later))
          recordsNext (feedsFirst.positive_append positive)
      refine ⟨last, early ++ late, ?_, ?_, ?_, ?_, ?_⟩
      · rw [updateAll, step, ok_bind, run]
      · simpa [samplesFor] using recordsLast
      · rw [assignedLast, assignedNext, List.append_assoc]
      · simp [countEarly, countLate]
      · intro r member
        rcases List.mem_append.mp member with inEarly | inLate
        · exact areEarly r inEarly
        · exact areLate r inLate

omit [IsStrictOrderedRing K] in
theorem records_init : Records (fun _ => []) (init : Traffic K) :=
  ⟨fun _ => rfl, fun _ => rfl, fun _ => rfl⟩

end Traffic

/-- Any number of calls for ants that travelled return, with every value assigned
to `r` a weight, and for every destination visited the window holds its samples
and the entry is sound for them. -/
theorem reinforcement_defined [IsStrictOrderedRing K] {sqrt : K → K} (isRoot : SquareRoot sqrt)
    {addr : NsAddr} {ants : List (HdrAntPkt K)} (travelled : ∀ ah ∈ ants, ah.Travelled addr) :
    ∃ t, Traffic.init.updateAll sqrt addr ants = .ok t ∧
      t.assigned.length = (ants.flatMap (·.sampled addr)).length ∧
      (∀ r ∈ t.assigned, 0 ≤ r ∧ r ≤ 1) ∧
      ∀ dest, samplesFor addr dest ants ≠ [] →
        t.window dest = some (samplesFor addr dest ants) ∧
          ∃ entry, t.state dest = some entry ∧ entry.Sound (samplesFor addr dest ants) := by
  have feeds : ∀ ah ∈ ants, ah.Feeds addr := fun ah member => (travelled ah member).feeds
  obtain ⟨t, weights, run, records, assigned, count, areWeights⟩ :=
    Traffic.updateAll_ok isRoot feeds Traffic.records_init (by simp)
  simp only [List.nil_append] at records
  have isAssigned : t.assigned = weights := by simpa [Traffic.init] using assigned
  refine ⟨t, run, isAssigned ▸ count, isAssigned ▸ areWeights, ?_⟩
  intro dest visited
  obtain ⟨tt, member⟩ := List.exists_mem_of_ne_nil _ visited
  refine ⟨(records.window dest).trans (windowOf_of_mem member), ?_⟩
  apply records.sound _ visited
  intro place tt member
  exact samplesFor_positive feeds member

/-- Two ants from node 2, back at node 0 over node 1. -/
theorem reinforcement_defined_line :
    ∃ t, Traffic.init.updateAll Real.sqrt 0
        (.replicate 2 ⟨forwardAnt, 2, 0, antSize, 0, 0, [⟨0, 0⟩, ⟨1, 1⟩, ⟨2, 3⟩], 3⟩) = .ok t ∧
      t.assigned.length = 4 ∧ ∀ r ∈ t.assigned, 0 ≤ r ∧ r ≤ 1 := by
  have travelled : ∀ ah ∈ List.replicate 2 (⟨forwardAnt, 2, 0, antSize, 0, 0,
      [⟨0, 0⟩, ⟨1, 1⟩, ⟨2, 3⟩], 3⟩ : HdrAntPkt ℝ), ah.Travelled 0 := by
    intro ah member
    rw [List.eq_of_mem_replicate member]
    refine ⟨by simp, by simp [HdrAntPkt.path, HdrAntPkt.live],
      by simp [HdrAntPkt.path, HdrAntPkt.live], ?_⟩
    norm_num [HdrAntPkt.live]
  obtain ⟨t, run, count, areWeights, _⟩ := reinforcement_defined squareRoot_sqrt travelled
  exact ⟨t, run, count, areWeights⟩

end AntAodv
