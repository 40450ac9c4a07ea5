import AntAodv.Traffic.Reinforcement

/-!
# The variance of a destination

The stored variance enters its own update squared.  As long as it is at most one
before every update, squaring does not raise it and it stays below the first
sample or a squared deviation; beyond one a single sample can lift it above both.
-/

namespace AntAodv

variable {K : Type} [Field K] [LinearOrder K]

/-- The squared deviations of samples from the mean kept before each of them. -/
def squaredDeviations : K → List K → List K
  | _, [] => []
  | mean, tt :: rest =>
      (tt - mean) * (tt - mean) :: squaredDeviations (smooth varsigma mean tt) rest

/-- Before every update with a further sample the stored variance is at most one. -/
def Calm (samples : List K) : Prop :=
  ∀ before after moments, samples = before ++ after → after ≠ [] →
    Moments.ofSamples before = some moments → moments.var ≤ 1

omit [LinearOrder K] in
theorem squaredDeviations_concat (mean : K) (rest : List K) (last : K) :
    squaredDeviations mean (rest ++ [last]) = squaredDeviations mean rest ++
      [(last - smoothAll varsigma mean rest) * (last - smoothAll varsigma mean rest)] := by
  induction rest generalizing mean with
  | nil => rfl
  | cons tt rest inductionHypothesis =>
      rw [List.cons_append, squaredDeviations, inductionHypothesis]
      rfl

theorem Calm.init {tt last : K} {rest : List K} (calm : Calm (tt :: (rest ++ [last]))) :
    Calm (tt :: rest) := by
  intro before after moments split nonempty kept
  apply calm before (after ++ [last]) moments _ (by simp) kept
  rw [← List.append_assoc, ← split, List.cons_append]

namespace Moments

variable [IsStrictOrderedRing K]

omit [IsStrictOrderedRing K] in
theorem var_le_one_of_calm {tt last : K} {rest : List K} (calm : Calm (tt :: (rest ++ [last]))) :
    (rest.foldl next (first tt)).var ≤ 1 :=
  calm (tt :: rest) [last] _ rfl (by simp) rfl

theorem exists_bound {tt : K} (positive : 0 < tt) {rest : List K} (calm : Calm (tt :: rest)) :
    ∃ bound ∈ tt :: squaredDeviations tt rest, (rest.foldl next (first tt)).var ≤ bound := by
  induction rest using List.reverseRecOn with
  | nil => exact ⟨tt, List.mem_singleton_self tt, le_rfl⟩
  | append_singleton rest last inductionHypothesis =>
      obtain ⟨bound, member, below⟩ := inductionHypothesis calm.init
      have nonneg := var_nonneg positive rest
      have square : (rest.foldl next (first tt)).var * (rest.foldl next (first tt)).var ≤ bound :=
        (mul_le_of_le_one_left nonneg (var_le_one_of_calm calm)).trans below
      rw [squaredDeviations_concat, ← mean_foldl, List.foldl_append]
      generalize rest.foldl next (first tt) = moments at square
      rcases le_total bound ((last - moments.mean) * (last - moments.mean)) with wide | narrow
      · refine ⟨_, List.mem_cons_of_mem _ (List.mem_append_right _ (List.mem_singleton_self _)), ?_⟩
        exact smooth_le varsigma_nonneg varsigma_le_one (square.trans wide) le_rfl
      · refine ⟨bound, List.mem_append_left _ member, ?_⟩
        exact smooth_le varsigma_nonneg varsigma_le_one square narrow

/-- Beyond one, the sample one standard deviation above the mean lifts the
variance above itself and the squared deviation. -/
theorem exists_next_var_gt {sqrt : K → K} (isRoot : SquareRoot sqrt) {moments : Moments K}
    (mean : 0 < moments.mean) (large : 1 < moments.var) :
    ∃ tt, 0 < tt ∧ moments.var < (moments.next tt).var ∧
      (tt - moments.mean) * (tt - moments.mean) < (moments.next tt).var := by
  have positive : 0 < moments.var := zero_lt_one.trans large
  have deviation : (moments.mean + sqrt moments.var - moments.mean) *
      (moments.mean + sqrt moments.var - moments.mean) = moments.var := by
    rw [add_sub_cancel_left, isRoot.mul_self _ positive.le]
  have lifted : moments.var < (moments.next (moments.mean + sqrt moments.var)).var := by
    have square : moments.var < moments.var * moments.var := lt_mul_of_one_lt_left positive large
    calc moments.var < (1 - varsigma) * (moments.var * moments.var) + varsigma * moments.var := by
          unfold varsigma
          linarith
      _ = (moments.next (moments.mean + sqrt moments.var)).var := by
          simp only [next, deviation, smooth_eq]
  exact ⟨moments.mean + sqrt moments.var, add_pos mean (isRoot.pos positive), lifted,
    deviation.trans_lt lifted⟩

theorem var_le_one {tt : K} {rest : List K} (positive : ∀ value ∈ tt :: rest, 0 < value)
    (small : ∀ value ∈ tt :: rest, value ≤ 1) : (rest.foldl next (first tt)).var ≤ 1 := by
  induction rest using List.reverseRecOn with
  | nil => exact small tt (List.mem_singleton_self tt)
  | append_singleton rest last inductionHypothesis =>
      have earlier : ∀ value ∈ tt :: rest, value ∈ tt :: (rest ++ [last]) :=
        fun value member => List.mem_append_left [last] member
      have positiveInit := fun value member => positive value (earlier value member)
      have smallInit := fun value member => small value (earlier value member)
      have varLe := inductionHypothesis positiveInit smallInit
      have varNonneg := var_nonneg (positive tt List.mem_cons_self) rest
      -- the sample and the mean are both between zero and one
      have meanNonneg : 0 ≤ smoothAll varsigma tt rest :=
        le_smoothAll varsigma_nonneg varsigma_le_one fun value member =>
          (positiveInit value member).le
      have meanLe : smoothAll varsigma tt rest ≤ 1 :=
        smoothAll_le varsigma_nonneg varsigma_le_one smallInit
      have lastPositive := positive last (by simp)
      have lastLe := small last (by simp)
      rw [List.foldl_append]
      apply smooth_le varsigma_nonneg varsigma_le_one
      · exact mul_le_one₀ varLe varNonneg varLe
      · rw [mean_foldl, ← abs_le_one_iff_mul_self_le_one, abs_le]
        constructor <;> linarith

/-- Samples of at most one keep the variance at most one. -/
theorem calm_of_le_one {tt : K} {rest : List K} (positive : ∀ value ∈ tt :: rest, 0 < value)
    (small : ∀ value ∈ tt :: rest, value ≤ 1) : Calm (tt :: rest) := by
  intro before after moments split nonempty kept
  cases before with
  | nil => simp [ofSamples] at kept
  | cons head before =>
      rw [List.cons_append, List.cons.injEq] at split
      obtain ⟨rfl, rfl⟩ := split
      obtain rfl : before.foldl next (first tt) = moments := by simpa [ofSamples] using kept
      have earlier : ∀ value ∈ tt :: before, value ∈ tt :: (before ++ after) :=
        fun value member => List.mem_append_left after member
      exact var_le_one (fun value member => positive value (earlier value member))
        (fun value member => small value (earlier value member))

end Moments

variable [IsStrictOrderedRing K]

/-- In runs that update no variance above one, no variance exceeds both the first
sample and the largest squared deviation. -/
theorem variance_bounded_of_calm {sqrt : K → K} (isRoot : SquareRoot sqrt) {addr dest : NsAddr}
    {ants : List (HdrAntPkt K)} (feeds : ∀ ah ∈ ants, ah.Feeds addr) {tt : K} {rest : List K}
    (samples : samplesFor addr dest ants = tt :: rest) (calm : Calm (tt :: rest)) :
    ∃ t entry, Traffic.init.updateAll sqrt addr ants = .ok t ∧ t.state dest = some entry ∧
      ∃ bound ∈ tt :: squaredDeviations tt rest, entry.varTt ≤ bound := by
  obtain ⟨t, weights, run, records, _⟩ :=
    Traffic.updateAll_ok isRoot feeds Traffic.records_init (by simp)
  simp only [List.nil_append] at records
  obtain ⟨entry, found, moments, _⟩ := records.entry samples
  have isSample : tt ∈ samplesFor addr dest ants := by simp [samples]
  have positive : 0 < tt := samplesFor_positive feeds isSample
  obtain ⟨bound, member, below⟩ := Moments.exists_bound positive calm
  rw [← moments] at below
  exact ⟨t, entry, run, found, bound, member, below⟩

/-- Two ants from node 1, back at node 0 after the trip time `tt`. -/
def twoFrom (tt : ℝ) : List (HdrAntPkt ℝ) :=
  .replicate 2 ⟨forwardAnt, 1, 0, antSize, 0, 0, [⟨0, 0⟩, ⟨1, tt⟩], 2⟩

theorem sampled_twoFrom (tt : ℝ) : ∀ ah ∈ twoFrom tt, ah.sampled 0 = [(1, tt)] := by
  intro ah member
  rw [List.eq_of_mem_replicate member]
  simp [HdrAntPkt.sampled, HdrAntPkt.live]

theorem feeds_twoFrom {tt : ℝ} (positive : 0 < tt) : ∀ ah ∈ twoFrom tt, ah.Feeds 0 := by
  intro ah member
  refine ⟨?_, ?_, ?_⟩
  · rw [List.eq_of_mem_replicate member]
    simp
  · rw [List.eq_of_mem_replicate member]
    simp [HdrAntPkt.path, HdrAntPkt.live]
  · rw [sampled_twoFrom tt ah member]
    simpa using positive

theorem samplesFor_twoFrom (tt : ℝ) : samplesFor 0 1 (twoFrom tt) = [tt, tt] := by
  have each := sampled_twoFrom tt _ List.mem_cons_self
  simp [samplesFor, twoFrom, each, valuesFor]

theorem variance_bounded_of_calm_half :
    ∃ t entry, Traffic.init.updateAll Real.sqrt 0 (twoFrom (1 / 2)) = .ok t ∧
      t.state 1 = some entry ∧
      ∃ bound ∈ (1 / 2) :: squaredDeviations (1 / 2) [1 / 2], entry.varTt ≤ bound :=
  variance_bounded_of_calm squareRoot_sqrt (feeds_twoFrom (by norm_num))
    (samplesFor_twoFrom (1 / 2))
    (Moments.calm_of_le_one (by norm_num) (by norm_num))

/-- After two samples of 2 the variance is 3.98, above the first sample and the
squared deviation 0. -/
theorem variance_exceeds_samples :
    ¬ ∀ (ants : List (HdrAntPkt ℝ)) (dest : NsAddr) (tt : ℝ) (rest : List ℝ),
      (∀ ah ∈ ants, ah.Feeds 0) → samplesFor 0 dest ants = tt :: rest →
      ∃ t entry, Traffic.init.updateAll Real.sqrt 0 ants = .ok t ∧ t.state dest = some entry ∧
        ∃ bound ∈ tt :: squaredDeviations tt rest, entry.varTt ≤ bound := by
  intro bounded
  have feeds : ∀ ah ∈ twoFrom 2, ah.Feeds 0 := feeds_twoFrom (by norm_num)
  have samples := samplesFor_twoFrom 2
  obtain ⟨t, entry, run, found, bound, member, below⟩ :=
    bounded (twoFrom 2) 1 2 [2] feeds samples
  obtain ⟨t', weights, run', records, _⟩ :=
    Traffic.updateAll_ok squareRoot_sqrt feeds Traffic.records_init (by simp)
  obtain rfl : t' = t := Except.ok.inj (run'.symm.trans run)
  simp only [List.nil_append] at records
  obtain ⟨entry', found', moments, _⟩ := records.entry samples
  obtain rfl : entry' = entry := Option.some.inj (found'.symm.trans found)
  have variance : entry'.varTt = 398 / 100 := by
    calc entry'.varTt = entry'.moments.var := rfl
      _ = 398 / 100 := by
          rw [moments]
          norm_num [Moments.next, Moments.first, smooth, varsigma]
  rw [variance] at below
  simp only [squaredDeviations, sub_self, mul_zero, List.mem_cons, List.not_mem_nil, or_false]
    at member
  rcases member with rfl | rfl <;> norm_num at below

end AntAodv
