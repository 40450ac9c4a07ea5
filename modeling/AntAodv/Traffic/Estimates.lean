import AntAodv.Traffic.Samples

/-!
# The estimates of a destination

Window, mean, variance and best trip time of a destination as functions of all
its samples, over any number of calls of `update_traffic`.
-/

namespace AntAodv

variable {K : Type}

/-- The mean and the variance kept for a destination. -/
structure Moments (K : Type) where
  mean : K
  var : K

def TrafficMatrix.moments (entry : TrafficMatrix K) : Moments K := ⟨entry.meanTt, entry.varTt⟩

namespace Moments

variable [Field K]

def first (tt : K) : Moments K := ⟨tt, tt⟩

/-- The stored variance enters squared. -/
def next (moments : Moments K) (tt : K) : Moments K where
  mean := smooth varsigma moments.mean tt
  var := smooth varsigma (moments.var * moments.var)
    ((tt - moments.mean) * (tt - moments.mean))

/-- The moments kept after samples, oldest first. -/
def ofSamples : List K → Option (Moments K)
  | [] => none
  | tt :: rest => some (rest.foldl next (first tt))

theorem ofSamples_concat (tt : K) (rest : List K) (last : K) :
    ofSamples (tt :: (rest ++ [last])) =
      some ((rest.foldl next (first tt)).next last) := by
  simp [ofSamples]

@[simp]
theorem mean_foldl (tt : K) (rest : List K) :
    (rest.foldl next (first tt)).mean = smoothAll varsigma tt rest := by
  induction rest using List.reverseRecOn with
  | nil => rfl
  | append_singleton rest last inductionHypothesis =>
      simp [next, inductionHypothesis]

theorem ofSamples_observe {entry : Option (TrafficMatrix K)} {samples : List K}
    (same : entry.map TrafficMatrix.moments = ofSamples samples) (mintt tt : K) :
    ofSamples (samples ++ [tt]) = some (Traffic.observe mintt tt entry).moments := by
  cases samples with
  | nil =>
      have absent : entry = none := by simpa [ofSamples] using same
      subst absent
      rfl
  | cons head rest =>
      cases entry with
      | none => simp [ofSamples] at same
      | some entry =>
          have kept : entry.moments = rest.foldl next (first head) := by
            simpa [ofSamples] using same
          rw [List.cons_append, ofSamples_concat, ← kept]
          rfl

end Moments

@[simp]
theorem Traffic.observe_bestTt [Field K] (mintt tt : K) (entry : Option (TrafficMatrix K)) :
    (observe mintt tt entry).bestTt = mintt := by
  cases entry <;> rfl

/-! ### The samples of a destination -/

def valuesFor (dest : NsAddr) (samples : List (NsAddr × K)) : List K :=
  samples.filterMap fun sample => if sample.1 = dest then some sample.2 else none

@[simp]
theorem valuesFor_nil (dest : NsAddr) : valuesFor dest ([] : List (NsAddr × K)) = [] := rfl

theorem valuesFor_cons (dest : NsAddr) (sample : NsAddr × K) (samples : List (NsAddr × K)) :
    valuesFor dest (sample :: samples) =
      (if sample.1 = dest then [sample.2] else []) ++ valuesFor dest samples := by
  by_cases same : sample.1 = dest <;> simp [valuesFor, same]

theorem mem_valuesFor {dest : NsAddr} {samples : List (NsAddr × K)} {tt : K} :
    tt ∈ valuesFor dest samples ↔ (dest, tt) ∈ samples := by
  simp only [valuesFor, List.mem_filterMap, Option.ite_none_right_eq_some, Option.some.injEq]
  constructor
  · rintro ⟨⟨place, value⟩, member, rfl, rfl⟩
    exact member
  · intro member
    exact ⟨(dest, tt), member, rfl, rfl⟩

/-- All samples for `dest` that ants give the node `addr`. -/
def samplesFor [Field K] (addr dest : NsAddr) (ants : List (HdrAntPkt K)) : List K :=
  ants.flatMap fun ah => valuesFor dest (ah.sampled addr)

/-- The window that holds the samples, absent without any. -/
def windowOf : List K → Option (List K)
  | [] => none
  | tt :: rest => some (tt :: rest)

theorem windowOf_of_mem {samples : List K} {tt : K} (member : tt ∈ samples) :
    windowOf samples = some samples := by
  cases samples with
  | nil => simp at member
  | cons => rfl

namespace Traffic

/-- The model tells the samples `history`. -/
structure Records [Field K] [LinearOrder K] (history : NsAddr → List K) (t : Traffic K) : Prop where
  window : ∀ dest, t.window dest = windowOf (history dest)
  moments : ∀ dest, (t.state dest).map TrafficMatrix.moments = Moments.ofSamples (history dest)
  best : ∀ dest, (t.state dest).map TrafficMatrix.bestTt = (history dest).min?

/-! ### The first pass -/

theorem forSamples_updateWindow (samples : List (NsAddr × K)) {history : NsAddr → List K}
    {t : Traffic K} (window : ∀ dest, t.window dest = windowOf (history dest)) :
    ∃ window', forSamples (fun dest tt t => .ok (t.updateWindow dest tt)) samples t =
        .ok { t with window := window' } ∧
      ∀ dest, window' dest = windowOf (history dest ++ valuesFor dest samples) := by
  induction samples generalizing t history with
  | nil => exact ⟨t.window, rfl, by simpa using window⟩
  | cons sample samples inductionHypothesis =>
      rcases sample with ⟨dest, tt⟩
      have windowNext : ∀ place, (t.updateWindow dest tt).window place =
          windowOf (history place ++ if dest = place then [tt] else []) := by
        intro place
        by_cases same : place = dest
        · subst same
          rw [updateWindow, window place]
          cases history place <;> simp [windowOf]
        · simp [updateWindow, Function.update_of_ne same, window place, Ne.symm same]
      obtain ⟨window', run, windows⟩ := inductionHypothesis windowNext
      refine ⟨window', run, ?_⟩
      intro place
      rw [windows place, valuesFor_cons, List.append_assoc]

variable [Field K] [LinearOrder K]

/-! ### The second pass -/

omit [Field K] in
theorem findBest_eq {winTt : List K} {best : K} (least : winTt.min? = some best) :
    findBest winTt = .ok best := by
  have step : (fun mintt tt : K => if tt < mintt then tt else mintt) = min := by
    funext mintt tt
    rcases lt_or_ge tt mintt with below | above
    · rw [if_pos below, min_eq_right below.le]
    · rw [if_neg (not_lt.mpr above), min_eq_left above]
  cases winTt with
  | nil => simp at least
  | cons first rest =>
      rw [List.min?_cons', Option.some.injEq] at least
      rw [findBest, step, List.foldl_cons, min_self, least]

theorem updateState_ok {dest : NsAddr} {winTt : List K} {best : K} {t : Traffic K}
    (window : t.window dest = some winTt) (least : winTt.min? = some best) (tt : K) :
    t.updateState dest tt = .ok { t with
      state := Function.update t.state dest (some (observe best tt (t.state dest))) } := by
  rw [updateState, findWindow, window]
  simp only [ok_bind, findBest_eq least]

/-- The second pass over samples that the windows already hold. -/
theorem forSamples_updateState (samples : List (NsAddr × K)) {history seen : NsAddr → List K}
    {t : Traffic K} (window : ∀ dest, t.window dest = windowOf (history dest))
    (held : ∀ sample ∈ samples, sample.2 ∈ history sample.1)
    (moments : ∀ dest, (t.state dest).map TrafficMatrix.moments = Moments.ofSamples (seen dest)) :
    ∃ state', forSamples updateState samples t = .ok { t with state := state' } ∧
      (∀ dest, (state' dest).map TrafficMatrix.moments =
        Moments.ofSamples (seen dest ++ valuesFor dest samples)) ∧
      ∀ dest, (state' dest).map TrafficMatrix.bestTt =
        if valuesFor dest samples = [] then (t.state dest).map TrafficMatrix.bestTt
        else (history dest).min? := by
  induction samples generalizing t seen with
  | nil => exact ⟨t.state, rfl, by simpa using moments, by simp⟩
  | cons sample samples inductionHypothesis =>
      rcases sample with ⟨dest, tt⟩
      have member : tt ∈ history dest := held (dest, tt) List.mem_cons_self
      obtain ⟨best, least⟩ : ∃ best, (history dest).min? = some best := by
        apply Option.isSome_iff_exists.mp
        exact List.isSome_min?_of_mem member
      have step := updateState_ok ((window dest).trans (windowOf_of_mem member)) least tt
      have momentsNext : ∀ place,
          (Function.update t.state dest (some (observe best tt (t.state dest))) place).map
              TrafficMatrix.moments =
            Moments.ofSamples (seen place ++ if dest = place then [tt] else []) := by
        intro place
        by_cases same : place = dest
        · subst same
          rw [Function.update_self, if_pos rfl, Option.map_some,
            Moments.ofSamples_observe (moments place)]
        · rw [Function.update_of_ne same, if_neg (Ne.symm same), List.append_nil, moments place]
      obtain ⟨state', run, momentsAfter, bestAfter⟩ := inductionHypothesis
        (t := { t with
          state := Function.update t.state dest (some (observe best tt (t.state dest))) })
        window (fun sample later => held sample (List.mem_cons_of_mem _ later)) momentsNext
      refine ⟨state', ?_, ?_, ?_⟩
      · rw [forSamples, step, ok_bind]
        exact run
      · intro place
        rw [momentsAfter place, valuesFor_cons, List.append_assoc]
      · intro place
        rw [bestAfter place, valuesFor_cons]
        by_cases same : dest = place
        · subst same
          by_cases last : valuesFor dest samples = []
          · simp [last, least]
          · simp [last]
        · simp [same, Function.update_of_ne (Ne.symm same)]

/-! ### Both passes -/

/-- The first two passes add the samples to what is told. -/
theorem Records.passes {history : NsAddr → List K} {t : Traffic K} (records : Records history t)
    (samples : List (NsAddr × K)) :
    ∃ windows t', forSamples (fun dest tt t => .ok (t.updateWindow dest tt)) samples t =
        .ok windows ∧ forSamples updateState samples windows = .ok t' ∧
      Records (fun dest => history dest ++ valuesFor dest samples) t' ∧
      t'.assigned = t.assigned := by
  have held : ∀ sample ∈ samples, sample.2 ∈ history sample.1 ++ valuesFor sample.1 samples := by
    intro sample member
    exact List.mem_append_right _ (mem_valuesFor.mpr member)
  obtain ⟨window', first, windows⟩ := forSamples_updateWindow samples records.window
  obtain ⟨state', second, moments, best⟩ := forSamples_updateState
    (t := { t with window := window' }) samples windows held records.moments
  refine ⟨_, _, first, second, ⟨windows, moments, ?_⟩, rfl⟩
  intro dest
  rw [best dest]
  split
  next none => rw [none, List.append_nil, records.best dest]
  next => rfl

end Traffic

end AntAodv
