import Mathlib.Data.List.Induction

/-!
# Labelled transition systems

Runs record every step they take as the state it was taken from and its label,
so that a property of a run can speak about all its steps.
-/

universe u v

/-- Initial states and labelled steps. -/
structure TransitionSystem (State : Type u) (Label : Type v) where
  init : State → Prop
  step : State → Label → State → Prop

namespace TransitionSystem

variable {State : Type u} {Label : Type v}

/-- A finite run, with the steps it takes in order. -/
inductive Run (system : TransitionSystem State Label) :
    State → List (State × Label) → State → Prop where
  | refl (state) : Run system state [] state
  | snoc {first middle last trace label} :
      Run system first trace middle →
      system.step middle label last →
      Run system first (trace ++ [(middle, label)]) last

def Reachable (system : TransitionSystem State Label) (state : State) : Prop :=
  ∃ first trace, system.init first ∧ system.Run first trace state

/-- The same system, taking only the steps that meet `allowed`. -/
def restrict (system : TransitionSystem State Label)
    (allowed : State → Label → Prop) : TransitionSystem State Label where
  init := system.init
  step first label last := system.step first label last ∧ allowed first label

variable {system : TransitionSystem State Label}

theorem Run.single {first last : State} {label : Label}
    (stepped : system.step first label last) :
    system.Run first [(first, label)] last := by
  simpa using Run.snoc (.refl first) stepped

theorem Run.trans {first middle last : State} {before after : List (State × Label)}
    (early : system.Run first before middle) (late : system.Run middle after last) :
    system.Run first (before ++ after) last := by
  induction late with
  | refl => simpa using early
  | snoc _ stepped inductionHypothesis =>
      rw [← List.append_assoc]
      exact .snoc inductionHypothesis stepped

theorem Run.of_nil {first last : State} (run : system.Run first [] last) : last = first := by
  generalize whole : [] = entries at run
  cases run with
  | refl => rfl
  | snoc => simp at whole

theorem Run.of_snoc {first last state : State} {label : Label} {trace : List (State × Label)}
    (run : system.Run first (trace ++ [(state, label)]) last) :
    system.Run first trace state ∧ system.step state label last := by
  generalize whole : trace ++ [(state, label)] = entries at run
  cases run with
  | refl => simp at whole
  | snoc before stepped =>
      obtain ⟨rfl, latest⟩ := List.append_inj' whole rfl
      cases latest
      exact ⟨before, stepped⟩

/-- A run can be cut in two anywhere. -/
theorem Run.split {first last : State} {before after : List (State × Label)}
    (run : system.Run first (before ++ after) last) :
    ∃ middle, system.Run first before middle ∧ system.Run middle after last := by
  induction after using List.reverseRecOn generalizing last with
  | nil => exact ⟨last, by simpa using run, .refl last⟩
  | append_singleton after entry inductionHypothesis =>
      obtain ⟨state, label⟩ := entry
      rw [← List.append_assoc] at run
      obtain ⟨whole, stepped⟩ := run.of_snoc
      obtain ⟨middle, early, late⟩ := inductionHypothesis whole
      exact ⟨middle, early, .snoc late stepped⟩

/-- Every entry of a run is a step from a state that the run has reached. -/
theorem Run.step_of_mem {first last state : State} {label : Label} {trace : List (State × Label)}
    (run : system.Run first trace last) (occurred : (state, label) ∈ trace) :
    ∃ before next, system.Run first before state ∧ system.step state label next := by
  obtain ⟨before, after, rfl⟩ := List.append_of_mem occurred
  rw [← List.singleton_append, ← List.append_assoc] at run
  obtain ⟨next, early, _⟩ := run.split
  exact ⟨before, next, early.of_snoc⟩

/-- A property kept by every step holds at the end of a run it holds at the
start of. -/
theorem Run.invariant {holds : State → Prop}
    (preserved : ∀ first label last, holds first →
      system.step first label last → holds last)
    {first last : State} {trace : List (State × Label)}
    (run : system.Run first trace last) (start : holds first) : holds last := by
  induction run with
  | refl => exact start
  | snoc _ stepped inductionHypothesis =>
      exact preserved _ _ _ inductionHypothesis stepped

/-- A run that takes only allowed steps is a run of the restricted system. -/
theorem Run.restrict {allowed : State → Label → Prop} {first last : State}
    {trace : List (State × Label)} (run : system.Run first trace last)
    (allows : ∀ entry ∈ trace, allowed entry.1 entry.2) :
    (system.restrict allowed).Run first trace last := by
  induction run with
  | refl => exact .refl _
  | snoc _ stepped inductionHypothesis =>
      refine .snoc (inductionHypothesis fun entry earlier => ?_)
        ⟨stepped, allows _ (List.mem_append_right _ (List.mem_singleton_self _))⟩
      exact allows entry (List.mem_append_left _ earlier)

/-- The invariant rule: what holds initially and is kept by every step holds in
every reachable state. -/
theorem Reachable.invariant (holds : State → Prop)
    (initially : ∀ state, system.init state → holds state)
    (preserved : ∀ first label last, holds first →
      system.step first label last → holds last)
    {state : State} (reached : system.Reachable state) : holds state := by
  rcases reached with ⟨first, trace, initial, run⟩
  exact run.invariant preserved (initially first initial)

/-! ### Schedules -/

/-- Follow a schedule, each of whose choices may depend on the state, by computed steps. -/
def follow (next : State → Label → Option State) (state : State) :
    List (State → Option Label) → Option (List (State × Label) × State)
  | [] => some ([], state)
  | choose :: schedule =>
      (choose state).bind fun label =>
        (next state label).bind fun state' =>
          (follow next state' schedule).map fun (trace, last) => ((state, label) :: trace, last)

/-- Where the computed steps are steps of a system and keep an invariant that they need, what
follows a schedule is a run. -/
theorem run_of_follow {next : State → Label → Option State} (holds : State → Prop)
    (sound : ∀ first label last, holds first → next first label = some last →
      system.step first label last ∧ holds last)
    {first last : State} (start : holds first) {schedule : List (State → Option Label)}
    {trace : List (State × Label)} (followed : follow next first schedule = some (trace, last)) :
    system.Run first trace last ∧ holds last := by
  induction schedule generalizing first trace with
  | nil =>
      cases followed
      exact ⟨.refl _, start⟩
  | cons choose schedule inductionHypothesis =>
      simp only [follow, Option.bind_eq_some_iff, Option.map_eq_some_iff] at followed
      obtain ⟨label, _, middle, computed, ⟨rest, last'⟩, later, same⟩ := followed
      cases same
      obtain ⟨stepped, kept⟩ := sound _ label middle start computed
      obtain ⟨run, kept'⟩ := inductionHypothesis kept later
      exact ⟨(Run.single stepped).trans run, kept'⟩

end TransitionSystem
