import AntAodv.Library.Transition

/-!
# Refinement

A system refines a more abstract one when every step it takes is matched by a run of
the abstract system that shows the same observations.  A step may be matched by no
step at all, or by several.
-/

universe u v w x y

namespace TransitionSystem

variable {State : Type u} {Label : Type v} {Abstract : Type w} {AbstractLabel : Type x}
  {Observation : Type y}

/-- What a trace shows, step by step. -/
def observed (observe : Label → Option Observation) (trace : List (State × Label)) :
    List Observation :=
  trace.filterMap fun entry => observe entry.2

@[simp]
theorem observed_append (observe : Label → Option Observation)
    (early late : List (State × Label)) :
    observed observe (early ++ late) = observed observe early ++ observed observe late :=
  List.filterMap_append

/-- A relation between the states of two systems that every step of the concrete one
keeps, provided that the abstract system follows with the same observations. -/
structure Refinement (concrete : TransitionSystem State Label)
    (abstract : TransitionSystem Abstract AbstractLabel)
    (observe : Label → Option Observation)
    (observeAbstract : AbstractLabel → Option Observation) where
  related : State → Abstract → Prop
  start : ∀ state, concrete.init state → ∃ state', abstract.init state' ∧ related state state'
  step : ∀ first label last first',
    abstract.Reachable first' →
    related first first' →
    concrete.step first label last →
    ∃ trace last', abstract.Run first' trace last' ∧ related last last' ∧
      observed observeAbstract trace = (observe label).toList

variable {concrete : TransitionSystem State Label}
  {abstract : TransitionSystem Abstract AbstractLabel}
  {observe : Label → Option Observation}
  {observeAbstract : AbstractLabel → Option Observation}

theorem Reachable.run {first last : State} {trace : List (State × Label)}
    (reached : concrete.Reachable first) (run : concrete.Run first trace last) :
    concrete.Reachable last := by
  rcases reached with ⟨start, before, initial, early⟩
  exact ⟨start, before ++ trace, initial, early.trans run⟩

namespace Refinement

variable (refinement : Refinement concrete abstract observe observeAbstract)

/-- A run of the concrete system is matched by a run of the abstract one. -/
theorem run {first last : State} {trace : List (State × Label)} {first' : Abstract}
    (reached : abstract.Reachable first') (related : refinement.related first first')
    (run : concrete.Run first trace last) :
    ∃ trace' last', abstract.Run first' trace' last' ∧ refinement.related last last' ∧
      observed observeAbstract trace' = observed observe trace := by
  induction run with
  | refl => exact ⟨[], first', .refl first', related, rfl⟩
  | @snoc middle last before label _ stepped inductionHypothesis =>
      obtain ⟨early, middle', earlyRun, relatedMiddle, sameEarly⟩ := inductionHypothesis
      obtain ⟨late, last', lateRun, relatedLast, sameLate⟩ :=
        refinement.step middle label last middle' (reached.run earlyRun) relatedMiddle stepped
      refine ⟨early ++ late, last', earlyRun.trans lateRun, relatedLast, ?_⟩
      rw [observed_append, observed_append, sameEarly, sameLate]
      cases shown : observe label <;> simp [observed, shown]

/-- A run from an initial state is matched by one from an initial state. -/
theorem run_of_init {first last : State} {trace : List (State × Label)}
    (initial : concrete.init first) (run : concrete.Run first trace last) :
    ∃ first' trace' last', abstract.init first' ∧ abstract.Run first' trace' last' ∧
      refinement.related last last' ∧
      observed observeAbstract trace' = observed observe trace := by
  obtain ⟨first', initial', related⟩ := refinement.start first initial
  obtain ⟨trace', last', run', relatedLast, same⟩ :=
    refinement.run ⟨first', [], initial', .refl first'⟩ related run
  exact ⟨first', trace', last', initial', run', relatedLast, same⟩

end Refinement

end TransitionSystem
