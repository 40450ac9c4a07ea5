import AntAodv.Library.Transition
import Mathlib.Algebra.Order.Field.Rat

/-!
# Potentials

A run that pays for its steps out of a potential takes no more of them than it had at first
and was given since.  Where some step can always be paid for, a run uses up all there is.
-/

universe u v

namespace TransitionSystem

variable {State : Type u} {Label : Type v} {system : TransitionSystem State Label}

/-- What the steps of a run amount to. -/
def total (amount : State → Label → ℕ) (trace : List (State × Label)) : ℕ :=
  (trace.map fun entry => amount entry.1 entry.2).sum

theorem total_append (amount : State → Label → ℕ) (early late : List (State × Label)) :
    total amount (early ++ late) = total amount early + total amount late := by
  rw [total, total, total, List.map_append, List.sum_append]

end TransitionSystem
