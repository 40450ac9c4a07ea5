import Mathlib.Data.List.Forall2
import Mathlib.Data.Option.Basic

/-!
# Computations in lockstep

Two fallible computations run in lockstep when they both return related results or
both fail with related errors.  A relational invariant of two runs is built from
such pairs, one operation after the other.
-/

universe u v w x

/-- Both computations return, or both fail. -/
inductive Lockstep {ε : Type u} {α : Type v} {β : Type w} (errors : ε → ε → Prop)
    (results : α → β → Prop) : Except ε α → Except ε β → Prop where
  | ok {value : α} {value' : β} :
      results value value' → Lockstep errors results (.ok value) (.ok value')
  | error {failure failure' : ε} :
      errors failure failure' → Lockstep errors results (.error failure) (.error failure')

namespace Lockstep

variable {ε : Type u} {α α' : Type v} {β β' : Type v} {errors : ε → ε → Prop}
  {results : α → α' → Prop} {final : β → β' → Prop}

/-- Computations stay in lockstep when they continue in lockstep from related
results. -/
theorem bind {first : Except ε α} {second : Except ε α'} {next : α → Except ε β}
    {next' : α' → Except ε β'} (related : Lockstep errors results first second)
    (continued : ∀ value value', results value value' →
      Lockstep errors final (next value) (next' value')) :
    Lockstep errors final (first >>= next) (second >>= next') := by
  cases related with
  | ok same => exact continued _ _ same
  | error same => exact .error same

/-- What one of them returns is related to what the other returns. -/
theorem of_ok {value : α} {value' : α'}
    (related : Lockstep errors results (.ok value) (.ok value')) : results value value' := by
  cases related with
  | ok same => exact same

theorem mono {first : Except ε α} {second : Except ε α'} {weaker : α → α' → Prop}
    (related : Lockstep errors results first second)
    (implies : ∀ value value', results value value' → weaker value value') :
    Lockstep errors weaker first second := by
  cases related with
  | ok same => exact .ok (implies _ _ same)
  | error same => exact .error same

/-- How they fail may be left out. -/
theorem forget {first : Except ε α} {second : Except ε α'}
    (related : Lockstep errors results first second) :
    Lockstep (fun _ _ => True) results first second := by
  cases related with
  | ok same => exact .ok same
  | error => exact .error trivial

/-- A computation is in lockstep with itself. -/
theorem refl {results : α → α → Prop} (sameError : ∀ failure, errors failure failure)
    (sameResult : ∀ value, results value value) (computation : Except ε α) :
    Lockstep errors results computation computation := by
  cases computation with
  | ok value => exact .ok (sameResult value)
  | error failure => exact .error (sameError failure)

end Lockstep
