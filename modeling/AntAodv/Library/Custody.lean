import Mathlib.Algebra.Order.Group.Nat
import Mathlib.Data.Option.Basic

/-!
# Exclusive ownership

Contents at addresses, given out in order and deleted, each of which belongs to exactly
one owner while it lives.
-/

universe u v

/-- Every owner's content lives, every living content has one owner, and addresses from
`count` on were never given out. -/
structure Custody {Owner : Type u} {Content : Type v} (owned : Owner → Option ℕ)
    (content : ℕ → Option Content) (count : ℕ) : Prop where
  live : ∀ {owner address}, owned owner = some address → (content address).isSome = true
  single : ∀ {owner other address}, owned owner = some address → owned other = some address →
    owner = other
  kept : ∀ {address}, (content address).isSome = true → ∃ owner, owned owner = some address
  fresh : ∀ {address}, count ≤ address → content address = none

namespace Custody

variable {Owner : Type u} {Content : Type v} [DecidableEq Owner] {owned : Owner → Option ℕ}
  {content : ℕ → Option Content} {count : ℕ} {owner : Owner}

/-- New content for an owner without any. -/
theorem give (custody : Custody owned content count) (empty : owned owner = none)
    (value : Content) :
    Custody (Function.update owned owner (some count))
      (Function.update content count (some value)) (count + 1) where
  live := by
    intro other address owns
    by_cases same : address = count
    · simp [same]
    · rw [Function.update_of_ne same]
      by_cases own : other = owner
      · subst own
        rw [Function.update_self, Option.some.injEq] at owns
        exact absurd owns.symm same
      · rw [Function.update_of_ne own] at owns
        exact custody.live owns
  single := by
    have new : ∀ {other : Owner}, owned other = some count → False := by
      intro other owns
      have living := custody.live owns
      rw [custody.fresh le_rfl] at living
      cases living
    intro first second address owns owns'
    by_cases own : first = owner <;> by_cases own' : second = owner
    · rw [own, own']
    · rw [own, Function.update_self, Option.some.injEq] at owns
      rw [Function.update_of_ne own', ← owns] at owns'
      exact (new owns').elim
    · rw [own', Function.update_self, Option.some.injEq] at owns'
      rw [Function.update_of_ne own, ← owns'] at owns
      exact (new owns).elim
    · rw [Function.update_of_ne own] at owns
      rw [Function.update_of_ne own'] at owns'
      exact custody.single owns owns'
  kept := by
    intro address living
    by_cases same : address = count
    · exact ⟨owner, by rw [Function.update_self, same]⟩
    · rw [Function.update_of_ne same] at living
      obtain ⟨other, owns⟩ := custody.kept living
      refine ⟨other, ?_⟩
      rw [Function.update_of_ne _, owns]
      rintro rfl
      rw [empty] at owns
      cases owns
  fresh := by
    intro address above
    rw [Function.update_of_ne (by omega)]
    exact custody.fresh (by omega)

/-- Deleted content of its owner. -/
theorem take (custody : Custody owned content count) {address : ℕ}
    (owns : owned owner = some address) :
    Custody (Function.update owned owner none) (Function.update content address none) count where
  live := by
    intro other address' owns'
    by_cases own : other = owner
    · rw [own, Function.update_self] at owns'
      cases owns'
    · rw [Function.update_of_ne own] at owns'
      rw [Function.update_of_ne _]
      · exact custody.live owns'
      · rintro rfl
        exact own (custody.single owns' owns)
  single := by
    intro first second address' owns' owns''
    by_cases own : first = owner
    · rw [own, Function.update_self] at owns'
      cases owns'
    · by_cases own' : second = owner
      · rw [own', Function.update_self] at owns''
        cases owns''
      · rw [Function.update_of_ne own] at owns'
        rw [Function.update_of_ne own'] at owns''
        exact custody.single owns' owns''
  kept := by
    intro address' living
    by_cases same : address' = address
    · rw [same, Function.update_self] at living
      cases living
    · rw [Function.update_of_ne same] at living
      obtain ⟨other, owns'⟩ := custody.kept living
      refine ⟨other, ?_⟩
      rw [Function.update_of_ne _, owns']
      rintro rfl
      rw [owns', Option.some.injEq] at owns
      exact same owns
  fresh := by
    intro address' above
    by_cases same : address' = address
    · rw [same, Function.update_self]
    · rw [Function.update_of_ne same]
      exact custody.fresh above

omit [DecidableEq Owner] in
/-- Nobody else's content changes. -/
theorem bind_give (custody : Custody owned content count) (other : Owner) (value : Content) :
    (owned other).bind (Function.update content count (some value)) =
      (owned other).bind content := by
  cases owns : owned other with
  | none => rfl
  | some address =>
      have living := custody.live owns
      have below : address ≠ count := by
        rintro rfl
        rw [custody.fresh le_rfl] at living
        cases living
      exact Function.update_of_ne below _ _

omit [DecidableEq Owner] in
theorem bind_take (custody : Custody owned content count) {address : ℕ}
    (owns : owned owner = some address) {other : Owner} (different : other ≠ owner) :
    (owned other).bind (Function.update content address none) = (owned other).bind content := by
  cases owns' : owned other with
  | none => rfl
  | some address' =>
      have apart : address' ≠ address := by
        rintro rfl
        exact different (custody.single owns' owns)
      exact Function.update_of_ne apart _ _

end Custody
