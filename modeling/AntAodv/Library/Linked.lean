import Mathlib.Data.List.Basic

/-!
# Intrusive linked lists

The nodes of a list that each hold the link to the next one.
-/

universe u

variable {Node : Type u}

/-- The links lead from `start` through `nodes` to the end. -/
inductive LinkedFrom (next : Node → Option Node) : Option Node → List Node → Prop where
  | nil : LinkedFrom next none []
  | cons {node : Node} {nodes : List Node} :
      LinkedFrom next (next node) nodes → LinkedFrom next (some node) (node :: nodes)

namespace LinkedFrom

variable {next next' : Node → Option Node} {start : Option Node} {nodes : List Node}

/-- Links of other nodes do not matter. -/
theorem congr (linked : LinkedFrom next start nodes)
    (same : ∀ node ∈ nodes, next' node = next node) :
    LinkedFrom next' start nodes := by
  induction linked with
  | nil => exact .nil
  | @cons node nodes _ inductionHypothesis =>
      refine .cons ?_
      rw [same node List.mem_cons_self]
      exact inductionHypothesis fun other later => same other (List.mem_cons_of_mem node later)

theorem eq_nil (linked : LinkedFrom next none nodes) : nodes = [] := by
  cases linked
  rfl

theorem exists_cons {node : Node} (linked : LinkedFrom next (some node) nodes) :
    ∃ rest, nodes = node :: rest ∧ LinkedFrom next (next node) rest := by
  cases linked with
  | cons rest => exact ⟨_, rfl, rest⟩

end LinkedFrom
