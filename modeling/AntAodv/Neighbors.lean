import AntAodv.Common
import Mathlib.Data.List.Nodup
import Mathlib.Data.Sym.Sym2

/-!
# Neighbours

A script builds the neighbour lists of the nodes with `add-neighbor` commands, one for each
link.
-/

namespace AntAodv

/-- `Node::addNeighbor` adds a node to a list once more, wherever it puts it. -/
def AddsOne (addTo : List NsAddr → NsAddr → List NsAddr) : Prop :=
  ∀ neighbors node, (addTo neighbors node).Perm (node :: neighbors)

section Lists

variable (addTo : List NsAddr → NsAddr → List NsAddr)

/-- `Antnet::add_Neighbor`. -/
def addNeighbor (lists : NsAddr → List NsAddr) (n1 n2 : NsAddr) : NsAddr → List NsAddr :=
  let lists := Function.update lists n1 (addTo (lists n1) n2)
  Function.update lists n2 (addTo (lists n2) n1)

/-- The lists after an `add-neighbor` command for each link. -/
def neighborLists (links : List (NsAddr × NsAddr)) : NsAddr → List NsAddr :=
  links.foldl (fun lists link => addNeighbor addTo lists link.1 link.2) fun _ => []

/-- The links, whichever end is named first. -/
def pairs (links : List (NsAddr × NsAddr)) : List (Sym2 NsAddr) :=
  links.map fun link => s(link.1, link.2)

variable {addTo : List NsAddr → NsAddr → List NsAddr} {links : List (NsAddr × NsAddr)}

theorem count_update (adds : AddsOne addTo) (lists : NsAddr → List NsAddr) (n1 n2 a b : NsAddr) :
    (Function.update lists n1 (addTo (lists n1) n2) a).count b =
      (lists a).count b + if a = n1 ∧ b = n2 then 1 else 0 := by
  by_cases first : a = n1
  · subst first
    rw [Function.update_self, (adds (lists a) n2).count_eq, List.count_cons]
    by_cases second : b = n2
    · simp [second]
    · simp [second, Ne.symm second]
  · rw [Function.update_of_ne first]
    simp [first]

/-- A command adds each of two nodes to the list of the other. -/
theorem count_addNeighbor (adds : AddsOne addTo) (lists : NsAddr → List NsAddr)
    (n1 n2 a b : NsAddr) :
    (addNeighbor addTo lists n1 n2 a).count b =
      (lists a).count b + if s(a, b) = s(n1, n2) then (if a = b then 2 else 1) else 0 := by
  rw [addNeighbor, count_update adds, count_update adds]
  simp only [Sym2.eq_iff]
  by_cases first : a = n1 ∧ b = n2
  · obtain ⟨rfl, rfl⟩ := first
    by_cases same : a = b
    · subst same
      simp
    · simp [same]
  · by_cases second : a = n2 ∧ b = n1
    · obtain ⟨rfl, rfl⟩ := second
      have apart : a ≠ b := fun same => first ⟨same, same.symm⟩
      simp [apart]
    · simp [first, second]

theorem neighborLists_concat (links : List (NsAddr × NsAddr)) (link : NsAddr × NsAddr) :
    neighborLists addTo (links ++ [link]) =
      addNeighbor addTo (neighborLists addTo links) link.1 link.2 := by
  simp [neighborLists]

theorem count_neighborLists (adds : AddsOne addTo) (a b : NsAddr) :
    (neighborLists addTo links a).count b =
      (pairs links).count s(a, b) * if a = b then 2 else 1 := by
  induction links using List.reverseRecOn with
  | nil => simp [neighborLists, pairs]
  | append_singleton links link inductionHypothesis =>
      have more : (pairs (links ++ [link])).count s(a, b) =
          (pairs links).count s(a, b) + if s(a, b) = s(link.1, link.2) then 1 else 0 := by
        rw [pairs, List.map_append, List.count_append, ← pairs, List.map_singleton,
          List.count_singleton]
        congr 1
        exact if_congr (by rw [beq_iff_eq, eq_comm]) rfl rfl
      rw [neighborLists_concat, count_addNeighbor adds, inductionHypothesis, more, Nat.add_mul,
        ite_mul, Nat.one_mul, Nat.zero_mul]

theorem mem_neighborLists (adds : AddsOne addTo) (a b : NsAddr) :
    b ∈ neighborLists addTo links a ↔ s(a, b) ∈ pairs links := by
  rw [← List.count_pos_iff, count_neighborLists adds, ← List.count_pos_iff]
  split <;> omega

/-- The lists have no entry twice exactly when no two commands name the same two nodes and
none names a node twice. -/
theorem nodup_neighborLists_iff (adds : AddsOne addTo) :
    (∀ a, (neighborLists addTo links a).Nodup) ↔
      (pairs links).Nodup ∧ ∀ link ∈ links, link.1 ≠ link.2 := by
  have counts : ∀ a b, (neighborLists addTo links a).count b =
      (pairs links).count s(a, b) * if a = b then 2 else 1 := count_neighborLists adds
  constructor
  · intro distinct
    have most := fun a => List.nodup_iff_count_le_one.mp (distinct a)
    refine ⟨List.nodup_iff_count_le_one.mpr fun pair => ?_, fun link isLink same => ?_⟩
    · induction pair with
      | _ a b =>
          have once := most a b
          rw [counts] at once
          split at once <;> omega
    · have once := most link.1 link.2
      have named : 0 < (pairs links).count s(link.1, link.2) :=
        List.count_pos_iff.mpr (List.mem_map_of_mem isLink)
      rw [counts, if_pos same] at once
      omega
  · rintro ⟨once, proper⟩ a
    refine List.nodup_iff_count_le_one.mpr fun b => ?_
    have most := List.nodup_iff_count_le_one.mp once s(a, b)
    rw [counts]
    by_cases same : a = b
    · have absent : s(a, b) ∉ pairs links := by
        intro named
        obtain ⟨link, isLink, ends⟩ := List.mem_map.mp named
        rcases Sym2.eq_iff.mp ends with ⟨first, second⟩ | ⟨first, second⟩
        · exact proper link isLink (first.trans (same.trans second.symm))
        · exact proper link isLink (first.trans (same.symm.trans second.symm))
      rw [List.count_eq_zero_of_not_mem absent, Nat.zero_mul]
      exact Nat.zero_le _
    · rw [if_neg same, Nat.mul_one]
      exact most

theorem length_update (adds : AddsOne addTo) (lists : NsAddr → List NsAddr) (n1 n2 a : NsAddr) :
    (Function.update lists n1 (addTo (lists n1) n2) a).length =
      (lists a).length + if n1 = a then 1 else 0 := by
  by_cases first : n1 = a
  · subst first
    rw [Function.update_self, (adds (lists n1) n2).length_eq, List.length_cons, if_pos rfl]
  · rw [Function.update_of_ne (Ne.symm first), if_neg first, Nat.add_zero]

theorem length_neighborLists (adds : AddsOne addTo) (a : NsAddr) :
    (neighborLists addTo links a).length =
      links.countP (fun link => link.1 = a) + links.countP fun link => link.2 = a := by
  induction links using List.reverseRecOn with
  | nil => rfl
  | append_singleton links link inductionHypothesis =>
      rw [neighborLists_concat, addNeighbor, length_update adds, length_update adds,
        inductionHypothesis, List.countP_append, List.countP_append, List.countP_singleton,
        List.countP_singleton]
      simp only [decide_eq_true_eq]
      omega

/-- Whatever `add-neighbor` commands a script gives, a node is in the list of another as often as
a command names the two, so that each is a neighbour of the other or neither is, and every node
has a neighbour for each time it is named. -/
theorem neighbors_of_links (adds : AddsOne addTo) (sim : Sim) :
    (∀ a b, (neighborLists addTo links a).count b =
        (pairs links).count s(a, b) * if a = b then 2 else 1) ∧
      (∀ a b, b ∈ neighborLists addTo links a ↔ a ∈ neighborLists addTo links b) ∧
      (∀ a, ({ sim with neighborList := neighborLists addTo links } : Sim).getNumNeighbors a =
        links.countP (fun link => link.1 = a) + links.countP fun link => link.2 = a) ∧
      ((∀ a, (neighborLists addTo links a).Nodup) ↔
        (pairs links).Nodup ∧ ∀ link ∈ links, link.1 ≠ link.2) := by
  refine ⟨count_neighborLists adds, fun a b => ?_, length_neighborLists adds,
    nodup_neighborLists_iff adds⟩
  rw [mem_neighborLists adds, mem_neighborLists adds, Sym2.eq_swap]

/-- Two commands for the same link, given at both ends. -/
theorem neighbors_of_links_twice :
    ¬ (neighborLists (fun neighbors node => node :: neighbors) [(0, 5), (5, 0)] 0).Nodup := by
  have adds : AddsOne fun neighbors node => node :: neighbors := fun _ _ => .refl _
  intro distinct
  have once := (@neighbors_of_links _ [(0, 5), (5, 0)] adds (Sim.line 2 16)).1 0 5
  have most := List.nodup_iff_count_le_one.mp distinct 5
  rw [once] at most
  revert most
  decide

end Lists

end AntAodv
