import Mathlib.Algebra.Order.Group.Defs
import Mathlib.Data.List.Chain
import Mathlib.Data.List.Nodup

/-!
# Chronological loop erasure of a timed walk

A walk is a list of visits, each a node with the time of arrival.  Its loop
erasure keeps, for the node of the first visit, only the last visit to it,
drops everything in between and continues behind that last visit.  What is kept
of a node is a `Stay`: the arrival over the surviving hop into it and the
arrival from which the surviving hop out of it leaves.

`visit` and `extend` are the online forms, which process the walk one visit at a
time and cut the path back at a revisited node; `loopErase_append` connects
them with the definition.
-/

universe u v

namespace LoopErasure

variable {Node : Type u} {Time : Type v} [DecidableEq Node]

/-! ### Paths of nodes -/

/-- The path after one more visit: a revisit cuts it back to the revisited
node. -/
def visit : List Node → Node → List Node
  | [], node => [node]
  | head :: path, node =>
      if head = node then [head] else head :: visit path node

theorem visit_of_not_mem {path : List Node} {node : Node}
    (fresh : node ∉ path) : visit path node = path ++ [node] := by
  induction path with
  | nil => rfl
  | cons head path inductionHypothesis =>
      simp only [List.mem_cons, not_or] at fresh
      simp [visit, Ne.symm fresh.1, inductionHypothesis fresh.2]

theorem visit_append_cons {before : List Node} {node : Node}
    (fresh : node ∉ before) (after : List Node) :
    visit (before ++ node :: after) node = before ++ [node] := by
  induction before with
  | nil => simp [visit]
  | cons head before inductionHypothesis =>
      simp only [List.mem_cons, not_or] at fresh
      simp [visit, Ne.symm fresh.1, inductionHypothesis fresh.2]

/-- Either the node is new and ends the longer path, or the path is cut back to
its first occurrence. -/
theorem visit_cases (path : List Node) (node : Node) :
    (node ∉ path ∧ visit path node = path ++ [node]) ∨
      ∃ before after, node ∉ before ∧ path = before ++ node :: after ∧
        visit path node = before ++ [node] := by
  by_cases membership : node ∈ path
  · rcases List.eq_append_cons_of_mem membership with ⟨before, after, split, fresh⟩
    apply Or.inr
    refine ⟨before, after, fresh, split, ?_⟩
    rw [split]
    exact visit_append_cons fresh after
  · apply Or.inl
    exact ⟨membership, visit_of_not_mem membership⟩

theorem visit_ne_nil (path : List Node) (node : Node) : visit path node ≠ [] := by
  rcases visit_cases path node with ⟨_, equality⟩ | ⟨before, _, _, _, equality⟩ <;>
    simp [equality]

@[simp]
theorem getLast?_visit (path : List Node) (node : Node) :
    (visit path node).getLast? = some node := by
  rcases visit_cases path node with ⟨_, equality⟩ | ⟨before, _, _, _, equality⟩ <;>
    simp [equality]

theorem head?_visit {path : List Node} (nonempty : path ≠ []) (node : Node) :
    (visit path node).head? = path.head? := by
  rcases visit_cases path node with ⟨_, equality⟩ | ⟨before, after, _, split, equality⟩
  · rw [equality, List.head?_append_of_ne_nil _ nonempty]
  · rw [equality, split]
    cases before <;> simp

/-- A visit to any node but the first leaves the first one and this one. -/
theorem two_le_length_visit_iff {path : List Node} (nonempty : path ≠ []) (node : Node) :
    2 ≤ (visit path node).length ↔ path.head? ≠ some node := by
  rcases List.exists_cons_of_ne_nil nonempty with ⟨first, rest, rfl⟩
  by_cases same : first = node
  · simp [visit, same]
  · have later := List.length_pos_of_ne_nil (visit_ne_nil rest node)
    simp only [visit, same, if_false, List.length_cons, List.head?_cons, ne_eq,
      Option.some.injEq, not_false_eq_true, iff_true]
    omega

theorem mem_of_mem_visit {path : List Node} {node other : Node}
    (membership : other ∈ visit path node) : other ∈ path ∨ other = node := by
  rcases visit_cases path node with ⟨_, equality⟩ | ⟨before, after, _, split, equality⟩
  · simpa [equality] using membership
  · rw [equality] at membership
    rw [split]
    simp only [List.mem_append, List.mem_cons] at membership ⊢
    tauto

theorem nodup_visit {path : List Node} (distinct : path.Nodup) (node : Node) :
    (visit path node).Nodup := by
  rcases visit_cases path node with ⟨fresh, equality⟩ | ⟨before, after, fresh, split, equality⟩
  · rw [equality]
    apply distinct.append (List.nodup_singleton node)
    simpa using fresh
  · rw [split] at distinct
    rw [equality]
    apply distinct.of_append_left.append (List.nodup_singleton node)
    simpa using fresh

/-- Every hop of the new path is a hop of the old one or the hop just made. -/
theorem isChain_visit {hop : Node → Node → Prop} {path : List Node} {node : Node}
    (chain : path.IsChain hop)
    (made : ∀ last ∈ path.getLast?, hop last node) :
    (visit path node).IsChain hop := by
  rcases visit_cases path node with ⟨_, equality⟩ | ⟨before, after, _, split, equality⟩
  · rw [equality, List.isChain_append]
    exact ⟨chain, List.isChain_singleton node, by simpa using made⟩
  · rw [equality]
    apply chain.prefix
    rw [split]
    exact ⟨after, by simp⟩

/-! ### The definition -/

/-- One node of a loop-erased walk. -/
structure Stay (Node : Type u) (Time : Type v) where
  node : Node
  /-- Arrival over the surviving hop into the node. -/
  arrive : Time
  /-- Last arrival at the node, from which the surviving hop leaves. -/
  leave : Time

/-- The part of a walk behind its last visit to `node`; all of it if there is
none. -/
def afterLast (node : Node) : List (Node × Time) → List (Node × Time)
  | [] => []
  | stop :: walk =>
      if node ∈ (stop :: walk).map Prod.fst then afterLast node walk
      else stop :: walk

/-- The last arrival at `node`, or `time` if the walk never visits it. -/
def lastArrival (node : Node) (time : Time) : List (Node × Time) → Time
  | [] => time
  | stop :: walk =>
      lastArrival node (if stop.1 = node then stop.2 else time) walk

theorem length_afterLast_le (node : Node) (walk : List (Node × Time)) :
    (afterLast node walk).length ≤ walk.length := by
  induction walk with
  | nil => simp [afterLast]
  | cons stop walk inductionHypothesis =>
      unfold afterLast
      split
      · simp only [List.length_cons]
        omega
      · simp

/-- The chronological loop erasure of a walk. -/
def loopErase : List (Node × Time) → List (Stay Node Time)
  | [] => []
  | stop :: walk =>
      ⟨stop.1, stop.2, lastArrival stop.1 stop.2 walk⟩ ::
        loopErase (afterLast stop.1 walk)
termination_by walk => walk.length
decreasing_by
  have bound := length_afterLast_le stop.1 walk
  simp only [List.length_cons]
  omega

/-! ### The online form -/

/-- The loop erasure after one more visit. -/
def extend : List (Stay Node Time) → Node × Time → List (Stay Node Time)
  | [], stop => [⟨stop.1, stop.2, stop.2⟩]
  | stay :: stays, stop =>
      if stay.node = stop.1 then [{ stay with leave := stop.2 }]
      else stay :: extend stays stop

theorem afterLast_append (node : Node) (walk : List (Node × Time)) (stop : Node × Time) :
    afterLast node (walk ++ [stop]) =
      if stop.1 = node then [] else afterLast node walk ++ [stop] := by
  induction walk with
  | nil =>
      by_cases same : stop.1 = node
      · simp [afterLast, same]
      · simp [afterLast, same, Ne.symm same]
  | cons first walk inductionHypothesis =>
      by_cases same : stop.1 = node
      · simp [afterLast, inductionHypothesis, same]
      · simp only [List.cons_append, afterLast, inductionHypothesis, same, if_false]
        have occurrence : node ∈ (first :: (walk ++ [stop])).map Prod.fst ↔
            node ∈ (first :: walk).map Prod.fst := by
          simp [Ne.symm same]
        simp only [occurrence]
        split <;> rfl

theorem lastArrival_append (node : Node) (time : Time) (walk : List (Node × Time))
    (stop : Node × Time) :
    lastArrival node time (walk ++ [stop]) =
      if stop.1 = node then stop.2 else lastArrival node time walk := by
  induction walk generalizing time with
  | nil => simp [lastArrival]
  | cons first walk inductionHypothesis =>
      simp only [List.cons_append, lastArrival, inductionHypothesis]

/-- One more visit extends the loop erasure online. -/
theorem loopErase_append (walk : List (Node × Time)) (stop : Node × Time) :
    loopErase (walk ++ [stop]) = extend (loopErase walk) stop := by
  induction walk using loopErase.induct with
  | case1 => simp [loopErase, extend, afterLast, lastArrival]
  | case2 first walk inductionHypothesis =>
      rw [List.cons_append, loopErase, loopErase, extend, afterLast_append,
        lastArrival_append]
      by_cases same : first.1 = stop.1
      · simp [same, loopErase]
      · simp only [same, Ne.symm same, if_false, inductionHypothesis]

theorem map_node_extend (stays : List (Stay Node Time)) (stop : Node × Time) :
    (extend stays stop).map Stay.node = visit (stays.map Stay.node) stop.1 := by
  induction stays with
  | nil => rfl
  | cons stay stays inductionHypothesis =>
      by_cases same : stay.node = stop.1 <;>
        simp [extend, visit, same, inductionHypothesis]

theorem getLast?_extend (stays : List (Stay Node Time)) (stop : Node × Time) :
    ∃ arrive, (extend stays stop).getLast? = some ⟨stop.1, arrive, stop.2⟩ := by
  induction stays with
  | nil => exact ⟨stop.2, rfl⟩
  | cons stay stays inductionHypothesis =>
      by_cases same : stay.node = stop.1
      · exact ⟨stay.arrive, by simp [extend, same]⟩
      · rcases inductionHypothesis with ⟨arrive, ends⟩
        refine ⟨arrive, ?_⟩
        simp [extend, same, List.getLast?_cons, ends]

theorem nodup_loopErase (walk : List (Node × Time)) :
    ((loopErase walk).map Stay.node).Nodup := by
  induction walk using List.reverseRecOn with
  | nil => simp [loopErase]
  | append_singleton walk stop inductionHypothesis =>
      rw [loopErase_append, map_node_extend]
      exact nodup_visit inductionHypothesis stop.1

theorem mem_of_mem_loopErase {walk : List (Node × Time)} {node : Node}
    (membership : node ∈ (loopErase walk).map Stay.node) : node ∈ walk.map Prod.fst := by
  induction walk using List.reverseRecOn with
  | nil => simp [loopErase] at membership
  | append_singleton walk stop inductionHypothesis =>
      rw [loopErase_append, map_node_extend] at membership
      rw [List.map_append, List.mem_append]
      rcases mem_of_mem_visit membership with earlier | same
      · apply Or.inl
        exact inductionHypothesis earlier
      · apply Or.inr
        simp [same]

theorem head?_loopErase (walk : List (Node × Time)) :
    ((loopErase walk).map Stay.node).head? = (walk.map Prod.fst).head? := by
  cases walk <;> simp [loopErase]

theorem getLast?_loopErase {walk : List (Node × Time)} {stop : Node × Time}
    (ends : walk.getLast? = some stop) :
    ∃ arrive, (loopErase walk).getLast? = some ⟨stop.1, arrive, stop.2⟩ := by
  rcases List.getLast?_eq_some_iff.mp ends with ⟨before, split⟩
  rw [split, loopErase_append]
  exact getLast?_extend _ stop

/-! ### Surviving hops -/

theorem split_lastArrival (node : Node) (time : Time) (walk : List (Node × Time)) :
    ∃ before, (node, time) :: walk =
      before ++ (node, lastArrival node time walk) :: afterLast node walk := by
  induction walk using List.reverseRecOn with
  | nil => exact ⟨[], rfl⟩
  | append_singleton walk stop inductionHypothesis =>
      rw [lastArrival_append, afterLast_append]
      by_cases same : stop.1 = node
      · exact ⟨(node, time) :: walk, by simp [← same]⟩
      · rcases inductionHypothesis with ⟨before, split⟩
        refine ⟨before, ?_⟩
        simp only [same, if_false]
        rw [← List.cons_append, split]
        simp

theorem not_mem_afterLast (node : Node) (walk : List (Node × Time)) :
    node ∉ (afterLast node walk).map Prod.fst := by
  induction walk using List.reverseRecOn with
  | nil => simp [afterLast]
  | append_singleton walk stop inductionHypothesis =>
      rw [afterLast_append]
      by_cases same : stop.1 = node
      · simp [same]
      · simp only [same, if_false, List.map_append, List.mem_append, not_or]
        exact ⟨inductionHypothesis, by simpa using Ne.symm same⟩

/-- The walk really goes from `first` to `second`: it leaves the last visit to
`first` and the next visit is the arrival at `second`. -/
def Hop (walk : List (Node × Time)) (first second : Stay Node Time) : Prop :=
  ∃ before after,
    walk = before ++ (first.node, first.leave) :: (second.node, second.arrive) :: after ∧
      first.node ∉ ((second.node, second.arrive) :: after).map Prod.fst

omit [DecidableEq Node] in
theorem Hop.append_left {walk : List (Node × Time)} {first second : Stay Node Time}
    (hop : Hop walk first second) (early : List (Node × Time)) :
    Hop (early ++ walk) first second := by
  rcases hop with ⟨before, after, split, gone⟩
  exact ⟨early ++ before, after, by rw [split, List.append_assoc], gone⟩

/-- Consecutive nodes of the loop erasure are joined by a hop of the walk. -/
theorem loopErase_hops (walk : List (Node × Time)) :
    (loopErase walk).IsChain (Hop walk) := by
  induction walk using loopErase.induct with
  | case1 => simp [loopErase]
  | case2 stop walk inductionHypothesis =>
      rcases split_lastArrival stop.1 stop.2 walk with ⟨before, split⟩
      rw [loopErase, List.isChain_cons]
      constructor
      · intro next isNext
        have gone := not_mem_afterLast stop.1 walk
        cases rest : afterLast stop.1 walk with
        | nil => simp [rest, loopErase] at isNext
        | cons first after =>
            rw [rest, loopErase] at isNext
            simp only [List.head?_cons, Option.mem_def, Option.some.injEq] at isNext
            subst isNext
            rw [rest] at split gone
            exact ⟨before, after, by simpa using split, gone⟩
      · refine inductionHypothesis.imp fun first second hop => ?_
        have lifted := hop.append_left (before ++ [(stop.1, lastArrival stop.1 stop.2 walk)])
        rw [List.append_assoc, List.singleton_append, ← split] at lifted
        exact lifted

/-! ### Charging the time of the surviving hops -/

section Charged

variable [AddCommGroup Time]

/-- `entries` carries one time for each stay: consecutive times differ by
exactly the duration of the hop between the stays, and the last is `total`. -/
inductive Charged : Time → List (Stay Node Time) → List (Node × Time) → Prop where
  | last (total : Time) (stay : Stay Node Time) :
      Charged total [stay] [(stay.node, total)]
  | hop {total trip : Time} {stay next : Stay Node Time} {stays entry entries} :
      Charged total (next :: stays) (entry :: entries) →
      entry.2 - trip = next.arrive - stay.leave →
      Charged total (stay :: next :: stays) ((stay.node, trip) :: entry :: entries)

omit [DecidableEq Node] in
theorem Charged.shift {total : Time} {stays : List (Stay Node Time)}
    {entries : List (Node × Time)} (charged : Charged total stays entries) (extra : Time) :
    Charged (total + extra) stays
      (entries.map fun entry => (entry.1, entry.2 + extra)) := by
  induction charged with
  | last stay => exact .last (total + extra) stay
  | hop _ difference inductionHypothesis =>
      refine .hop inductionHypothesis ?_
      rw [← difference]
      exact add_sub_add_right_eq_sub _ _ _

omit [DecidableEq Node] in
theorem Charged.map_fst {total : Time} {stays : List (Stay Node Time)}
    {entries : List (Node × Time)} (charged : Charged total stays entries) :
    entries.map Prod.fst = stays.map Stay.node := by
  induction charged with
  | last => rfl
  | hop _ _ inductionHypothesis =>
      simp only [List.map_cons] at inductionHypothesis ⊢
      rw [inductionHypothesis]

omit [DecidableEq Node] in
theorem Charged.getLast? {total : Time} {stays : List (Stay Node Time)}
    {entries : List (Node × Time)} (charged : Charged total stays entries) :
    entries.getLast?.map Prod.snd = some total := by
  induction charged with
  | last => rfl
  | hop _ _ inductionHypothesis =>
      rw [List.getLast?_cons_cons]
      exact inductionHypothesis

omit [DecidableEq Node] in
/-- Consecutive times differ by the duration of the surviving hop. -/
theorem Charged.difference {total : Time} {stays : List (Stay Node Time)}
    {entries : List (Node × Time)} (charged : Charged total stays entries) {index : ℕ}
    {first second : Stay Node Time} {entry next : Node × Time}
    (isFirst : stays[index]? = some first) (isSecond : stays[index + 1]? = some second)
    (isEntry : entries[index]? = some entry) (isNext : entries[index + 1]? = some next) :
    next.2 - entry.2 = second.arrive - first.leave := by
  induction charged generalizing index with
  | last => simp at isSecond
  | hop charged elapsed inductionHypothesis =>
      cases index with
      | zero =>
          simp only [List.getElem?_cons_zero, Option.some.injEq, Nat.zero_add,
            List.getElem?_cons_succ] at isFirst isSecond isEntry isNext
          rw [← isFirst, ← isSecond, ← isEntry, ← isNext]
          exact elapsed
      | succ index =>
          simp only [List.getElem?_cons_succ] at isFirst isSecond isEntry isNext
          exact inductionHypothesis isFirst (by simpa using isSecond) isEntry
            (by simpa using isNext)

/-- A visit to a new node charges the hop just made. -/
theorem Charged.extend_fresh {total later : Time} {stays : List (Stay Node Time)}
    {entries : List (Node × Time)} (charged : Charged total stays entries)
    {stop : Node × Time} (fresh : stop.1 ∉ entries.map Prod.fst)
    (elapsed : ∀ stay ∈ stays.getLast?, later - total = stop.2 - stay.leave) :
    Charged later (extend stays stop) (entries ++ [(stop.1, later)]) := by
  induction charged with
  | last stay =>
      have different : stay.node ≠ stop.1 := by simpa [eq_comm] using fresh
      have extended : extend [stay] stop = [stay, ⟨stop.1, stop.2, stop.2⟩] := by
        simp [extend, different]
      rw [extended]
      exact .hop (.last later ⟨stop.1, stop.2, stop.2⟩) (elapsed stay (by simp))
  | @hop trip stay next stays entry entries charged difference inductionHypothesis =>
      simp only [List.map_cons, List.mem_cons, not_or] at fresh
      have extended := inductionHypothesis
        (by simpa using fresh.2) (by simpa using elapsed)
      have different : stay.node ≠ stop.1 := Ne.symm fresh.1
      rw [extend, if_neg different]
      cases shape : extend (next :: stays) stop with
      | nil => rw [shape] at extended; cases extended
      | cons second rest =>
          rw [shape] at extended
          refine .hop extended ?_
          have kept : second.arrive = next.arrive := by
            rw [extend] at shape
            split at shape <;> (cases shape; rfl)
          rw [kept]
          exact difference

/-- A revisit keeps the entries up to the revisited node: the time spent in the
loop is charged to no surviving hop. -/
theorem Charged.extend_revisit {total : Time} {stays : List (Stay Node Time)}
    {entries : List (Node × Time)} (charged : Charged total stays entries)
    {before after : List (Node × Time)} {node : Node} {trip : Time}
    (split : entries = before ++ (node, trip) :: after)
    (fresh : node ∉ before.map Prod.fst) (time : Time) :
    Charged trip (extend stays (node, time)) (before ++ [(node, trip)]) := by
  induction charged generalizing before with
  | last stay =>
      cases before with
      | nil =>
          simp only [List.nil_append, List.cons.injEq, Prod.mk.injEq] at split
          rcases split with ⟨⟨same, rfl⟩, rfl⟩
          subst same
          simpa [extend] using Charged.last total { stay with leave := time }
      | cons head before => simp at split
  | @hop initial stay next stays entry entries charged difference inductionHypothesis =>
      cases before with
      | nil =>
          simp only [List.nil_append, List.cons.injEq, Prod.mk.injEq] at split
          rcases split with ⟨⟨same, rfl⟩, rfl⟩
          subst same
          simpa [extend] using Charged.last initial { stay with leave := time }
      | cons head before =>
          simp only [List.cons_append, List.cons.injEq] at split
          rcases split with ⟨rfl, split⟩
          simp only [List.map_cons, List.mem_cons, not_or] at fresh
          have extended := inductionHypothesis split fresh.2
          rw [extend, if_neg (Ne.symm fresh.1)]
          cases shape : extend (next :: stays) (node, time) with
          | nil => rw [shape] at extended; cases extended
          | cons second rest =>
              rw [shape] at extended
              have kept : second.arrive = next.arrive := by
                rw [extend] at shape
                split at shape <;> (cases shape; rfl)
              cases before with
              | nil =>
                  simp only [List.nil_append, List.cons.injEq] at split
                  refine .hop extended ?_
                  rw [kept, ← difference, split.1]
              | cons first before =>
                  simp only [List.cons_append, List.cons.injEq] at split
                  refine .hop extended ?_
                  rw [kept, ← difference, split.1]

/-! ### Times that do not decrease -/

variable [LinearOrder Time] [IsOrderedAddMonoid Time]

omit [DecidableEq Node] [AddCommGroup Time] [IsOrderedAddMonoid Time] in
/-- A hop of a walk in time takes no negative time. -/
theorem Hop.leave_le_arrive {walk : List (Node × Time)} {first second : Stay Node Time}
    (hop : Hop walk first second) (ordered : (walk.map Prod.snd).IsChain (· ≤ ·)) :
    first.leave ≤ second.arrive := by
  rcases hop with ⟨before, after, split, _⟩
  rw [split, List.map_append, List.map_cons, List.map_cons] at ordered
  exact (List.isChain_append_cons_cons.mp ordered).2.1

omit [DecidableEq Node] in
theorem Charged.isChain_times {total : Time} {stays : List (Stay Node Time)}
    {entries : List (Node × Time)} (charged : Charged total stays entries)
    (forward : stays.IsChain fun first second => first.leave ≤ second.arrive) :
    (entries.map Prod.snd).IsChain (· ≤ ·) := by
  induction charged with
  | last => exact List.isChain_singleton _
  | @hop trip stay next stays entry entries _ elapsed inductionHypothesis =>
      rw [List.isChain_cons_cons] at forward
      have later := inductionHypothesis forward.2
      rw [List.map_cons] at later ⊢
      refine List.isChain_cons_cons.mpr ⟨?_, later⟩
      rw [← sub_nonneg, elapsed, sub_nonneg]
      exact forward.1

end Charged

end LoopErasure
