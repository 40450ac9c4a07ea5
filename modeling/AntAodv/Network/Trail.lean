import AntAodv.Library.Smoothing
import AntAodv.Network.Distribution

/-!
# The pheromone trail

What a row says about the ants that came back: the value of a neighbour is the
exponentially smoothed share of the updates that rewarded it.
-/

namespace AntAodv

variable {K : Type}

/-- The neighbours that operations reward in the row of `dest`, in order. -/
def rewards (dest : NsAddr) (ops : List (Op K)) : List NsAddr :=
  ops.filterMap fun
    | .update other next => if other = dest then some next else none
    | _ => none

theorem rewards_append (dest : NsAddr) (early late : List (Op K)) :
    rewards dest (early ++ late) = rewards dest early ++ rewards dest late :=
  List.filterMap_append

namespace Rtable

variable [Field K]

/-- What an update towards `winner` adds to a neighbour. -/
def deposit (neighbor winner : NsAddr) : K := if neighbor = winner then 1 else 0

theorem updateRow_smooth (r : K) (next : NsAddr) (row : PheromoneMatrix K) :
    updateRow r next row = row.map fun entry =>
      { entry with phvalue := smooth r entry.phvalue (deposit entry.neighbor next) } := by
  apply List.map_congr_left
  intro entry _
  by_cases wins : entry.neighbor = next
  · simp [wins, deposit, smooth]
  · have kept : (1 - r) * entry.phvalue = smooth r entry.phvalue 0 := by
      rw [smooth_eq, mul_zero, add_zero]
    simp [wins, deposit, kept]

/-- Every entry is smoothed on its own. -/
theorem updateRows_eq (r : K) (row : PheromoneMatrix K) (winners : List NsAddr) :
    updateRows r row winners = row.map fun entry =>
      { entry with phvalue := smoothAll r entry.phvalue (winners.map (deposit entry.neighbor)) } := by
  induction winners using List.reverseRecOn with
  | nil => simp [updateRows, smoothAll]
  | append_singleton winners next inductionHypothesis =>
      rw [updateRows, List.foldl_append, List.foldl_cons, List.foldl_nil]
      rw [updateRows] at inductionHypothesis
      rw [inductionHypothesis, updateRow_smooth, List.map_map]
      simp [Function.comp_def]

/-- Updates of several destinations towards one neighbour. -/
theorem foldl_update_rewards (r : K) (next dest : NsAddr) (dests : List NsAddr) (rt : Rtable K) :
    dests.foldl (fun rt dest => update r rt dest next) rt dest =
      (rt dest).map fun row =>
        updateRows r row (rewards dest (dests.map (Op.update (K := K) · next))) := by
  induction dests generalizing rt with
  | nil => simp [rewards, updateRows]
  | cons first dests inductionHypothesis =>
      rw [List.foldl_cons, inductionHypothesis, update_apply]
      by_cases same : dest = first
      · subst same
        simp [rewards, updateRows, Function.comp_def]
      · simp [rewards, same, Ne.symm same]

end Rtable

variable [Field K] [LinearOrder K]

/-- The neighbours that an event rewards in the row of `node` for `dest`. -/
def Net.rewardsBy (sim : Sim) (node dest : NsAddr) (net : Net K) (event : Event K) : List NsAddr :=
  if event.caller = some node then rewards dest (net.ops sim event) else []

/-- The neighbours rewarded in a run in the row of `node` for `dest`, in order. -/
def winners (sim : Sim) (node dest : NsAddr) (trace : List (Net K × Event K)) : List NsAddr :=
  trace.flatMap fun entry => entry.1.rewardsBy sim node dest entry.2

variable {sim : Sim} {medium : Medium K} {net net' : Net K} {event : Event K}
  {trace : List (Net K × Event K)} {node dest : NsAddr} {r : K}

theorem winners_append (early late : List (Net K × Event K)) :
    winners sim node dest (early ++ late) =
      winners sim node dest early ++ winners sim node dest late :=
  List.flatMap_append

/-- Where there are rows at all, the shared factor is `r`. -/
def Net.Rated (r : K) (net : Net K) : Prop :=
  ∀ node dest row, (net.agent node).rtable dest = some row → net.globals.r = r

theorem Net.Stepped.rate (stepped : net.Stepped sim event net')
    (other : ∀ addr, event ≠ .start addr) :
    net'.globals.r = net.globals.r := by
  cases stepped with
  | tick | stop | lose => rfl
  | start addr => exact absurd rfl (other addr)
  | timer _ _ emitted => cases emitted <;> rfl
  | deliver _ _ _ received => cases received <;> rfl

theorem Net.Rated.step {params : NsAddr → Params K} (same : ∀ node, (params node).rFactor = r)
    (rated : net.Rated r) (configured : net.Configured params)
    (stepped : net.Stepped sim event net') : net'.Rated r := by
  by_cases start : ∃ addr, event = .start addr
  · obtain ⟨addr, rfl⟩ := start
    cases stepped with
    | start =>
        intro _ _ _ _
        exact ((configured addr).1).trans (same addr)
  · rw [not_exists] at start
    intro node dest row known
    rw [stepped.rate start]
    have before : ((net.agent node).rtable dest).isSome = true := by
      rw [← ((stepped.unstarted start).2 node).1 dest, known]
      rfl
    obtain ⟨old, wasKnown⟩ := Option.isSome_iff_exists.mp before
    exact rated node dest old wasKnown

/-- A call of `update_table` updates a row for each reward. -/
theorem Received.rtable {c c' : Call K} {p : Packet K} (received : Received sim c p c')
    (quiet : c.log = []) (dest : NsAddr) :
    c'.agent.rtable dest = (c.agent.rtable dest).map fun row =>
      Rtable.updateRows c.globals.r row (rewards dest c'.log) := by
  have unchanged : (c.agent.rtable dest).map (fun row =>
      Rtable.updateRows c.globals.r row []) = c.agent.rtable dest := by
    simp [Rtable.updateRows]
  cases received with
  | turned | ended | forwarded =>
      rw [quiet]
      exact unchanged.symm
  | home | returned =>
      have updated := fun next dests =>
        Rtable.foldl_update_rewards c.globals.r next dest dests c.agent.rtable
      simp only [Call.tableUpdated, quiet, rewards_append, List.nil_append]
      rw [updated]
      simp [rewards]

/-- Only an ant that an agent receives makes it reward a neighbour. -/
theorem Net.Stepped.unrewarded (stepped : net.Stepped sim event net')
    (other : ∀ p, event.delivered = some p → p.ip.daddr ≠ node) :
    net.rewardsBy sim node dest event = [] := by
  cases stepped with
  | tick | start | stop | lose => rfl
  | timer _ ops emitted =>
      rw [Net.rewardsBy, ops]
      cases emitted <;> simp [rewards, Net.call]
  | deliver => exact if_neg fun same => other _ rfl (Option.some.inj same)

/-- A step other than a start updates a row for each reward. -/
theorem Net.Stepped.rtable (stepped : net.Stepped sim event net') (start : event ≠ .start node) :
    (net'.agent node).rtable dest = ((net.agent node).rtable dest).map fun row =>
      Rtable.updateRows net.globals.r row (net.rewardsBy sim node dest event) := by
  have unrewarded : (∀ p, event.delivered = some p → p.ip.daddr ≠ node) →
      (net'.agent node).rtable dest = (net.agent node).rtable dest →
      (net'.agent node).rtable dest = ((net.agent node).rtable dest).map fun row =>
        Rtable.updateRows net.globals.r row (net.rewardsBy sim node dest event) := by
    intro other same
    simp [stepped.unrewarded other, same, Rtable.updateRows]
  cases stepped with
  | tick | lose => exact unrewarded (fun _ delivered => by cases delivered) rfl
  | start addr =>
      have other : node ≠ addr := fun same => start (by rw [same])
      exact unrewarded (fun _ delivered => by cases delivered) (by simp [Net.finish, other])
  | stop addr =>
      refine unrewarded (fun _ delivered => by cases delivered) ?_
      by_cases own : node = addr
      · subst own
        simp [Net.finish, Call.stop, Net.call]
      · simp [Net.finish, own]
  | @timer addr raws draws junk c _ ops emitted =>
      refine unrewarded (fun _ delivered => by cases delivered) ?_
      by_cases own : node = addr
      · subst own
        cases emitted <;> simp [Net.finish, Net.call]
      · simp [Net.finish, own]
  | @deliver index sent ttl draws junk c _ _ ops received =>
      by_cases own : node = sent.ip.daddr
      · subst own
        have here : net.rewardsBy sim sent.ip.daddr dest
            (.deliver index (sent.withTtl ttl) draws junk) = rewards dest c.log := by
          rw [Net.rewardsBy, ops]
          exact if_pos rfl
        have own : ((net.remove index).finish sent.ip.daddr c).agent sent.ip.daddr = c.agent := by
          simp [Net.finish]
        rw [here, own]
        exact received.rtable rfl dest
      · refine unrewarded ?_ (by simp [Net.finish, own, Net.remove])
        rintro _ ⟨⟩
        exact Ne.symm own

/-- What is known at the end of a run from its start on. -/
structure Net.Tracked (sim : Sim) (params : NsAddr → Params K) (r : K) (net : Net K) : Prop where
  wellFormed : net.WellFormed sim
  configured : net.Configured params
  rated : net.Rated r

theorem Net.Tracked.step {params : NsAddr → Params K} (same : ∀ node, (params node).rFactor = r)
    (tracked : net.Tracked sim params r) (stepped : net.Stepped sim event net') :
    net'.Tracked sim params r :=
  ⟨tracked.wellFormed.step stepped, tracked.configured.step stepped,
    tracked.rated.step same tracked.configured stepped⟩

theorem Net.Tracked.run {params : NsAddr → Params K} (same : ∀ node, (params node).rFactor = r)
    (faithful : medium.Faithful) (tracked : net.Tracked sim params r)
    (run : (network sim medium params).Run net trace net') : net'.Tracked sim params r := by
  refine run.invariant (fun first event last holds step => ?_) tracked
  exact holds.step same (holds.wellFormed.stepped step.1 (faithful.unchanged step.1) step.2)

omit [LinearOrder K] in
theorem Net.Tracked.initial (params : NsAddr → Params K) :
    (Net.initial params).Tracked sim params r :=
  ⟨.initial params, fun _ => ⟨rfl, rfl⟩, fun _ _ _ known => by cases known⟩

/-- Between two starts of an agent its rows are updated for each reward. -/
theorem Net.Tracked.rows_of_run {params : NsAddr → Params K}
    (same : ∀ node, (params node).rFactor = r) (faithful : medium.Faithful)
    (tracked : net.Tracked sim params r) (run : (network sim medium params).Run net trace net')
    (noStart : ∀ entry ∈ trace, entry.2 ≠ .start node) (dest : NsAddr) :
    (net'.agent node).rtable dest = ((net.agent node).rtable dest).map fun row =>
      Rtable.updateRows r row (winners sim node dest trace) := by
  induction run with
  | refl => simp [winners, Rtable.updateRows]
  | @snoc middle last trace event early step inductionHypothesis =>
      have before := inductionHypothesis fun entry earlier =>
        noStart entry (List.mem_append_left _ earlier)
      have here := noStart _ (List.mem_append_right _ (List.mem_singleton_self _))
      have tracked' := tracked.run same faithful early
      have stepped := tracked'.wellFormed.stepped step.1 (faithful.unchanged step.1) step.2
      have latest : winners sim node dest [(middle, event)] =
          middle.rewardsBy sim node dest event := by
        simp [winners]
      rw [stepped.rtable here, winners_append, latest]
      cases known : (middle.agent node).rtable dest with
      | none =>
          rw [known] at before
          rw [Option.map_none, Option.map_eq_none_iff.mp before.symm]
          rfl
      | some row =>
          rw [known] at before
          obtain ⟨old, wasKnown, rfl⟩ := Option.map_eq_some_iff.mp before.symm
          rw [tracked'.rated node dest _ known, wasKnown, Option.map_some, Option.map_some,
            Rtable.updateRows_append]

/-- When all agents have the same factor, the entries of a row are, between two starts of
its agent, exponentially smoothed: each update adds one for the neighbour it rewards and
zero for the others. -/
theorem pheromone_smooths {params : NsAddr → Params K} (same : ∀ node, (params node).rFactor = r)
    (faithful : medium.Faithful) {middle last : Net K} {before after : List (Net K × Event K)}
    (early : (network sim medium params).Run (Net.initial params) before middle)
    (late : (network sim medium params).Run middle after last)
    (noStart : ∀ entry ∈ after, entry.2 ≠ .start node) {row : PheromoneMatrix K}
    (known : (middle.agent node).rtable dest = some row) :
    (last.agent node).rtable dest = some (row.map fun entry => { entry with
      phvalue := smoothAll r entry.phvalue
        ((winners sim node dest after).map (Rtable.deposit entry.neighbor)) }) := by
  have tracked := (Net.Tracked.initial params).run same faithful early
  rw [tracked.rows_of_run same faithful late noStart, known, Option.map_some, Rtable.updateRows_eq]

/-- Three nodes in a line: the one in the middle sends an ant to node 0, which turns it
round. -/
def roundTrip : Option (List (Net ℚ × Event ℚ) × Net ℚ) :=
  (Net.initial fun _ => ⟨1 / 2, 3⟩).follow (Sim.line 3 maxNumNodes) (.perfect ℚ)
    [fun _ => some (.start 0), fun _ => some (.start 1), fun _ => some (.timer 1 [0] [0] 0),
      deliverAs 0 id [] 0]

/-- When the ant comes back, the middle prefers node 0. -/
theorem pheromone_smooths_roundTrip :
    ∃ before middle after last, roundTrip = some (before, middle) ∧
      middle.follow (Sim.line 3 maxNumNodes) (.perfect ℚ) [deliverAs 0 id [] 0] =
        some (after, last) ∧ winners (Sim.line 3 maxNumNodes) 1 0 after = [0] ∧
      (last.agent 1).rtable 0 = some [⟨0, smoothAll (1 / 2) (1 / 2) [1]⟩,
        ⟨2, smoothAll (1 / 2) (1 / 2) [0]⟩] := by
  have observed : (roundTrip.bind fun (_, middle) =>
      (middle.follow (Sim.line 3 maxNumNodes) (.perfect ℚ) [deliverAs 0 id [] 0]).map
        fun (after, _) => ((middle.agent 1).rtable 0, winners (Sim.line 3 maxNumNodes) 1 0 after,
          after.map fun entry => entry.2.caller)) =
      some (some [⟨0, 1 / 2⟩, ⟨2, 1 / 2⟩], [0], [some 1]) := by
    decide +kernel
  obtain ⟨⟨before, middle⟩, followed, rest⟩ := Option.bind_eq_some_iff.mp observed
  obtain ⟨⟨after, last⟩, followed', shape⟩ := Option.map_eq_some_iff.mp rest
  simp only [Prod.mk.injEq] at shape
  obtain ⟨known, rewarded, callers⟩ := shape
  have noStart : ∀ entry ∈ after, entry.2 ≠ .start (1 : NsAddr) := by
    rintro ⟨first, event⟩ occurred rfl
    have called : (none : Option NsAddr) ∈ after.map fun entry => entry.2.caller :=
      List.mem_map.mpr ⟨_, occurred, rfl⟩
    rw [callers] at called
    simp at called
  have smoothed := pheromone_smooths (r := 1 / 2) (fun _ => rfl) (Medium.perfect_faithful ℚ)
    (Net.run_of_follow (fun _ => ⟨1 / 2, 3⟩) followed) (Net.run_of_follow _ followed') noStart known
  rw [rewarded] at smoothed
  exact ⟨before, middle, after, last, followed, followed', rewarded, smoothed⟩

/-! ### Orderly runs -/

omit [Field K] [LinearOrder K] in
theorem Orderly.delivered_started (orderly : Orderly trace) (occurred : (net, event) ∈ trace)
    {p : Packet K} (delivered : event.delivered = some p) : Started trace p.ip.daddr := by
  induction orderly with
  | nil => cases occurred
  | snoc _ _ first inductionHypothesis =>
      rcases List.mem_append.mp occurred with earlier | now
      · exact (started_append _).mpr (.inl (inductionHypothesis earlier))
      · cases List.mem_singleton.mp now
        exact (started_append _).mpr (.inl (first p delivered))

omit [Field K] [LinearOrder K] in
/-- An orderly run starts an agent once, before any ant reaches it. -/
theorem Orderly.of_start {before after : List (Net K × Event K)}
    (orderly : Orderly (before ++ (net, .start node) :: after)) :
    ¬ Started before node ∧
      (∀ entry ∈ before, ∀ p, entry.2.delivered = some p → p.ip.daddr ≠ node) ∧
      ∀ entry ∈ after, entry.2 ≠ .start node := by
  induction after using List.reverseRecOn with
  | nil =>
      obtain ⟨earlier, once, _⟩ := orderly.of_snoc
      refine ⟨once node rfl, ?_, by simp⟩
      rintro entry occurred p delivered rfl
      exact once _ rfl (earlier.delivered_started occurred delivered)
  | append_singleton after entry inductionHypothesis =>
      obtain ⟨latest, event⟩ := entry
      rw [← List.cons_append, ← List.append_assoc] at orderly
      obtain ⟨earlier, once, _⟩ := orderly.of_snoc
      obtain ⟨unstarted, unreached, noStart⟩ := inductionHypothesis earlier
      refine ⟨unstarted, unreached, ?_⟩
      intro entry occurred
      rcases List.mem_append.mp occurred with before | now
      · exact noStart entry before
      · cases List.mem_singleton.mp now
        rintro rfl
        exact once node rfl ⟨net, by simp⟩

theorem winners_unreached {params : NsAddr → Params K} (same : ∀ node, (params node).rFactor = r)
    (faithful : medium.Faithful) (tracked : net.Tracked sim params r)
    (run : (network sim medium params).Run net trace net')
    (unreached : ∀ entry ∈ trace, ∀ p, entry.2.delivered = some p → p.ip.daddr ≠ node) :
    winners sim node dest trace = [] := by
  refine List.flatMap_eq_nil_iff.mpr ?_
  rintro ⟨first, event⟩ occurred
  obtain ⟨before, next, early, step⟩ := run.step_of_mem occurred
  have wellFormed := (tracked.run same faithful early).wellFormed
  exact (wellFormed.stepped step.1 (faithful.unchanged step.1) step.2).unrewarded
    (unreached _ occurred)

omit [LinearOrder K] in
/-- A start makes fresh rows where there are none. -/
theorem Net.WellFormed.row_of_start (wellFormed : net.WellFormed sim)
    (empty : (net.agent node).rtable dest = none) {row : PheromoneMatrix K}
    (added : ((net.finish node ((net.call node none [] [] 0).start sim)).agent node).rtable dest =
      some row) : row = Rtable.freshRow (sim.neighborList node) := by
  have start : ((net.finish node ((net.call node none [] [] 0).start sim)).agent node).rtable dest =
      ((net.call node none [] [] 0).initializeRtable sim).agent.rtable dest := by
    simp [Net.finish, Call.start]
  have own : (net.call node none [] [] 0).agent = net.agent node := rfl
  rw [start, Call.initializeRtable_rtable, own, wellFormed.addr node, empty] at added
  split at added
  · cases added
    simp
  · cases added

/-- In an orderly run the rows of an agent are made by its start and by all updates. -/
theorem Orderly.row_eq {params : NsAddr → Params K} (same : ∀ node, (params node).rFactor = r)
    (faithful : medium.Faithful)
    (run : (network sim medium params).Run (Net.initial params) trace net)
    (orderly : Orderly trace) {row : PheromoneMatrix K}
    (known : (net.agent node).rtable dest = some row) :
    row = Rtable.updateRows r (Rtable.freshRow (sim.neighborList node))
      (winners sim node dest trace) := by
  have tracked : (Net.initial params).Tracked sim params r := .initial params
  by_cases started : Started trace node
  · obtain ⟨first, occurred⟩ := started
    obtain ⟨before, after, rfl⟩ := List.append_of_mem occurred
    obtain ⟨unstarted, unreached, noStart⟩ := orderly.of_start
    have untouched : ∀ entry ∈ before, entry.2 ≠ .start node := by
      rintro ⟨other, event⟩ earlier rfl
      exact unstarted ⟨other, earlier⟩
    rw [← List.singleton_append, ← List.append_assoc] at run
    obtain ⟨middle, earlyRun, lateRun⟩ := run.split
    obtain ⟨toStart, step⟩ := earlyRun.of_snoc
    have ready := tracked.run same faithful toStart
    have empty : (first.agent node).rtable dest = none := by
      rw [tracked.rows_of_run same faithful toStart untouched]
      rfl
    have quiet : winners sim node dest [(first, .start node)] = [] := rfl
    have all : winners sim node dest (before ++ (first, .start node) :: after) =
        winners sim node dest after := by
      rw [← List.singleton_append, winners_append, winners_append, quiet,
        winners_unreached same faithful tracked toStart unreached, List.nil_append,
        List.nil_append]
    have begun := ready.step same (ready.wellFormed.stepped step.1 trivial step.2)
    have later := begun.rows_of_run same faithful lateRun noStart dest
    rw [known] at later
    obtain ⟨fresh, added, updated⟩ := Option.map_eq_some_iff.mp later.symm
    cases step.2
    rw [all, ← updated, ready.wellFormed.row_of_start empty added]
  · have untouched : ∀ entry ∈ trace, entry.2 ≠ .start node := by
      rintro ⟨first, event⟩ occurred rfl
      exact started ⟨first, occurred⟩
    rw [tracked.rows_of_run same faithful run untouched] at known
    cases known

/-! ### What the trail says about the latest ants -/

section Bounds

variable [IsStrictOrderedRing K] {first : K} {neighbor : NsAddr}

omit [LinearOrder K] [IsStrictOrderedRing K] in
theorem smoothAll_rewarded (early : List NsAddr) (count : ℕ) :
    smoothAll r first ((early ++ List.replicate count neighbor).map (Rtable.deposit neighbor)) =
      1 + (1 - r) ^ count * (smoothAll r first (early.map (Rtable.deposit neighbor)) - 1) := by
  rw [List.map_append, smoothAll_append, List.map_replicate, Rtable.deposit, if_pos rfl,
    smoothAll_replicate]

omit [LinearOrder K] [IsStrictOrderedRing K] in
theorem smoothAll_unrewarded (early late : List NsAddr) (others : neighbor ∉ late) :
    smoothAll r first ((early ++ late).map (Rtable.deposit neighbor)) =
      (1 - r) ^ late.length * smoothAll r first (early.map (Rtable.deposit neighbor)) := by
  have nothing : late.map (Rtable.deposit (K := K) neighbor) = List.replicate late.length 0 := by
    refine List.eq_replicate_iff.mpr ⟨by simp, fun value membership => ?_⟩
    obtain ⟨winner, rewarded, rfl⟩ := List.mem_map.mp membership
    refine if_neg ?_
    rintro rfl
    exact others rewarded
  rw [List.map_append, smoothAll_append, nothing, smoothAll_replicate, zero_add, sub_zero]

theorem deposit_mem_unit (neighbor winner : NsAddr) :
    0 ≤ Rtable.deposit (K := K) neighbor winner ∧ Rtable.deposit (K := K) neighbor winner ≤ 1 := by
  unfold Rtable.deposit
  split <;> simp

/-- In an orderly run the value of a neighbour is the smoothed share of the updates that
rewarded it, counted from an equal share for all neighbours.  It never dies out and never
takes all; after enough updates in a row for one neighbour it takes almost all. -/
theorem pheromone_of_orderly {params : NsAddr → Params K}
    (same : ∀ node, (params node).rFactor = r) (rate : 0 ≤ r ∧ r ≤ 1) (faithful : medium.Faithful)
    (run : (network sim medium params).Run (Net.initial params) trace net)
    (orderly : Orderly trace) {row : PheromoneMatrix K}
    (known : (net.agent node).rtable dest = some row) {entry : Pheromone K} (inRow : entry ∈ row) :
    let share : K := 1 / (sim.neighborList node).length
    let history := winners sim node dest trace
    entry.phvalue = smoothAll r share (history.map (Rtable.deposit entry.neighbor)) ∧
      (1 - r) ^ history.length * share ≤ entry.phvalue ∧
      entry.phvalue ≤ 1 - (1 - r) ^ history.length * (1 - share) ∧
      (∀ early count, history = early ++ List.replicate count entry.neighbor →
        1 - (1 - r) ^ count ≤ entry.phvalue) ∧
      ∀ early late, history = early ++ late → entry.neighbor ∉ late →
        entry.phvalue ≤ (1 - r) ^ late.length := by
  intro share history
  have whole := orderly.row_eq same faithful run known
  rw [Rtable.updateRows_eq] at whole
  rw [whole] at inRow
  obtain ⟨old, inFresh, rfl⟩ := List.mem_map.mp inRow
  obtain ⟨neighb, isNeighbor, rfl⟩ := List.mem_map.mp inFresh
  have share_unit : 0 ≤ share ∧ share ≤ 1 := by
    have bounds := Rtable.phvalue_freshRow inFresh
    exact ⟨bounds.1.le, bounds.2⟩
  have deposits : ∀ winners : List NsAddr, ∀ value ∈ winners.map (Rtable.deposit (K := K) neighb),
      0 ≤ value ∧ value ≤ 1 := by
    intro winners value membership
    obtain ⟨winner, _, rfl⟩ := List.mem_map.mp membership
    exact deposit_mem_unit neighb winner
  have unit : ∀ winners : List NsAddr,
      0 ≤ smoothAll r share (winners.map (Rtable.deposit neighb)) ∧
        smoothAll r share (winners.map (Rtable.deposit neighb)) ≤ 1 := by
    intro winners
    constructor
    · exact le_smoothAll rate.1 rate.2 (List.forall_mem_cons.mpr
        ⟨share_unit.1, fun value membership => (deposits winners value membership).1⟩)
    · exact smoothAll_le rate.1 rate.2 (List.forall_mem_cons.mpr
        ⟨share_unit.2, fun value membership => (deposits winners value membership).2⟩)
  have keeps : ∀ count : ℕ, 0 ≤ (1 - r) ^ count := fun count =>
    pow_nonneg (sub_nonneg.mpr rate.2) count
  refine ⟨rfl, ?_, ?_, ?_, ?_⟩
  · have least : _ * share ≤ _ := remainder_le_smoothAll rate.1 rate.2
      fun value membership => (deposits history value membership).1
    rw [List.length_map] at least
    exact least
  · have most : _ ≤ 1 - _ * (1 - share) := smoothAll_le_of_remainder rate.1 rate.2
      fun value membership => (deposits history value membership).2
    rw [List.length_map] at most
    exact most
  · intro early count split
    change _ ≤ smoothAll r share (history.map _)
    rw [split, smoothAll_rewarded]
    have kept := mul_nonneg (keeps count) (unit early).1
    linarith
  · intro early late split others
    change smoothAll r share (history.map _) ≤ _
    rw [split, smoothAll_unrewarded early late others]
    exact mul_le_of_le_one_right (keeps _) (unit early).2

end Bounds

/-- An ant has come back to the middle of three nodes from its left. -/
theorem pheromone_of_orderly_started :
    let sim := Sim.line 3 maxNumNodes
    let params : NsAddr → Params ℚ := fun _ => ⟨1 / 2, 3⟩
    ∃ trace net row, (Net.initial params).follow sim (.perfect ℚ) thereAndBack =
        some (trace, net) ∧ winners sim 1 0 trace = [0] ∧ (net.agent 1).rtable 0 = some row ∧
      ∀ entry ∈ row, 1 / 4 ≤ entry.phvalue ∧ entry.phvalue ≤ 3 / 4 ∧
        (entry.neighbor = 0 → 1 / 2 ≤ entry.phvalue) ∧
        (entry.neighbor ≠ 0 → entry.phvalue ≤ 1 / 2) := by
  intro sim params
  have observed : ((Net.initial params).follow sim (.perfect ℚ) thereAndBack).map (fun outcome =>
      (decide (Orderly outcome.1), winners sim 1 0 outcome.1,
        ((outcome.2.agent 1).rtable 0).isSome)) = some (true, [0], true) := by
    decide +kernel
  obtain ⟨⟨trace, net⟩, followed, facts⟩ := Option.map_eq_some_iff.mp observed
  simp only [Prod.mk.injEq, decide_eq_true_eq] at facts
  obtain ⟨orderly, rewarded, known⟩ := facts
  obtain ⟨row, known⟩ := Option.isSome_iff_exists.mp known
  refine ⟨trace, net, row, followed, rewarded, known, fun entry inRow => ?_⟩
  obtain ⟨_, least, most, streak, silence⟩ := pheromone_of_orderly (r := 1 / 2) (fun _ => rfl)
    (by norm_num) (Medium.perfect_faithful ℚ) (Net.run_of_follow params followed) orderly known
    inRow
  have share : (1 / ((sim.neighborList 1).length : ℚ)) = 1 / 2 := by decide +kernel
  rw [rewarded, share] at least most
  rw [rewarded] at streak silence
  norm_num at least most
  refine ⟨least, most, fun left => ?_, fun right => ?_⟩
  · have trusted := streak [] 1 (by rw [left]; rfl)
    norm_num at trusted
    exact trusted
  · have forgotten := silence [] [0] rfl (by simpa using right)
    norm_num at forgotten
    exact forgotten

end AntAodv
