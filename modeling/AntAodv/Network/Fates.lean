import AntAodv.Network.Identity
import Mathlib.Data.List.Range

/-!
# What becomes of the ants

Every ant made in a run is either still in flight or has ended once: lost by the medium,
freed where it found no next hop, or freed at home.  No agent drops an ant.
-/

namespace AntAodv

variable {K : Type}

def Op.freed? : Op K → Option (Packet K)
  | .freed p => some p
  | _ => none

def Op.dropped? : Op K → Option (Packet K)
  | .dropped p => some p
  | _ => none

/-- The packet that an event loses. -/
def Net.lostBy (net : Net K) : Event K → List (Packet K)
  | .lose index => net.flight[index]?.toList
  | .tick _ => []
  | .start _ => []
  | .stop _ => []
  | .timer _ _ _ _ => []
  | .deliver _ _ _ _ => []

variable [Arithmetic K] [LinearOrder K]

/-- The packets that end in a run. -/
def ended (sim : Sim) (trace : List (Net K × Event K)) : List (Packet K) :=
  trace.flatMap fun entry => entry.1.lostBy entry.2 ++ (entry.1.ops sim entry.2).filterMap Op.freed?

/-- What `calc_next` gives the agent of a node for a destination and a parent. -/
def Net.nextHop (sim : Sim) (net : Net K) (node dest parent : NsAddr) (draws : List K)
    (junk : NsAddr) : Option NsAddr :=
  (Rtable.calcNext sim net.globals.n (net.agent node).rtable node dest parent draws).value junk

/-- Where an agent frees an ant. -/
inductive FreedAs (sim : Sim) (net : Net K) (p : Packet K) : Event K → Prop where
  /-- The agent that has just made it finds no next hop. -/
  | unsent {addr : NsAddr} {raws : List ℕ} {draws : List K} {junk : NsAddr} :
      p.cmn.uid = net.uidcnt →
      p.ant.pktSrc = addr →
      p.ant.pktMemSize = 1 →
      net.nextHop sim addr p.ant.pktDst addr draws junk = some addr →
      FreedAs sim net p (.timer addr raws draws junk)
  /-- A forward ant has come to a node, not its destination, without a next hop. -/
  | stranded {index : ℕ} {q : Packet K} {draws : List K} {junk next : NsAddr} :
      ForwardAnt sim q →
      q.ip.daddr ≠ q.ant.pktDst →
      p.cmn.uid = q.cmn.uid →
      net.nextHop sim q.ip.daddr q.ant.pktDst q.ip.saddr draws junk = some next →
      next = q.ip.daddr ∨ next = q.ip.saddr →
      FreedAs sim net p (.deliver index q draws junk)
  /-- A backward ant has come to the agent that made it. -/
  | home {index : ℕ} {draws : List K} {junk : NsAddr} :
      BackwardAnt sim p →
      p.ip.daddr = p.ant.pktDst →
      FreedAs sim net p (.deliver index p draws junk)

variable {sim : Sim} {medium : Medium K} {net net' : Net K} {event : Event K}
  {trace : List (Net K × Event K)}

omit [LinearOrder K] in
/-- An update of the table gives no packet away. -/
theorem filterMap_tableUpdated {give : Op K → Option (Packet K)}
    (quiet : ∀ dest next, give (.update dest next) = none) (silent : give .updateTable = none)
    (c : Call K) (next : NsAddr) (dests : List NsAddr) :
    (c.tableUpdated sim next dests).log.filterMap give = c.log.filterMap give := by
  simp [Call.tableUpdated, List.filterMap_map, silent, quiet]

/-- A received ant is handed on or freed, as the same packet, and not dropped. -/
theorem Received.disposal {c c' : Call K} {p : Packet K} (received : Received sim c p c')
    (quiet : c.log = []) :
    c'.log.filterMap Op.dropped? = [] ∧
      (AntAodv.handed c'.log ++ c'.log.filterMap Op.freed?).map (fun q => q.cmn.uid) =
        [p.cmn.uid] := by
  have dropped := @filterMap_tableUpdated K _ sim Op.dropped? (fun _ _ => rfl) rfl c
  have freed := @filterMap_tableUpdated K _ sim Op.freed? (fun _ _ => rfl) rfl c
  cases received with
  | turned | ended | forwarded =>
      rw [quiet]
      exact ⟨rfl, rfl⟩
  | home | returned =>
      rw [List.filterMap_append, handed_append, List.filterMap_append, dropped, freed,
        handed_tableUpdated, quiet]
      exact ⟨rfl, rfl⟩

/-- A new ant is handed on or freed, with the next identity, and not dropped. -/
theorem Emitted.disposal {c c' : Call K} (emitted : Emitted sim c c') (quiet : c.log = []) :
    c'.log.filterMap Op.dropped? = [] ∧
      (AntAodv.handed c'.log ++ c'.log.filterMap Op.freed?).map (fun q => q.cmn.uid) =
        [c.uidcnt] := by
  cases emitted <;> rw [quiet] <;> exact ⟨rfl, rfl⟩

omit [Arithmetic K] [LinearOrder K] in
theorem perm_remove {index : ℕ} {sent : Packet K} (found : net.flight[index]? = some sent) :
    net.flight.Perm (sent :: (net.remove index).flight) := by
  obtain ⟨inside, rfl⟩ := List.getElem?_eq_some_iff.mp found
  exact (List.getElem_cons_eraseIdx_perm inside).symm

/-- A step adds the packets it allocates to those in flight and takes away those it ends. -/
theorem Net.Stepped.balance (stepped : net.Stepped sim event net') :
    ((net'.flight ++ ended sim [(net, event)]).map fun p => p.cmn.uid).Perm
      (net.flight.map (fun p => p.cmn.uid) ++
        List.range' net.uidcnt (net'.uidcnt - net.uidcnt)) := by
  cases stepped with
  | tick time => simp [ended, Net.lostBy, Net.ops, Net.invoke]
  | start addr | stop addr =>
      simp [ended, Net.lostBy, Net.ops, Net.invoke, Net.finish, Call.start, Call.stop,
        Call.initializeRtable, Net.call, handed]
  | lose index =>
      cases found : net.flight[index]? with
      | none =>
          have outside := List.getElem?_eq_none_iff.mp found
          simp [ended, Net.lostBy, Net.ops, Net.invoke, Net.remove, found,
            List.eraseIdx_of_length_le outside]
      | some sent =>
          have order := (perm_remove found).symm
          simp only [ended, Net.lostBy, Net.ops, Net.invoke, found, List.flatMap_singleton,
            Option.toList_some, List.filterMap_nil, List.append_nil]
          simpa [Net.remove] using ((List.perm_append_singleton _ _).trans order).map
            fun p => p.cmn.uid
  | @timer addr raws draws junk c _ ops emitted =>
      have disposal := (emitted.disposal rfl).2
      have one : c.uidcnt - net.uidcnt = 1 := by cases emitted <;> exact Nat.add_sub_cancel_left ..
      simp only [ended, Net.lostBy, ops, List.flatMap_singleton, List.nil_append, Net.finish,
        one, List.append_assoc]
      rw [List.map_append, disposal]
      rfl
  | @deliver index sent ttl draws junk c found _ ops received =>
      have disposal := (received.disposal rfl).2
      have before := (perm_remove found).map fun p => p.cmn.uid
      have count : c.uidcnt = net.uidcnt := by cases received <;> rfl
      simp only [ended, Net.lostBy, ops, List.flatMap_singleton, List.nil_append, Net.finish,
        count, Nat.sub_self, List.range'_zero, List.append_nil, List.append_assoc]
      rw [List.map_append, disposal]
      exact (List.perm_append_singleton _ _).trans before.symm

omit [LinearOrder K] in
theorem freed_mem_tableUpdated {c : Call K} {p : Packet K} {next : NsAddr} {dests : List NsAddr}
    (found : .freed p ∈ (c.tableUpdated sim next dests).log) : .freed p ∈ c.log := by
  have given : p ∈ (c.tableUpdated sim next dests).log.filterMap Op.freed? :=
    List.mem_filterMap.mpr ⟨_, found, rfl⟩
  rw [filterMap_tableUpdated (fun _ _ => rfl) rfl, List.mem_filterMap] at given
  obtain ⟨op, earlier, same⟩ := given
  cases op <;> cases same
  exact earlier

/-- What an agent does with an ant that it does not hand on. -/
theorem Net.Stepped.freedAs (wellFormed : net.WellFormed sim) (stepped : net.Stepped sim event net')
    {p : Packet K} (found : .freed p ∈ net.ops sim event) : FreedAs sim net p event := by
  cases stepped with
  | tick | start | stop | lose => simp [Net.ops, Net.invoke] at found
  | timer _ ops emitted =>
      rw [ops] at found
      cases emitted with
      | freed _ chosen none =>
          simp only [Net.call, List.nil_append, List.mem_cons, reduceCtorEq, List.not_mem_nil,
            or_false, false_or, Op.freed.injEq] at found
          simp only [Net.call, wellFormed.addr] at chosen none
          rw [found]
          subst chosen
          exact .unsent rfl (wellFormed.addr _) rfl none
      | handed => simp [Net.call] at found
  | deliver inFlight _ ops received =>
      rw [ops] at found
      cases received with
      | turned | forwarded => simp [Net.call] at found
      | ended ant underway chosen value none =>
          simp only [Net.call, List.nil_append, List.mem_cons, reduceCtorEq, List.not_mem_nil,
            or_false, false_or, Op.freed.injEq] at found
          rw [found]
          subst chosen
          exact .stranded ant underway rfl value none
      | home ant split =>
          rcases List.mem_append.mp found with earlier | now
          · cases freed_mem_tableUpdated earlier
          · cases List.mem_singleton.mp now
            refine .home ant ?_
            have head := ant.head
            rw [split, List.head?_cons, Option.some.injEq] at head
            exact head
      | returned =>
          rcases List.mem_append.mp found with earlier | now
          · cases freed_mem_tableUpdated earlier
          · simp at now

/-- How many ants are made in a run. -/
def madeCount (trace : List (Net K × Event K)) : ℕ :=
  trace.countP fun entry => entry.2.sender.isSome

theorem Net.Stepped.uidcnt_eq (stepped : net.Stepped sim event net') :
    net'.uidcnt = net.uidcnt + madeCount [(net, event)] := by
  cases stepped with
  | tick | start | stop | lose => rfl
  | timer _ _ emitted => cases emitted <;> rfl
  | deliver _ _ _ received => cases received <;> rfl

theorem Net.Stepped.not_dropped (stepped : net.Stepped sim event net') (p : Packet K) :
    .dropped p ∉ net.ops sim event := by
  intro found
  have given : p ∈ (net.ops sim event).filterMap Op.dropped? :=
    List.mem_filterMap.mpr ⟨_, found, rfl⟩
  cases stepped with
  | tick | start | stop | lose => simp [Net.ops, Net.invoke] at found
  | timer _ ops emitted =>
      rw [ops, (emitted.disposal rfl).1] at given
      cases given
  | deliver _ _ ops received =>
      rw [ops, (received.disposal rfl).1] at given
      cases given

/-- In every run the ants made so far are those in flight and those that have ended, each
once: lost by the medium, freed by an agent that found no next hop, or freed at home.
None is dropped. -/
theorem ants_conserved (faithful : medium.Faithful) {params : NsAddr → Params K}
    (run : (network sim medium params).Run (Net.initial params) trace net) :
    ((net.flight ++ ended sim trace).map fun p => p.cmn.uid).Perm (List.range (madeCount trace)) ∧
      ∀ first event, (first, event) ∈ trace → ∀ p, .dropped p ∉ first.ops sim event ∧
        (.freed p ∈ first.ops sim event → FreedAs sim first p event) := by
  have invariant : net.WellFormed sim ∧ net.uidcnt = madeCount trace ∧
      ((net.flight ++ ended sim trace).map fun p => p.cmn.uid).Perm
        (List.range (madeCount trace)) ∧
      ∀ first event, (first, event) ∈ trace → ∀ p, .dropped p ∉ first.ops sim event ∧
        (.freed p ∈ first.ops sim event → FreedAs sim first p event) := by
    induction run with
    | refl => exact ⟨.initial params, rfl, .refl _, by simp⟩
    | @snoc net last trace event _ step inductionHypothesis =>
        obtain ⟨wellFormed, count, conserved, endings⟩ := inductionHypothesis
        have stepped := wellFormed.stepped step.1 (faithful.unchanged step.1) step.2
        have made : madeCount (trace ++ [(net, event)]) =
            madeCount trace + madeCount [(net, event)] := List.countP_append
        have fresh : last.uidcnt - net.uidcnt = madeCount [(net, event)] := by
          rw [stepped.uidcnt_eq, Nat.add_sub_cancel_left]
        refine ⟨wellFormed.step stepped, by rw [stepped.uidcnt_eq, count, made], ?_, ?_⟩
        · have balance := stepped.balance
          rw [fresh, count] at balance
          have split : ended sim (trace ++ [(net, event)]) =
              ended sim trace ++ ended sim [(net, event)] := List.flatMap_append
          have swap : ∀ before between after : List ℕ,
              (before ++ between ++ after).Perm (before ++ after ++ between) := by
            intro before between after
            rw [List.append_assoc, List.append_assoc]
            exact List.perm_append_comm.append_left before
          rw [List.map_append] at balance conserved
          rw [made, List.range_add, ← List.range'_eq_map_range, split, List.map_append,
            List.map_append, ← List.append_assoc]
          exact (swap _ _ _).trans ((balance.append_right _).trans
            ((swap _ _ _).trans (conserved.append_right _)))
        · intro first latest occurred
          rcases List.mem_append.mp occurred with earlier | now
          · exact endings first latest earlier
          · cases List.mem_singleton.mp now
            exact fun p => ⟨stepped.not_dropped p, stepped.freedAs wellFormed⟩
  exact ⟨invariant.2.2.1, invariant.2.2.2⟩

/-- An ant that travels from node 0 to its neighbour and back. -/
def homecoming : Option (List (Net ℚ × Event ℚ) × Net ℚ) :=
  (Net.initial fun _ => ⟨1 / 2, 2⟩).follow (Sim.line 2 maxNumNodes) (.perfect ℚ)
    [fun _ => some (.start 0), fun _ => some (.start 1), fun _ => some (.timer 0 [1] [0] 0),
      deliverAs 0 id [] 0, deliverAs 0 id [] 0]

/-- It ends at home. -/
theorem ants_conserved_homecoming :
    ∃ trace net, homecoming = some (trace, net) ∧ net.flight = [] ∧
      (ended (Sim.line 2 maxNumNodes) trace).map (fun p => p.cmn.uid) = [0] := by
  have observed : homecoming.map (fun outcome => decide (outcome.2.flight = [] ∧
      madeCount outcome.1 = 1)) = some true := by
    decide +kernel
  rcases Option.map_eq_some_iff.mp observed with ⟨⟨trace, net⟩, followed, ready⟩
  obtain ⟨quiet, one⟩ := of_decide_eq_true ready
  simp only at quiet one
  have run : (network (Sim.line 2 maxNumNodes) (.perfect ℚ) fun _ => ⟨1 / 2, 2⟩).Run
      (Net.initial fun _ => ⟨1 / 2, 2⟩) trace net := Net.run_of_follow _ followed
  have conserved := (ants_conserved (Medium.perfect_faithful ℚ) run).1
  rw [quiet, one, List.nil_append] at conserved
  exact ⟨trace, net, followed, quiet, List.perm_singleton.mp conserved⟩

end AntAodv
