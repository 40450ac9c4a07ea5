import AntAodv.CmuTrace.Lines
import AntAodv.Scripts.DelayPl
import AntAodv.Scripts.Throughput

/-!
# The delay script on wireless traces

What `Delay.pl` makes of the lines that `CMUTrace` writes in the default format: the mean
delay of the packets that agents sent and received, up to the decimals of the trace.
-/

namespace AntAodv

open Printf

namespace TraceEvent

/-- An agent sends a packet. -/
def IsAgentSend (e : TraceEvent) : Prop := e.type = .send ∧ e.tracename = .agt

/-- An agent receives a packet. -/
def IsAgentReceive (e : TraceEvent) : Prop := e.type = .recv ∧ e.tracename = .agt

instance : DecidablePred IsAgentSend := fun _ => inferInstanceAs (Decidable (_ ∧ _))
instance : DecidablePred IsAgentReceive := fun _ => inferInstanceAs (Decidable (_ ∧ _))

/-- The first of the events that receives the packet with this identity. -/
def agentReception (uid : ℕ) (later : List TraceEvent) : Option TraceEvent :=
  later.find? fun e => e.IsAgentReceive ∧ e.p.cmn.uid = uid

/-- Every packet sent by an agent that an agent receives later, with the first reception. -/
def agentDeliveries : List TraceEvent → List (TraceEvent × TraceEvent)
  | [] => []
  | e :: later =>
      (if e.IsAgentSend then ((agentReception e.p.cmn.uid later).map (e, ·)).toList else []) ++
        agentDeliveries later

/-- The time from sending to reception. -/
def endToEndDelay (pair : TraceEvent × TraceEvent) : ℚ := pair.2.clock - pair.1.clock

/-- The same time by the decimals of the trace. -/
def printedDelay (pair : TraceEvent × TraceEvent) : ℚ :=
  printed 9 pair.2.clock - printed 9 pair.1.clock

variable {e : TraceEvent}

theorem op_eq_s_iff_of_agt (agent : e.tracename = .agt) : e.op = 's' ↔ e.type = .send := by
  unfold op
  rw [agent]
  cases e.type <;> simp [TraceName.isRouter, TraceType.char]

/-- The fields of a line that the script reads. -/
theorem split_default (newtrace : e.newtrace = false) :
    ∃ node reason rest, Perl.split (e.format ++ ['\n']) =
      [e.op] :: ofRat 9 e.clock :: node :: e.tracename.name.toList :: reason ::
        Text.ofInt e.p.cmn.uid :: rest := by
  obtain ⟨rest, words⟩ := e.words_default newtrace
  rw [split_format newtrace, words]
  exact ⟨_, _, rest, rfl⟩

theorem isSend_split (newtrace : e.newtrace = false) :
    DelayPl.IsSend (Perl.split (e.format ++ ['\n'])) ↔ e.IsAgentSend := by
  obtain ⟨node, reason, rest, fields⟩ := split_default newtrace
  rw [fields, DelayPl.IsSend, IsAgentSend]
  by_cases agent : e.tracename = .agt
  · rw [← op_eq_s_iff_of_agt agent]
    simp [agent, TraceName.name]
  · have level : e.tracename.name.toList ≠ "AGT".toList :=
      fun same => agent (e.tracename_eq_agt_iff.mp same)
    simpa [agent] using fun _ => level

theorem isReceive_split (newtrace : e.newtrace = false) :
    DelayPl.IsReceive (Perl.split (e.format ++ ['\n'])) ↔ e.IsAgentReceive := by
  obtain ⟨node, reason, rest, fields⟩ := split_default newtrace
  rw [fields, DelayPl.IsReceive, IsAgentReceive, ← e.tracename_eq_agt_iff, ← e.op_eq_r_iff]
  simp

theorem time_format (newtrace : e.newtrace = false) :
    DelayPl.time (e.format ++ ['\n']) = printed 9 e.clock := by
  obtain ⟨node, reason, rest, fields⟩ := split_default newtrace
  rw [DelayPl.time, fields]
  exact Awk.number_ofRat (by decide) e.clock

theorem packet_format (newtrace : e.newtrace = false) :
    DelayPl.packet (e.format ++ ['\n']) = e.p.cmn.uid := by
  obtain ⟨node, reason, rest, fields⟩ := split_default newtrace
  rw [DelayPl.packet, fields]
  exact Awk.number_ofInt e.p.cmn.uid

/-- The line of an event in the file. -/
def line (e : TraceEvent) : Text := e.format ++ ['\n']

theorem reception_map {later : List TraceEvent} (newtrace : ∀ e ∈ later, e.newtrace = false)
    (uid : ℕ) :
    DelayPl.reception uid (later.map line) = (agentReception uid later).map line := by
  induction later with
  | nil => rfl
  | cons e later inductionHypothesis =>
      have isDefault := newtrace e List.mem_cons_self
      have further := inductionHypothesis fun e member => newtrace e (List.mem_cons_of_mem _ member)
      have first : (DelayPl.IsReceive (Perl.split e.line) ∧ DelayPl.packet e.line = uid) ↔
          (e.IsAgentReceive ∧ e.p.cmn.uid = uid) := by
        rw [line, isReceive_split isDefault, packet_format isDefault, Nat.cast_inj]
      rw [List.map_cons, DelayPl.reception, agentReception]
      by_cases found : e.IsAgentReceive ∧ e.p.cmn.uid = uid
      · rw [List.find?_cons_of_pos (by simpa [first] using found),
          List.find?_cons_of_pos (by simpa using found)]
        rfl
      · rw [List.find?_cons_of_neg (by simpa [first] using found),
          List.find?_cons_of_neg (by simpa using found)]
        exact further

theorem deliveries_map {events : List TraceEvent} (newtrace : ∀ e ∈ events, e.newtrace = false) :
    DelayPl.deliveries (events.map line) =
      (agentDeliveries events).map fun pair => (pair.1.line, pair.2.line) := by
  induction events with
  | nil => rfl
  | cons e later inductionHypothesis =>
      have isDefault := newtrace e List.mem_cons_self
      have laterDefault : ∀ e ∈ later, e.newtrace = false :=
        fun e member => newtrace e (List.mem_cons_of_mem _ member)
      rw [List.map_cons, DelayPl.deliveries_cons, inductionHypothesis laterDefault, agentDeliveries,
        List.map_append, DelayPl.delivery]
      congr 1
      have isSend : DelayPl.IsSend (Perl.split e.line) ↔ e.IsAgentSend := isSend_split isDefault
      by_cases sends : e.IsAgentSend
      · rw [if_pos (isSend.mpr sends), if_pos sends, line, packet_format isDefault,
          reception_map laterDefault]
        cases agentReception e.p.cmn.uid later <;> rfl
      · rw [if_neg (mt isSend.mp sends), if_neg sends]
        rfl

theorem mem_of_mem_agentDeliveries {events : List TraceEvent} {pair : TraceEvent × TraceEvent}
    (delivered : pair ∈ agentDeliveries events) : pair.1 ∈ events ∧ pair.2 ∈ events := by
  induction events with
  | nil => cases delivered
  | cons e later inductionHypothesis =>
      rw [agentDeliveries, List.mem_append] at delivered
      rcases delivered with first | further
      · split at first
        next =>
          obtain ⟨received, found, rfl⟩ := Option.map_eq_some_iff.mp (Option.mem_toList.mp first)
          exact ⟨List.mem_cons_self, List.mem_cons_of_mem e (List.mem_of_find?_eq_some found)⟩
        next => cases first
      · obtain ⟨sent, received⟩ := inductionHypothesis further
        exact ⟨List.mem_cons_of_mem e sent, List.mem_cons_of_mem e received⟩

theorem abs_printedDelay_sub (pair : TraceEvent × TraceEvent) :
    |printedDelay pair - endToEndDelay pair| ≤ 1 / 10 ^ 9 := by
  have sent := abs_le.mp (abs_printed_sub 9 pair.1.clock)
  have received := abs_le.mp (abs_printed_sub 9 pair.2.clock)
  rw [printedDelay, endToEndDelay, abs_le]
  constructor <;> linarith

end TraceEvent

/-- A mean moves by no more than its terms. -/
theorem abs_sum_sub_le {Item : Type} (items : List Item) {exact rough : Item → ℚ} {bound : ℚ}
    (close : ∀ item, |rough item - exact item| ≤ bound) :
    |(items.map rough).sum - (items.map exact).sum| ≤ items.length * bound := by
  induction items with
  | nil => simp
  | cons item items inductionHypothesis =>
      have first := abs_le.mp (close item)
      have others := abs_le.mp inductionHypothesis
      simp only [List.map_cons, List.sum_cons, List.length_cons]
      push_cast
      rw [abs_le]
      constructor <;> linarith

open TraceEvent in
/-- The script ends on every trace of the default format.  It counts the packets that an
agent sent and an agent received afterwards, and the average it prints, in milliseconds, is
their mean delay to within a nanosecond. -/
theorem delayPl_decodes {events : List TraceEvent} (newtrace : ∀ e ∈ events, e.newtrace = false)
    (extra : ℕ) :
    ∃ s, DelayPl.outerLoop (traceFile events) ((traceFile events).length + 1 + extra)
        DelayPl.start = some s ∧
      s.report.totalReceiveCount = (agentDeliveries events).length ∧
      s.report.simulationTime = events.getLast?.map (fun e => ofRat 9 e.clock) ∧
      (agentDeliveries events = [] → s.report.averageDelay = none) ∧
      (agentDeliveries events ≠ [] → ∃ average, s.report.averageDelay = some average ∧
        |average - 1000 * (((agentDeliveries events).map endToEndDelay).sum /
          (agentDeliveries events).length)| ≤ 1 / 10 ^ 6) := by
  have lines := lines_traceFile newtrace
  have enough : (Text.lines (traceFile events)).length < (traceFile events).length + 1 + extra := by
    have fewer := Text.length_lines_le (traceFile events)
    omega
  have left : Text.lines ((traceFile events).drop DelayPl.start.position) =
      Text.lines (traceFile events) := rfl
  obtain ⟨s, run, scanned⟩ := DelayPl.outerLoop_ends left enough
  have pairs : DelayPl.deliveries (Text.lines (traceFile events)) =
      (agentDeliveries events).map fun pair => (pair.1.line, pair.2.line) := by
    rw [lines]
    exact deliveries_map newtrace
  have count : s.totalReceiveCount = (agentDeliveries events).length := by
    rw [scanned.totalReceiveCount, pairs, List.length_map]
    exact Nat.zero_add _
  have sum : s.sumOfDelay = ((agentDeliveries events).map printedDelay).sum := by
    rw [scanned.sumOfDelay, pairs, List.map_map]
    refine (zero_add _).trans (congrArg List.sum (List.map_congr_left fun pair delivered => ?_))
    obtain ⟨sent, received⟩ := mem_of_mem_agentDeliveries delivered
    rw [Function.comp_apply, DelayPl.delayOf, line, line, time_format (newtrace _ sent),
      time_format (newtrace _ received), printedDelay]
  refine ⟨s, run, count, ?_, fun nothing => ?_, fun something => ?_⟩
  · rw [DelayPl.report, scanned.x, lines, List.getLast?_map]
    cases last : events.getLast? with
    | none => rfl
    | some e =>
        obtain ⟨node, reason, rest, fields⟩ := split_default (newtrace e (List.mem_of_getLast? last))
        simp [fields]
  · rw [DelayPl.report, count, nothing]
    rfl
  · have positive : 0 < (agentDeliveries events).length := List.length_pos_of_ne_nil something
    refine ⟨_, by rw [DelayPl.report, count, if_pos positive.ne', sum], ?_⟩
    have close := abs_sum_sub_le (agentDeliveries events) abs_printedDelay_sub
    have length : (0 : ℚ) < (agentDeliveries events).length := by exact_mod_cast positive
    have difference : ((agentDeliveries events).map printedDelay).sum /
          ((agentDeliveries events).length : ℚ) * 1000 -
        1000 * (((agentDeliveries events).map endToEndDelay).sum /
          (agentDeliveries events).length) =
        1000 * ((((agentDeliveries events).map printedDelay).sum -
          ((agentDeliveries events).map endToEndDelay).sum) /
            (agentDeliveries events).length) := by
      ring
    rw [difference, abs_mul, abs_div, abs_of_pos length, abs_of_pos (by norm_num)]
    have mean := (div_le_iff₀' length).mpr close
    linarith

/-- A packet is sent, and received half a second later. -/
def halfSecond : List TraceEvent :=
  [dataEvent .send .agt false ptCbr 512 (by decide),
    { dataEvent .recv .agt false ptCbr 512 (by decide) with clock := 2 }]

theorem delayPl_decodes_halfSecond :
    ∃ s average, DelayPl.outerLoop (traceFile halfSecond) ((traceFile halfSecond).length + 1)
        DelayPl.start = some s ∧
      s.report.averageDelay = some average ∧ |average - 500| ≤ 1 / 10 ^ 6 := by
  have newtrace : ∀ e ∈ halfSecond, e.newtrace = false := by
    simp [halfSecond, dataEvent]
  obtain ⟨s, run, _, _, _, received⟩ := delayPl_decodes newtrace 0
  have pairs : TraceEvent.agentDeliveries halfSecond =
      [(dataEvent .send .agt false ptCbr 512 (by decide),
        { dataEvent .recv .agt false ptCbr 512 (by decide) with clock := 2 })] := rfl
  rw [pairs] at received
  obtain ⟨average, isAverage, close⟩ := received (by simp)
  refine ⟨s, average, run, isAverage, ?_⟩
  norm_num [TraceEvent.endToEndDelay, dataEvent] at close ⊢
  exact close

end AntAodv
