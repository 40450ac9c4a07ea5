import AntAodv.Library.Numerals
import AntAodv.Scripts.DelayTrace

/-!
# The throughput script with its times

The whole of `Throughput.awk`: besides the counters it keeps the time of the first packet
sent and of the last one received, and prints the throughput between them.
-/

namespace AntAodv

/-- The variables of the script that are used again. -/
structure ThroughputRun extends Throughput where
  startTime : ℚ
  stopTime : ℚ
  /-- `sendTime[pkt_id]`, zero where nothing is stored. -/
  sendTime : Text → ℚ

namespace ThroughputRun

/-- The variables before the first line. -/
def start : ThroughputRun := ⟨⟨0, 0⟩, 10 ^ 6, 0, fun _ => 0⟩

/-- A time that is compared with numbers as a number; other texts would be compared as
texts. -/
def timeOf : Option Text → Option ℚ
  | some t => if Awk.looksNumeric t then some (Awk.number t) else none
  | none => none

/-- The rule for a packet sent. -/
def send (s : ThroughputRun) (time : ℚ) (pktId : Text) : ThroughputRun :=
  { s with
    startTime := if time < s.startTime then time else s.startTime
    sendTime := Function.update s.sendTime pktId time }

/-- The rule for a packet received. -/
def receive (s : ThroughputRun) (time pktSize : ℚ) : ThroughputRun :=
  { s with
    stopTime := if s.stopTime < time then time else s.stopTime
    recvdSize := s.recvdSize + pktSize
    recvdNum := s.recvdNum + 1 }

/-- The first packet with its identity, unless it was sent at time zero. -/
def ifSent (s : ThroughputRun) (event time pktId level : Option Text) : Option ThroughputRun :=
  if level = some "AGT".toList ∧ s.sendTime (pktId.getD []) = 0 ∧
      (event = some "+".toList ∨ event = some "s".toList) then
    (timeOf time).map fun time => s.send time (pktId.getD [])
  else some s

def ifReceived (s : ThroughputRun) (event time pktSize level : Option Text) :
    Option ThroughputRun :=
  if level = some "AGT".toList ∧ event = some "r".toList then
    (timeOf time).map fun time => s.receive time (Awk.fieldNumber pktSize)
  else some s

/-- The main rule behind the reading of the fields. -/
def rules (s : ThroughputRun) (event time pktId pktSize level : Option Text) :
    Option ThroughputRun :=
  (s.ifSent event time pktId level).bind fun s => s.ifReceived event time pktSize level

/-- The main rule, for one line. -/
def mainRule (s : ThroughputRun) (line : Text) : Option ThroughputRun :=
  let field := Awk.field line
  -- trace line format: normal
  if field 2 ≠ some "-t".toList then
    s.rules (field 1) (field 2) (field 12) (field 6) (some "AGT".toList)
  -- trace line format: new
  else s.rules (field 1) (field 3) (field 41) (field 37) (field 19)

/-- The variables after all lines. -/
def run (lines : List Text) : Option ThroughputRun := lines.foldlM mainRule start

/-- `avgTput[kbps]`; awk dies where it divides by zero. -/
def avgTput (s : ThroughputRun) : Option ℚ :=
  if s.stopTime - s.startTime = 0 then none
  else some (s.recvdSize / (s.stopTime - s.startTime) * (8 / 1000))

theorem timeOf_ofRat (x : ℚ) : timeOf (some (Printf.ofRat 9 x)) = some (Printf.printed 9 x) := by
  rw [timeOf, if_pos (Awk.looksNumeric_ofRat (by decide) x), Awk.number_ofRat (by decide)]

/-- The counters are those of the script without its times. -/
theorem toThroughput_mainRule {s s' : ThroughputRun} {line : Text}
    (ruled : mainRule s line = some s') :
    s'.toThroughput = Throughput.mainRule s.toThroughput line := by
  have counted : ∀ {event time pktId pktSize level : Option Text},
      s.rules event time pktId pktSize level = some s' →
        s'.toThroughput = if level = some "AGT".toList ∧ event = some "r".toList then
          { recvdSize := s.recvdSize + Awk.fieldNumber pktSize, recvdNum := s.recvdNum + 1 }
        else s.toThroughput := by
    intro event time pktId pktSize level ruled
    obtain ⟨middle, sent, received⟩ := Option.bind_eq_some_iff.mp ruled
    have same : middle.toThroughput = s.toThroughput := by
      rw [ifSent] at sent
      split at sent
      next =>
        obtain ⟨_, _, rfl⟩ := Option.map_eq_some_iff.mp sent
        rfl
      next => rw [Option.some.inj sent]
    rw [← same]
    rw [ifReceived] at received
    split at received
    next receives =>
      obtain ⟨_, _, rfl⟩ := Option.map_eq_some_iff.mp received
      rw [if_pos receives]
      rfl
    next other =>
      rw [if_neg other, Option.some.inj received]
  rw [mainRule] at ruled
  rw [Throughput.mainRule]
  split at ruled
  next normal =>
    rw [counted ruled, if_pos normal]
  next new =>
    rw [counted ruled, if_neg new]

end ThroughputRun

namespace TraceEvent

variable (e : TraceEvent)

/-- The fields that the script reads in the format of `newtrace`. -/
theorem fields_new (newtrace : e.newtrace = true) :
    Awk.field e.format 1 = some [e.newOp] ∧ Awk.field e.format 2 = some "-t".toList ∧
      Awk.field e.format 3 = some (Printf.ofRat 9 e.clock) ∧
      Awk.field e.format 19 = some e.tracename.name.toList ∧
      Awk.fieldNumber (Awk.field e.format 37) = e.sizeField := by
  have words := e.words_new newtrace
  have size : Awk.fieldNumber (Awk.field e.format 37) = e.sizeField := by
    rw [← e.fieldNumber_newRest newtrace, Awk.field, words]
    rfl
  refine ⟨?_, ?_, ?_, ?_, size⟩ <;> rw [Awk.field, words] <;> rfl

theorem newOp_ne_plus : e.newOp ≠ '+' := by
  have types : ∀ type : TraceType, type.char ≠ '+' := by
    intro type
    cases type <;> decide
  unfold newOp op
  split_ifs
  · decide
  · decide
  · decide
  · exact types e.type

theorem newOp_eq_s_iff_of_agt (agent : e.tracename = .agt) : e.newOp = 's' ↔ e.type = .send := by
  rw [← op_eq_s_iff_of_agt agent, newOp]
  split
  next dropped => simp [dropped]
  next => rfl

end TraceEvent

namespace ThroughputRun

theorem mainRule_newtrace (s : ThroughputRun) {e : TraceEvent} (newtrace : e.newtrace = true) :
    ∃ pktId, mainRule s e.format = some (
      if e.IsAgentSend ∧ s.sendTime pktId = 0 then s.send (Printf.printed 9 e.clock) pktId
      else if e.IsAgentReceive then s.receive (Printf.printed 9 e.clock) e.sizeField
      else s) := by
  obtain ⟨first, second, third, nineteenth, size⟩ := e.fields_new newtrace
  refine ⟨(Awk.field e.format 41).getD [], ?_⟩
  have event : ∀ c : Char, Awk.field e.format 1 = some [c] ↔ e.newOp = c := by
    simp [first]
  rw [mainRule, if_neg (not_not.mpr second), rules, ifSent, third, nineteenth, timeOf_ofRat]
  simp only [ifReceived, timeOf_ofRat, size]
  by_cases agent : e.tracename = .agt
  · have level : some e.tracename.name.toList = some "AGT".toList := by
      rw [e.tracename_eq_agt_iff.mpr agent]
    have sends : (Awk.field e.format 1 = some "+".toList ∨
        Awk.field e.format 1 = some "s".toList) ↔ e.IsAgentSend := by
      rw [show "+".toList = ['+'] from rfl, show "s".toList = ['s'] from rfl, event, event,
        e.newOp_eq_s_iff_of_agt agent, or_iff_right e.newOp_ne_plus]
      exact (and_iff_left agent).symm
    have receives : Awk.field e.format 1 = some "r".toList ↔ e.IsAgentReceive := by
      rw [show "r".toList = ['r'] from rfl, event, e.newOp_eq_r_iff]
      exact (and_iff_left agent).symm
    simp only [level, sends, receives, true_and]
    by_cases sent : s.sendTime ((Awk.field e.format 41).getD []) = 0 ∧ e.IsAgentSend
    · have notReceived : ¬ e.IsAgentReceive := by
        rintro ⟨received, _⟩
        rw [sent.2.1] at received
        cases received
      rw [if_pos sent, if_pos sent.symm]
      exact if_neg notReceived
    · rw [if_neg sent, if_neg (mt And.symm sent)]
      by_cases received : e.IsAgentReceive
      · rw [if_pos received]
        exact if_pos received
      · rw [if_neg received]
        exact if_neg received
  · have level : some e.tracename.name.toList ≠ some "AGT".toList := by
      rw [Ne, Option.some.injEq, e.tracename_eq_agt_iff]
      exact agent
    rw [if_neg (fun both => level both.1), if_neg (fun both => agent both.1.2),
      if_neg (fun both => agent both.2)]
    exact if_neg fun both => level both.1

/-- The variables after the lines of events in the order of time. -/
structure Timed (events : List TraceEvent) (s : ThroughputRun) : Prop where
  counters : s.toThroughput = Throughput.run (events.map TraceEvent.format)
  startTime : s.startTime =
    ((events.filter (·.IsAgentSend)).head?.map fun e => Printf.printed 9 e.clock).getD (10 ^ 6)
  stopTime : s.stopTime =
    ((received events).getLast?.map fun e => Printf.printed 9 e.clock).getD 0
  unsent : events.filter (·.IsAgentSend) = [] → ∀ pktId, s.sendTime pktId = 0

theorem printed_within {e : TraceEvent} (within : 0 ≤ e.clock ∧ e.clock ≤ 10 ^ 6) :
    0 ≤ Printf.printed 9 e.clock ∧ Printf.printed 9 e.clock ≤ 10 ^ 6 := by
  have lowest : Printf.printed 9 0 = 0 := by decide +kernel
  have highest : Printf.printed 9 (10 ^ 6) = 10 ^ 6 := by decide +kernel
  have low := Printf.printed_mono 9 within.1
  have high := Printf.printed_mono 9 within.2
  rw [lowest] at low
  rw [highest] at high
  exact ⟨low, high⟩

section Line

variable {events : List TraceEvent} {s s' : ThroughputRun} {e : TraceEvent}

/-- The line of a packet sent, not earlier than the others. -/
theorem Timed.send (timed : Timed events s) (within : 0 ≤ e.clock ∧ e.clock ≤ 10 ^ 6)
    (latest : ∀ earlier ∈ events, earlier.clock ≤ e.clock) (sent : e.IsAgentSend)
    {pktId : Text}
    (counters : s'.toThroughput = Throughput.run ((events ++ [e]).map TraceEvent.format))
    (once : s' = s.send (Printf.printed 9 e.clock) pktId ∨ s' = s ∧ s.sendTime pktId ≠ 0) :
    Timed (events ++ [e]) s' := by
  have sends : (events ++ [e]).filter (·.IsAgentSend) = events.filter (·.IsAgentSend) ++ [e] := by
    simp [sent]
  have same : received (events ++ [e]) = received events := by
    have notReceived : ¬ (e.type = .recv ∧ e.tracename = .agt) := by
      rintro ⟨type, _⟩
      rw [sent.1] at type
      cases type
    simp [received, notReceived]
  have stopTime : s'.stopTime = s.stopTime := by
    rcases once with rfl | ⟨rfl, _⟩ <;> rfl
  refine ⟨counters, ?_, ?_, ?_⟩
  · rw [sends]
    have start := timed.startTime
    cases before : events.filter (·.IsAgentSend) with
    | nil =>
        rw [before] at start
        rcases once with rfl | ⟨rfl, again⟩
        · change (if Printf.printed 9 e.clock < s.startTime then _ else s.startTime) = _
          rw [start]
          exact ite_eq_left_iff.mpr fun above =>
            ((printed_within within).2.antisymm (not_lt.mp above)).symm
        · exact absurd (timed.unsent before pktId) again
    | cons first others =>
        rw [before] at start
        have earlier : first ∈ events := by
          have isSend : first ∈ events.filter (·.IsAgentSend) := before ▸ List.mem_cons_self
          exact (List.mem_filter.mp isSend).1
        have order := Printf.printed_mono 9 (latest first earlier)
        rcases once with rfl | ⟨rfl, _⟩
        · change (if Printf.printed 9 e.clock < s.startTime then _ else s.startTime) = _
          rw [start]
          exact if_neg (not_lt.mpr order)
        · exact start
  · rw [same, stopTime]
    exact timed.stopTime
  · rw [sends]
    simp

theorem Timed.other (timed : Timed events s) (notSent : ¬ e.IsAgentSend)
    (counters : s'.toThroughput = Throughput.run ((events ++ [e]).map TraceEvent.format))
    (start : s'.startTime = s.startTime) (sendTime : s'.sendTime = s.sendTime)
    (stop : s'.stopTime =
      ((received (events ++ [e])).getLast?.map fun e => Printf.printed 9 e.clock).getD 0) :
    Timed (events ++ [e]) s' := by
  have sends : (events ++ [e]).filter (·.IsAgentSend) = events.filter (·.IsAgentSend) := by
    simp [notSent]
  refine ⟨counters, ?_, stop, ?_⟩
  · rw [start, sends]
    exact timed.startTime
  · rw [sendTime, sends]
    exact timed.unsent

/-- One more line, not earlier than the others. -/
theorem Timed.mainRule (timed : Timed events s) (newtrace : e.newtrace = true)
    (within : 0 ≤ e.clock ∧ e.clock ≤ 10 ^ 6)
    (latest : ∀ earlier ∈ events, earlier.clock ≤ e.clock) :
    ∃ s', s.mainRule e.format = some s' ∧ Timed (events ++ [e]) s' := by
  obtain ⟨pktId, ruled⟩ := mainRule_newtrace s newtrace
  have counters : ∀ {s' : ThroughputRun}, s.mainRule e.format = some s' →
      s'.toThroughput = Throughput.run ((events ++ [e]).map TraceEvent.format) := by
    intro s' ruled
    rw [toThroughput_mainRule ruled, timed.counters]
    simp [Throughput.run]
  by_cases sent : e.IsAgentSend
  · have notReceived : ¬ e.IsAgentReceive := by
      rintro ⟨type, _⟩
      rw [sent.1] at type
      cases type
    by_cases unsent : s.sendTime pktId = 0
    · rw [if_pos ⟨sent, unsent⟩] at ruled
      exact ⟨_, ruled, timed.send within latest sent (counters ruled) (Or.inl rfl)⟩
    · rw [if_neg fun both => unsent both.2, if_neg notReceived] at ruled
      exact ⟨_, ruled, timed.send within latest sent (counters ruled) (Or.inr ⟨rfl, unsent⟩)⟩
  · rw [if_neg fun both => sent both.1] at ruled
    by_cases reception : e.IsAgentReceive
    · rw [if_pos reception] at ruled
      refine ⟨_, ruled, timed.other sent (counters ruled) rfl rfl ?_⟩
      have receptions : received (events ++ [e]) = received events ++ [e] := by
        simp [received, reception.1, reception.2]
      have order : s.stopTime ≤ Printf.printed 9 e.clock := by
        rw [timed.stopTime]
        cases last : (received events).getLast? with
        | none => exact (printed_within within).1
        | some earlier =>
            have member := (List.mem_filter.mp (List.mem_of_getLast? last)).1
            exact Printf.printed_mono 9 (latest earlier member)
      rw [receptions, List.getLast?_concat]
      exact ite_eq_left_iff.mpr fun above => order.antisymm (not_lt.mp above)
    · rw [if_neg reception] at ruled
      refine ⟨_, ruled, timed.other sent (counters ruled) rfl rfl ?_⟩
      have receptions : received (events ++ [e]) = received events := by
        rw [received, List.filter_append, List.filter_cons_of_neg (by
          simpa [TraceEvent.IsAgentReceive] using reception)]
        exact List.append_nil _
      rw [receptions]
      exact timed.stopTime

end Line

theorem timed_run {events : List TraceEvent} (newtrace : ∀ e ∈ events, e.newtrace = true)
    (ordered : events.Pairwise (·.clock ≤ ·.clock))
    (within : ∀ e ∈ events, 0 ≤ e.clock ∧ e.clock ≤ 10 ^ 6) :
    ∃ s, run (events.map TraceEvent.format) = some s ∧ Timed events s := by
  induction events using List.reverseRecOn with
  | nil => exact ⟨start, rfl, rfl, rfl, rfl, fun _ _ => rfl⟩
  | append_singleton events e inductionHypothesis =>
      rw [List.pairwise_append] at ordered
      obtain ⟨s, ran, timed⟩ := inductionHypothesis
        (fun e member => newtrace e (List.mem_append_left _ member)) ordered.1
        (fun e member => within e (List.mem_append_left _ member))
      obtain ⟨s', ruled, timed'⟩ := timed.mainRule (newtrace e (by simp)) (within e (by simp))
        fun earlier member => ordered.2.2 earlier member e List.mem_cons_self
      refine ⟨s', ?_, timed'⟩
      rw [run, List.map_append, List.foldlM_append, ← run, ran]
      simpa using ruled

end ThroughputRun

/-- On a trace of the format of `newtrace` in the order of time, none of whose receptions is
misread, the script takes the first packet that an agent sent and the last one that an agent
received, by the decimals of the trace, and prints the bytes received between them, unless
the two times are the same. -/
theorem avgTput_of_ordered {events : List TraceEvent} (newtrace : ∀ e ∈ events, e.newtrace = true)
    (ordered : events.Pairwise (·.clock ≤ ·.clock))
    (within : ∀ e ∈ events, 0 ≤ e.clock ∧ e.clock ≤ 10 ^ 6)
    (read : ∀ e ∈ received events, ¬ e.Misread) {first last : TraceEvent}
    (isFirst : (events.filter (·.IsAgentSend)).head? = some first)
    (isLast : (received events).getLast? = some last) :
    ∃ s, ThroughputRun.run (events.map TraceEvent.format) = some s ∧
      s.startTime = Printf.printed 9 first.clock ∧ s.stopTime = Printf.printed 9 last.clock ∧
      s.recvdNum = (received events).length ∧
      s.avgTput = if Printf.printed 9 last.clock - Printf.printed 9 first.clock = 0 then none
        else some (((received events).map fun e => (e.p.cmn.size : ℚ)).sum /
          (Printf.printed 9 last.clock - Printf.printed 9 first.clock) * (8 / 1000)) := by
  obtain ⟨s, ran, timed⟩ := ThroughputRun.timed_run newtrace ordered within
  have counted := Throughput.foldl_count (fun e => e.type = .recv ∧ e.tracename = .agt)
    (fun e => (e.sizeField : ℚ)) fun s e member => Throughput.mainRule_new s (newtrace e member)
  have sizes : ((received events).map fun e => (e.sizeField : ℚ)) =
      (received events).map fun e => (e.p.cmn.size : ℚ) := by
    apply List.map_congr_left
    intro e member
    rw [e.sizeField_of_not_misread (read e member)]
  have start : s.startTime = Printf.printed 9 first.clock := by
    rw [timed.startTime, isFirst]
    rfl
  have stop : s.stopTime = Printf.printed 9 last.clock := by
    rw [timed.stopTime, isLast]
    rfl
  have counters := timed.counters
  rw [counted] at counters
  have size : s.recvdSize = ((received events).map fun e => (e.p.cmn.size : ℚ)).sum := by
    rw [counters, ← sizes]
    rfl
  refine ⟨s, ran, start, stop, by rw [counters]; rfl, ?_⟩
  rw [ThroughputRun.avgTput, size, start, stop]

/-- The same packet in the format of `newtrace`. -/
def halfSecondNew : List TraceEvent := halfSecond.map fun e => { e with newtrace := true }

theorem avgTput_of_ordered_halfSecond :
    ∃ s, ThroughputRun.run (halfSecondNew.map TraceEvent.format) = some s ∧
      s.avgTput = some (512 / (1 / 2) * (8 / 1000)) := by
  have newtrace : ∀ e ∈ halfSecondNew, e.newtrace = true := by
    simp [halfSecondNew, halfSecond, dataEvent]
  have ordered : halfSecondNew.Pairwise (·.clock ≤ ·.clock) := by
    norm_num [halfSecondNew, halfSecond, dataEvent]
  have within : ∀ e ∈ halfSecondNew, 0 ≤ e.clock ∧ e.clock ≤ 10 ^ 6 := by
    norm_num [halfSecondNew, halfSecond, dataEvent]
  obtain ⟨s, ran, _, _, _, throughput⟩ := avgTput_of_ordered newtrace ordered within
    (by decide +kernel) rfl rfl
  refine ⟨s, ran, ?_⟩
  have first : Printf.printed 9 (3 / 2) = 3 / 2 := by decide +kernel
  have last : Printf.printed 9 2 = 2 := by decide +kernel
  have sizes : received halfSecondNew =
      [{ dataEvent .recv .agt true ptCbr 512 (by decide) with clock := 2 }] := rfl
  rw [sizes] at throughput
  norm_num [dataEvent, first, last] at throughput ⊢
  exact throughput

end AntAodv
