import AntAodv.CmuTrace.Patterns
import AntAodv.Scripts.Throughput

/-!
# The ant and delivery counters

`antnetanalizer.pl` on the lines of the wireless packet trace in the default
format.  The script looks for ants by a pattern that no such line contains.
-/

namespace AntAodv

namespace Antnetanalizer

/-- The counters that are printed. -/
structure Totals where
  antaomdvSent : ℕ
  antaomdvRecv : ℕ
  dataSent : ℕ
  dataRecv : ℕ
  routerDrop : ℕ
  deriving DecidableEq

/-- The counters of the script. -/
structure Counters extends Totals where
  antaomdvSendRequest : ℕ
  antaomdvSendReply : ℕ
  antaomdvRecvRequest : ℕ
  antaomdvRecvReply : ℕ
  antaomdvDropRequest : ℕ
  antaomdvDropReply : ℕ

/-- The counters before the first line. -/
def Counters.zero : Counters := ⟨⟨0, 0, 0, 0, 0⟩, 0, 0, 0, 0, 0, 0⟩

/-- `/^c/`. -/
def startsWith (c : Char) : Text → Bool
  | [] => false
  | head :: _ => head = c

/-- `/^c.*pattern/`; a line has no end of line in it. -/
def startsAndContains (c : Char) (pattern : String) : Text → Bool
  | [] => false
  | head :: rest => head = c ∧ pattern.toList <:+: rest

/-- The body of the main loop, for one line. -/
def mainLoop (s : Counters) (line : Text) : Counters :=
  if startsWith 's' line then
    if startsAndContains 's' "antnet" line then
      let s := { s with antaomdvSent := s.antaomdvSent + 1 }
      if startsAndContains 's' "REQUEST" line then
        { s with antaomdvSendRequest := s.antaomdvSendRequest + 1 }
      else if startsAndContains 's' "REPLY" line then
        { s with antaomdvSendReply := s.antaomdvSendReply + 1 }
      else s
    else if startsAndContains 's' "AGT" line then { s with dataSent := s.dataSent + 1 }
    else s
  else if startsWith 'r' line then
    if startsAndContains 'r' "antnet" line then
      let s := { s with antaomdvRecv := s.antaomdvRecv + 1 }
      if startsAndContains 'r' "REQUEST" line then
        { s with antaomdvRecvRequest := s.antaomdvRecvRequest + 1 }
      else if startsAndContains 'r' "REPLY" line then
        { s with antaomdvRecvReply := s.antaomdvRecvReply + 1 }
      else s
    else if startsAndContains 'r' "AGT" line then { s with dataRecv := s.dataRecv + 1 }
    else s
  else if startsWith 'D' line then
    let s :=
      if startsAndContains 'D' "antnet" line then
        if startsAndContains 'D' "REQUEST" line then
          { s with antaomdvDropRequest := s.antaomdvDropRequest + 1 }
        else if startsAndContains 'D' "REPLY" line then
          { s with antaomdvDropReply := s.antaomdvDropReply + 1 }
        else s
      else s
    if startsAndContains 'D' "RTR" line then { s with routerDrop := s.routerDrop + 1 } else s
  else s

/-- The counters after all lines. -/
def run (lines : List Text) : Counters := lines.foldl mainLoop .zero

/-- What the script prints. -/
structure Report extends Totals where
  deliveryRatio : ℚ

/-- The script dies at the division, before it prints, where no data was sent. -/
def print (s : Counters) : Option Report :=
  if s.dataSent = 0 then none
  else some { s.toTotals with deliveryRatio := 100 * s.dataRecv / s.dataSent }

end Antnetanalizer

/-! ### What the events say -/

namespace TraceEvent

variable (e : TraceEvent)

/-- The event is written as `op`, and its packet is an ant. -/
def IsAnt (op : Char) : Prop := e.op = op ∧ e.p.cmn.ptype = ptAnt

/-- The event is written as `op` at level `AGT`, and its packet is no ant. -/
def IsData (op : Char) : Prop := e.op = op ∧ e.tracename = .agt ∧ e.p.cmn.ptype ≠ ptAnt

/-- A drop at level `RTR`. -/
def IsRouterDrop : Prop := e.op = 'D' ∧ e.tracename = .rtr

instance (op : Char) : Decidable (e.IsAnt op) := inferInstanceAs (Decidable (_ ∧ _))
instance (op : Char) : Decidable (e.IsData op) := inferInstanceAs (Decidable (_ ∧ _ ∧ _))
instance : Decidable e.IsRouterDrop := inferInstanceAs (Decidable (_ ∧ _))

end TraceEvent

namespace Antnetanalizer

/-- The counters as they should be. -/
def totals (events : List TraceEvent) : Totals where
  antaomdvSent := events.countP fun e => e.IsAnt 's'
  antaomdvRecv := events.countP fun e => e.IsAnt 'r'
  dataSent := events.countP fun e => e.IsData 's'
  dataRecv := events.countP fun e => e.IsData 'r'
  routerDrop := events.countP fun e => e.IsRouterDrop

/-! ### One line -/

theorem mainLoop_format (s : Counters) {e : TraceEvent} (newtrace : e.newtrace = false) :
    mainLoop s e.format =
      if e.op = 's' ∧ e.tracename = .agt then { s with dataSent := s.dataSent + 1 }
      else if e.op = 'r' ∧ e.tracename = .agt then { s with dataRecv := s.dataRecv + 1 }
      else if e.IsRouterDrop then { s with routerDrop := s.routerDrop + 1 }
      else s := by
  rw [e.format_eq_cons newtrace]
  simp only [mainLoop, startsWith, startsAndContains, TraceEvent.not_antnet_infix newtrace,
    TraceEvent.agt_infix_iff newtrace, TraceEvent.rtr_infix_iff newtrace, TraceEvent.IsRouterDrop,
    and_false, decide_false, Bool.false_eq_true, if_false]
  by_cases sent : e.op = 's'
  · simp [sent]
  · by_cases received : e.op = 'r'
    · simp [received]
    · by_cases dropped : e.op = 'D'
      · simp [dropped]
      · simp [sent, received, dropped]

/-! ### All lines -/

theorem run_format {events : List TraceEvent} (newtrace : ∀ e ∈ events, e.newtrace = false) :
    run (events.map TraceEvent.format) =
      { Counters.zero with
        dataSent := events.countP fun e => e.op = 's' ∧ e.tracename = .agt
        dataRecv := events.countP fun e => e.op = 'r' ∧ e.tracename = .agt
        routerDrop := events.countP fun e => e.IsRouterDrop } := by
  unfold run
  induction events using List.reverseRecOn with
  | nil => rfl
  | append_singleton events e inductionHypothesis =>
      have earlier := inductionHypothesis fun e member =>
        newtrace e (List.mem_append_left _ member)
      rw [List.map_append, List.foldl_append, earlier, List.map_singleton, List.foldl_cons,
        List.foldl_nil, mainLoop_format _ (newtrace e (by simp))]
      simp only [List.countP_append, List.countP_singleton, decide_eq_true_eq]
      by_cases sent : e.op = 's' ∧ e.tracename = .agt
      · simp [sent, TraceEvent.IsRouterDrop]
      · by_cases received : e.op = 'r' ∧ e.tracename = .agt
        · simp [received, TraceEvent.IsRouterDrop]
        · rw [if_neg sent, if_neg received, if_neg sent, if_neg received]
          split <;> rfl

/-- Without ants, all packets at level `AGT` are data. -/
theorem countP_isData {events : List TraceEvent} {op : Char}
    (noAnt : ∀ e ∈ events, ¬ e.IsAnt op) :
    (events.countP fun e => e.op = op ∧ e.tracename = .agt) =
      events.countP fun e => e.IsData op := by
  apply List.countP_congr
  intro e member
  have others := noAnt e member
  simp only [TraceEvent.IsAnt, not_and] at others
  rw [decide_eq_true_eq, decide_eq_true_eq]
  constructor
  · rintro ⟨isOp, atAgent⟩
    exact ⟨isOp, atAgent, others isOp⟩
  · rintro ⟨isOp, atAgent, _⟩
    exact ⟨isOp, atAgent⟩

theorem countP_isAnt_eq_zero_iff {events : List TraceEvent} {op : Char} :
    (events.countP fun e => e.IsAnt op) = 0 ↔ ∀ e ∈ events, ¬ e.IsAnt op := by
  simp [List.countP_eq_zero]

/-- The report repeats the counters, if data is sent. -/
theorem exists_print_iff {events : List TraceEvent} (newtrace : ∀ e ∈ events, e.newtrace = false)
    (expected : Totals) :
    (∃ report, print (run (events.map TraceEvent.format)) = some report ∧
        report.toTotals = expected) ↔
      (run (events.map TraceEvent.format)).toTotals = expected ∧
        ∃ e ∈ events, e.op = 's' ∧ e.tracename = .agt := by
  have sends : (run (events.map TraceEvent.format)).dataSent = 0 ↔
      ¬ ∃ e ∈ events, e.op = 's' ∧ e.tracename = .agt := by
    rw [run_format newtrace]
    simp [List.countP_eq_zero]
  rw [print]
  by_cases none : (run (events.map TraceEvent.format)).dataSent = 0
  · simp only [if_pos none, sends.mp none, and_false, reduceCtorEq, false_and, exists_false]
  · rw [if_neg none]
    have some := not_not.mp (sends.not.mp none)
    simp only [Option.some.injEq, exists_eq_left', some, and_true]

end Antnetanalizer

open Antnetanalizer

/-- When the counters are as they should be: the pattern for ants is in no line, so
there must be no ants.  They are printed if an agent sends anything at all. -/
theorem antnetanalizer_counts_iff {events : List TraceEvent}
    (newtrace : ∀ e ∈ events, e.newtrace = false) :
    ((run (events.map TraceEvent.format)).toTotals = totals events ↔
      ∀ e ∈ events, ¬ e.IsAnt 's' ∧ ¬ e.IsAnt 'r') ∧
    ((∃ report, print (run (events.map TraceEvent.format)) = some report ∧
        report.toTotals = totals events) ↔
      (∀ e ∈ events, ¬ e.IsAnt 's' ∧ ¬ e.IsAnt 'r') ∧ ∃ e ∈ events, e.IsData 's') := by
  have counts : (run (events.map TraceEvent.format)).toTotals = totals events ↔
      ∀ e ∈ events, ¬ e.IsAnt 's' ∧ ¬ e.IsAnt 'r' := by
    rw [run_format newtrace]
    constructor
    · intro same
      have sent := countP_isAnt_eq_zero_iff.mp (congrArg Totals.antaomdvSent same).symm
      have received := countP_isAnt_eq_zero_iff.mp (congrArg Totals.antaomdvRecv same).symm
      exact fun e member => ⟨sent e member, received e member⟩
    · intro noAnt
      have sent : ∀ e ∈ events, ¬ e.IsAnt 's' := fun e member => (noAnt e member).1
      have received : ∀ e ∈ events, ¬ e.IsAnt 'r' := fun e member => (noAnt e member).2
      rw [totals, countP_isAnt_eq_zero_iff.mpr sent, countP_isAnt_eq_zero_iff.mpr received,
        ← countP_isData sent, ← countP_isData received]
      rfl
  refine ⟨counts, ?_⟩
  rw [exists_print_iff newtrace, counts]
  apply and_congr_right
  intro noAnt
  constructor
  · rintro ⟨e, member, isOp, atAgent⟩
    exact ⟨e, member, isOp, atAgent, fun ant => (noAnt e member).1 ⟨isOp, ant⟩⟩
  · rintro ⟨e, member, isOp, atAgent, _⟩
    exact ⟨e, member, isOp, atAgent⟩

/-- A packet is sent and received, and the router drops another one. -/
theorem antnetanalizer_counts_iff_cbr :
    ∃ report, print (run ([dataEvent .send .agt false ptCbr 512 (by decide),
        dataEvent .recv .agt false ptCbr 512 (by decide),
        dataEvent .drop .rtr false ptCbr 512 (by decide)].map TraceEvent.format)) = some report ∧
      report.toTotals = ⟨0, 0, 1, 1, 1⟩ :=
  (antnetanalizer_counts_iff (by simp [dataEvent])).2.mpr ⟨by decide, by decide⟩

/-- An ant that a router receives is not counted. -/
theorem antnetanalizer_misses_ant :
    ¬ ∀ events : List TraceEvent, (∀ e ∈ events, e.newtrace = false) →
      (run (events.map TraceEvent.format)).toTotals = totals events := by
  intro counts
  have same := counts [dataEvent .recv .rtr false ptAnt 512 (by decide)] (by simp [dataEvent])
  revert same
  decide +kernel

end AntAodv
