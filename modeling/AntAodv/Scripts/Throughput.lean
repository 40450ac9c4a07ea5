import AntAodv.CmuTrace.Fields
import AntAodv.Library.Awk

/-!
# The throughput script

`Throughput.awk` on the lines of the wireless packet trace: the packets it counts
as received and the sizes it adds up.  Its bookkeeping of times feeds neither.
-/

namespace AntAodv

/-- `recvdSize` and `recvdNum`. -/
structure Throughput where
  recvdSize : ℚ
  recvdNum : ℕ

namespace Throughput

/-- The main rule, for one line. -/
def mainRule (s : Throughput) (line : Text) : Throughput :=
  let (event, pktSize, level) :=
    if Awk.field line 2 ≠ some "-t".toList then
      -- trace line format: normal
      (Awk.field line 1, Awk.field line 6, some "AGT".toList)
    else
      -- trace line format: new
      (Awk.field line 1, Awk.field line 37, Awk.field line 19)
  if level = some "AGT".toList ∧ event = some "r".toList then
    { recvdSize := s.recvdSize + Awk.fieldNumber pktSize, recvdNum := s.recvdNum + 1 }
  else s

/-- The counters after all lines. -/
def run (lines : List Text) : Throughput := lines.foldl mainRule ⟨0, 0⟩

end Throughput

/-! ### What the events say -/

/-- The receive events at level `AGT`. -/
def received (events : List TraceEvent) : List TraceEvent :=
  events.filter fun e => e.type = .recv ∧ e.tracename = .agt

/-- The script's counters agree with the events. -/
def Decodes (events : List TraceEvent) : Prop :=
  (Throughput.run (events.map TraceEvent.format)).recvdNum = (received events).length ∧
    (Throughput.run (events.map TraceEvent.format)).recvdSize =
      ((received events).map fun e => (e.p.cmn.size : ℚ)).sum

namespace TraceEvent

variable (e : TraceEvent)

/-- Lines of `newtrace` with other words at the place of the size: those with an
SMAC part, and those without IP part. -/
def Misread : Prop :=
  e.macType = "Mac/SMAC".toList ∨ e.p.cmn.ptype = ptMac ∨ e.p.cmn.ptype = ptSmac ∨
    e.p.cmn.ptype = ptArp

instance : Decidable e.Misread := inferInstanceAs (Decidable (_ ∨ _ ∨ _ ∨ _))

/-- The number the script reads at the place of the size in a line of `newtrace`. -/
def sizeField : ℤ :=
  if e.macType = "Mac/SMAC".toList ∨ e.p.cmn.ptype = ptMac ∨ e.p.cmn.ptype = ptSmac then 0
  else if e.p.cmn.ptype = ptArp then e.p.arp.arpSpa
  else e.p.cmn.size

theorem sizeField_of_not_misread (read : ¬ e.Misread) : e.sizeField = e.p.cmn.size := by
  obtain ⟨smac, mac, smacType, arp⟩ : e.macType ≠ "Mac/SMAC".toList ∧ e.p.cmn.ptype ≠ ptMac ∧
      e.p.cmn.ptype ≠ ptSmac ∧ e.p.cmn.ptype ≠ ptArp := by
    simpa only [Misread, not_or] using read
  rw [sizeField, if_neg (not_or.mpr ⟨smac, not_or.mpr ⟨mac, smacType⟩⟩), if_neg arp]

theorem op_eq_r_iff : e.op = 'r' ↔ e.type = .recv := by
  unfold op
  split
  next forwarded =>
    simp [forwarded.2.1]
  next => cases e.type <;> simp [TraceType.char]

theorem newOp_eq_r_iff : e.newOp = 'r' ↔ e.type = .recv := by
  rw [← op_eq_r_iff, newOp]
  split
  next dropped => simp [dropped]
  next => rfl

theorem tracename_eq_agt_iff : e.tracename.name.toList = "AGT".toList ↔ e.tracename = .agt := by
  cases e.tracename <;> decide

/-! ### The fields of a line -/

theorem words_default (newtrace : e.newtrace = false) :
    ∃ rest, Text.words e.format =
      [e.op] :: Printf.ofRat 9 e.clock :: ('_' :: (Text.ofInt e.src ++ ['_'])) ::
        e.tracename.name.toList :: e.why.toList :: Text.ofInt e.p.cmn.uid :: rest := by
  have line : ∃ back, e.format = e.formatCommon ++ back := by
    rw [format, formatMacCommon, if_neg (by rw [newtrace]; decide)]
    split
    next => exact ⟨_, List.append_assoc _ _ _⟩
    next =>
      rw [List.append_assoc, List.append_assoc]
      exact ⟨_, rfl⟩
  obtain ⟨back, isLine⟩ := line
  rw [isLine]
  exact e.words_formatCommon back

/-- The part of a line behind the beginning, in the format of `newtrace`. -/
def newRest : Text :=
  (if e.macType = "Mac/SMAC".toList then e.formatSmac else e.formatMac) ++
    if e.p.cmn.ptype = ptMac ∨ e.p.cmn.ptype = ptSmac then []
    else if e.p.cmn.ptype = ptArp then e.formatArp
    else e.formatIp ++ e.formatBody

theorem words_new (newtrace : e.newtrace = true) :
    Text.words e.format =
      [e.newOp] :: "-t".toList :: (e.places ++ e.tracename.name.toList :: "-Nw".toList ::
        e.why.toList :: Text.words e.newRest) := by
  rw [← words_formatNewCommon, format, formatMacCommon, if_pos newtrace, List.append_assoc]
  rfl

/-- The word at the place of the size. -/
theorem fieldNumber_newRest (newtrace : e.newtrace = true) :
    Awk.fieldNumber (Text.words e.newRest)[15]? = e.sizeField := by
  obtain ⟨source, dest, rest, ip⟩ := e.words_formatIp newtrace e.formatBody
  obtain ⟨op, arp⟩ := e.words_formatArp newtrace
  by_cases smac : e.macType = "Mac/SMAC".toList
  · rw [sizeField, if_pos (Or.inl smac), newRest, if_pos smac, words_formatSmac]
    split
    next => rfl
    next =>
      split
      next =>
        rw [arp]
        rfl
      next =>
        have label : Awk.number "-Iv".toList = 0 := by decide +kernel
        rw [ip, Int.cast_zero]
        exact label
  · rw [newRest, if_neg smac, words_formatMac e newtrace]
    by_cases frame : e.p.cmn.ptype = ptMac ∨ e.p.cmn.ptype = ptSmac
    · rw [if_pos frame, sizeField, if_pos (Or.inr frame)]
      rfl
    · rw [if_neg frame, sizeField, if_neg (not_or.mpr ⟨smac, frame⟩)]
      split
      next =>
        rw [arp]
        exact Awk.number_ofInt e.p.arp.arpSpa
      next =>
        rw [ip]
        exact Awk.number_ofInt e.p.cmn.size

end TraceEvent

/-! ### The main rule -/

namespace Throughput

theorem mainRule_default (s : Throughput) {e : TraceEvent} (newtrace : e.newtrace = false) :
    mainRule s e.format =
      if e.type = .recv then
        { recvdSize := s.recvdSize + (e.p.cmn.uid : ℤ), recvdNum := s.recvdNum + 1 }
      else s := by
  obtain ⟨rest, words⟩ := e.words_default newtrace
  have first : Awk.field e.format 1 = some [e.op] := by
    rw [Awk.field, words]
    rfl
  have second : Awk.field e.format 2 ≠ some "-t".toList := by
    rw [Awk.field, words]
    intro same
    have isTime : Printf.ofRat 9 e.clock = "-t".toList := Option.some.inj same
    have letter : 't' ∈ Printf.ofRat 9 e.clock := by
      rw [isTime]
      decide
    rcases Printf.mem_ofRat letter with digit | minus | point
    · exact absurd digit (by decide)
    · exact absurd minus (by decide)
    · exact absurd point (by decide)
  have sixth : Awk.field e.format 6 = some (Text.ofInt e.p.cmn.uid) := by
    rw [Awk.field, words]
    rfl
  have event : some [e.op] = some "r".toList ↔ e.type = .recv := by
    rw [← e.op_eq_r_iff]
    simp
  rw [mainRule, if_pos second]
  simp only [first, sixth, true_and, event, Awk.fieldNumber, Awk.number_ofInt]

theorem mainRule_new (s : Throughput) {e : TraceEvent} (newtrace : e.newtrace = true) :
    mainRule s e.format =
      if e.type = .recv ∧ e.tracename = .agt then
        { recvdSize := s.recvdSize + e.sizeField, recvdNum := s.recvdNum + 1 }
      else s := by
  have words := e.words_new newtrace
  have first : Awk.field e.format 1 = some [e.newOp] := by
    rw [Awk.field, words]
    rfl
  have second : Awk.field e.format 2 = some "-t".toList := by
    rw [Awk.field, words]
    rfl
  have nineteenth : Awk.field e.format 19 = some e.tracename.name.toList := by
    rw [Awk.field, words]
    rfl
  have size : Awk.fieldNumber (Awk.field e.format 37) = e.sizeField := by
    rw [← e.fieldNumber_newRest newtrace, Awk.field, words]
    rfl
  have event : some [e.newOp] = some "r".toList ↔ e.type = .recv := by
    rw [← e.newOp_eq_r_iff]
    simp
  have level : some e.tracename.name.toList = some "AGT".toList ↔ e.tracename = .agt := by
    rw [Option.some.injEq, e.tracename_eq_agt_iff]
  rw [mainRule, if_neg (not_not.mpr second)]
  simp only [first, nineteenth, size, event, level, and_comm]

/-- A rule that counts the events of one kind. -/
theorem foldl_count (chosen : TraceEvent → Prop) [DecidablePred chosen] (size : TraceEvent → ℚ)
    {events : List TraceEvent}
    (rule : ∀ s, ∀ e ∈ events, mainRule s e.format =
      if chosen e then { recvdSize := s.recvdSize + size e, recvdNum := s.recvdNum + 1 } else s) :
    run (events.map TraceEvent.format) =
      { recvdSize := ((events.filter (chosen ·)).map size).sum
        recvdNum := (events.filter (chosen ·)).length } := by
  unfold run
  induction events using List.reverseRecOn with
  | nil => rfl
  | append_singleton events e inductionHypothesis =>
      have earlier := inductionHypothesis fun s e member =>
        rule s e (List.mem_append_left _ member)
      rw [List.map_append, List.foldl_append, earlier, List.map_singleton, List.foldl_cons,
        List.foldl_nil, rule _ e (by simp), List.filter_append]
      by_cases isChosen : chosen e
      · simp [isChosen]
      · simp [isChosen]

end Throughput

theorem length_received_iff (events : List TraceEvent) :
    (events.filter fun e => e.type = .recv).length = (received events).length ↔
      ∀ e ∈ events, e.type = .recv → e.tracename = .agt := by
  have split : received events =
      (events.filter fun e => e.type = .recv).filter fun e => e.tracename = .agt := by
    simp [received, List.filter_filter, Bool.and_comm]
  rw [split, eq_comm, List.length_filter_eq_length_iff]
  simp

theorem sum_map_cast (events : List TraceEvent) (size : TraceEvent → ℤ) :
    (events.map fun e => (size e : ℚ)).sum = ((events.map size).sum : ℤ) := by
  induction events with
  | nil => rfl
  | cons e events inductionHypothesis => simp [inductionHypothesis]

/-- Only misread lines make a difference. -/
theorem sum_sizeField_sub (events : List TraceEvent) :
    (events.map TraceEvent.sizeField).sum - (events.map fun e => e.p.cmn.size).sum =
      ((events.filter (·.Misread)).map TraceEvent.sizeField).sum -
        ((events.filter (·.Misread)).map fun e => e.p.cmn.size).sum := by
  induction events with
  | nil => rfl
  | cons e events inductionHypothesis =>
      by_cases misread : e.Misread
      · simp only [List.map_cons, List.sum_cons, List.filter_cons, misread, decide_true, if_true]
        omega
      · simp only [List.map_cons, List.sum_cons, List.filter_cons, misread, decide_false,
          Bool.false_eq_true, if_false, e.sizeField_of_not_misread misread]
        omega

/-- When the script decodes the trace.  In the default format it takes the uid for
the size and any level for `AGT`; in the format of `newtrace` it misreads the
lines that have an SMAC part or no IP part. -/
theorem decodes_iff (events : List TraceEvent) :
    ((∀ e ∈ events, e.newtrace = false) →
      (Decodes events ↔
        (∀ e ∈ events, e.type = .recv → e.tracename = .agt) ∧
          ((received events).map fun e => (e.p.cmn.uid : ℤ)).sum =
            ((received events).map fun e => e.p.cmn.size).sum)) ∧
    ((∀ e ∈ events, e.newtrace = true) →
      (Decodes events ↔
        (((received events).filter (·.Misread)).map TraceEvent.sizeField).sum =
          (((received events).filter (·.Misread)).map fun e => e.p.cmn.size).sum)) := by
  constructor
  · intro newtrace
    have run := Throughput.foldl_count (fun e => e.type = .recv)
      (fun e => ((e.p.cmn.uid : ℤ) : ℚ))
      fun s e member => Throughput.mainRule_default s (newtrace e member)
    rw [Decodes, run, length_received_iff]
    apply and_congr_right
    intro atAgent
    have all : events.filter (fun e => e.type = .recv) = received events := by
      apply List.filter_congr
      intro e member
      simpa using atAgent e member
    rw [all, sum_map_cast, sum_map_cast, Int.cast_inj]
  · intro newtrace
    have run : Throughput.run (events.map TraceEvent.format) =
        { recvdSize := ((received events).map fun e => (e.sizeField : ℚ)).sum
          recvdNum := (received events).length } :=
      Throughput.foldl_count (fun e => e.type = .recv ∧ e.tracename = .agt)
        (fun e => (e.sizeField : ℚ))
        fun s e member => Throughput.mainRule_new s (newtrace e member)
    have difference := sum_sizeField_sub (received events)
    rw [Decodes, run, sum_map_cast, sum_map_cast, Int.cast_inj, eq_self, true_and]
    constructor <;> intro equal <;> omega

/-- A packet of `size` bytes, the seventh of the run, at a trace object. -/
def dataEvent (type : TraceType) (tracename : TraceName) (newtrace : Bool) (ptype : PacketT)
    (size : ℤ) (known : ptype ≤ ptNtype) : TraceEvent where
  type := type
  tracename := tracename
  src := 0
  newtrace := newtrace
  clock := 3 / 2
  macType := "Mac/802_11".toList
  getNodeaddr := id
  x := 0
  y := 0
  z := 0
  energyModel := none
  p :=
    { cmn := ⟨ptype, size, 7, 0, .down, 1, 1, 0⟩
      optNumForwards := 0
      ip := ⟨2, 0, 0, 0, 30⟩
      flowid := 0
      mac := ⟨.other, 0, 0, 0, 2048⟩
      smac := ⟨.other, 0, 0, 0⟩
      arp := ⟨true, 0, 0, 0, 0⟩
      sr := ⟨0, 0, 0, 0, 0, fun _ => 0, 0, 0, fun _ => ⟨0, 0, 0⟩⟩
      tcp := ⟨0, 0⟩
      sctp := []
      rtpSeqno := 0
      imep := ⟨false, false, false, 0⟩
      tora := .other
      aodv := .request 0 0 0 0 0 0 0
      aomdv := .request 0 0 0 0 0 0 0
      ant := ⟨0, 0, 0, 0, 0, 0, [], 0⟩ }
  ptype_le := known
  why := "---"
  why_known := Or.inl rfl

/-- A packet of 512 bytes received by an agent, in the format of `newtrace`. -/
theorem decodes_iff_cbr : Decodes [dataEvent .recv .agt true ptCbr 512 (by decide)] :=
  ((decodes_iff [dataEvent .recv .agt true ptCbr 512 (by decide)]).2
    (by simp [dataEvent])).mpr (by decide +kernel)

/-- In the default format its size is taken to be its number. -/
theorem not_decodes_default :
    ¬ ∀ events : List TraceEvent, ((∀ e ∈ events, e.newtrace = false) ∨
      ∀ e ∈ events, e.newtrace = true) → Decodes events := by
  intro decodes
  have sizes := (decodes [dataEvent .recv .agt false ptCbr 512 (by decide)]
    (Or.inl (by simp [dataEvent]))).2
  revert sizes
  decide +kernel

end AntAodv
