import AntAodv.Library.Awk
import AntAodv.Library.Perl
import Mathlib.Tactic.Ring

/-!
# The delay script in Perl

`Delay.pl`: for every line of a packet sent it scans the file on for the line of its
reception, then seeks back behind the line it came from.  Scalars used as numbers only
are numbers, exact ones.
-/

namespace AntAodv

/-- The variables of the script, with the delays it printed and all values that
`$file_position` was given, oldest first. -/
structure DelayPl where
  /-- The position of `DATA`. -/
  position : ℕ
  x : List Text
  enqueueTime : ℚ
  receiveTime : ℚ
  packetId : ℚ
  delay : ℚ
  totalReceiveCount : ℕ
  sumOfDelay : ℚ
  filePosition : ℕ
  printed : List ℚ
  visited : List ℕ

namespace DelayPl

/-- The variables after the file is opened. -/
def start : DelayPl := ⟨0, [], 0, 0, 0, 0, 0, 0, 0, [], []⟩

/-- A line `s` of the agent. -/
def IsSend (x : List Text) : Prop := x[0]? = some "s".toList ∧ x[3]? = some "AGT".toList

/-- A line `r` of the agent. -/
def IsReceive (x : List Text) : Prop := x[0]? = some "r".toList ∧ x[3]? = some "AGT".toList

instance : DecidablePred IsSend := fun x => inferInstanceAs (Decidable (x[0]? = _ ∧ x[3]? = _))
instance : DecidablePred IsReceive := fun x => inferInstanceAs (Decidable (x[0]? = _ ∧ x[3]? = _))

/-- The inner loop, with fuel: it ends behind the first line that matches, or at the
end of the file. -/
def innerLoop (file : Text) : ℕ → DelayPl → Option DelayPl
  | 0, _ => none
  | fuel + 1, s =>
      match Perl.readLine file s.position with
      | none => some s
      | some (line, position) =>
          let s := { s with position, x := Perl.split line }
          if IsReceive s.x ∧ Awk.fieldNumber s.x[5]? = s.packetId then
            let receiveTime := Awk.fieldNumber s.x[1]?
            let delay := receiveTime - s.enqueueTime
            some { s with
              receiveTime
              totalReceiveCount := s.totalReceiveCount + 1
              sumOfDelay := s.sumOfDelay + delay
              delay := delay * 1000
              printed := s.printed ++ [delay * 1000] }
          else innerLoop file fuel s

/-- The outer loop, with fuel. -/
def outerLoop (file : Text) : ℕ → DelayPl → Option DelayPl
  | 0, _ => none
  | fuel + 1, s =>
      match Perl.readLine file s.position with
      | none => some s
      | some (line, position) =>
          let s := { s with position, x := Perl.split line }
          if IsSend s.x then do
            let s ← innerLoop file fuel { s with
              filePosition := s.position
              enqueueTime := Awk.fieldNumber s.x[1]?
              packetId := Awk.fieldNumber s.x[5]?
              visited := s.visited ++ [s.position] }
            outerLoop file fuel { s with position := s.filePosition }
          else outerLoop file fuel s

/-- What is printed in the end; without a packet received there is no average. -/
structure Report where
  simulationTime : Option Text
  totalReceiveCount : ℕ
  averageDelay : Option ℚ

def report (s : DelayPl) : Report where
  simulationTime := s.x[1]?
  totalReceiveCount := s.totalReceiveCount
  averageDelay := if s.totalReceiveCount ≠ 0 then
      some (s.sumOfDelay / s.totalReceiveCount * 1000)
    else none

/-! ### What the file says -/

def time (line : Text) : ℚ := Awk.fieldNumber (Perl.split line)[1]?

def packet (line : Text) : ℚ := Awk.fieldNumber (Perl.split line)[5]?

/-- The first of the lines that receives the packet. -/
def reception (id : ℚ) (later : List Text) : Option Text :=
  later.find? fun line => IsReceive (Perl.split line) ∧ packet line = id

/-- A send line at the front of lines, with the line of its reception. -/
def delivery : List Text → Option (Text × Text)
  | [] => none
  | line :: later =>
      if IsSend (Perl.split line) then (reception (packet line) later).map (line, ·) else none

/-- All send lines that are followed by a reception, each with the first one. -/
def deliveries (lines : List Text) : List (Text × Text) := lines.tails.filterMap delivery

/-- The time from a send line to its reception. -/
def delayOf (pair : Text × Text) : ℚ := time pair.2 - time pair.1

/-- The positions behind the send lines. -/
def sendEnds (position : ℕ) (lines : List Text) : List ℕ :=
  ((Perl.ends position lines).filter fun place => IsSend (Perl.split place.2)).map Prod.fst

@[simp]
theorem deliveries_nil : deliveries [] = [] := rfl

theorem deliveries_cons (line : Text) (later : List Text) :
    deliveries (line :: later) = (delivery (line :: later)).toList ++ deliveries later := by
  unfold deliveries
  rw [List.tails_cons, List.filterMap_cons]
  cases delivery (line :: later) <;> rfl

/-! ### The inner loop -/

/-- The variables with a line read. -/
def behind (line : Text) (s : DelayPl) : DelayPl :=
  { s with position := s.position + line.length, x := Perl.split line }

/-- The variables with a send line read, as the inner loop finds them. -/
def marked (line : Text) (s : DelayPl) : DelayPl :=
  { s.behind line with
    filePosition := s.position + line.length
    enqueueTime := time line
    packetId := packet line
    visited := s.visited ++ [s.position + line.length] }

/-- What the inner loop does to the variables, with the lines `rest` left. -/
structure Matched (rest : List Text) (s s' : DelayPl) : Prop where
  filePosition : s'.filePosition = s.filePosition
  visited : s'.visited = s.visited
  totalReceiveCount : s'.totalReceiveCount =
    s.totalReceiveCount + (reception s.packetId rest).toList.length
  sumOfDelay : s'.sumOfDelay =
    s.sumOfDelay + ((reception s.packetId rest).toList.map (time · - s.enqueueTime)).sum
  printed : s'.printed = s.printed ++
    (reception s.packetId rest).toList.map fun line => (time line - s.enqueueTime) * 1000
  /-- At the end of the file no line is read. -/
  x : rest = [] → s'.x = s.x

theorem innerLoop_ends {file : Text} {rest : List Text} {fuel : ℕ} {s : DelayPl}
    (left : Text.lines (file.drop s.position) = rest) (enough : rest.length < fuel) :
    ∃ s', innerLoop file fuel s = some s' ∧ Matched rest s s' := by
  induction rest generalizing fuel s with
  | nil =>
      obtain ⟨fuel, rfl⟩ := Nat.exists_eq_succ_of_ne_zero (Nat.ne_of_gt enough)
      refine ⟨s, ?_, rfl, rfl, rfl, ?_, ?_, fun _ => rfl⟩
      · rw [innerLoop, Perl.readLine_end left]
      · simp [reception]
      · simp [reception]
  | cons line rest inductionHypothesis =>
      obtain ⟨fuel, rfl⟩ := Nat.exists_eq_succ_of_ne_zero (Nat.ne_zero_of_lt enough)
      obtain ⟨read, leftNext⟩ := Perl.readLine_next left
      rw [innerLoop, read]
      by_cases matched : IsReceive (Perl.split line) ∧ packet line = s.packetId
      · have found : reception s.packetId (line :: rest) = some line := by
          simp [reception, matched]
        refine ⟨_, if_pos matched, rfl, rfl, ?_, ?_, ?_, ?_⟩
        · simp [found]
        · simp [found, time]
        · simp [found, time]
        · intro none
          cases none
      · have further : reception s.packetId (line :: rest) = reception s.packetId rest := by
          simp [reception, matched]
        obtain ⟨s', run, same⟩ := inductionHypothesis (s := s.behind line) leftNext
          (Nat.lt_of_succ_lt_succ enough)
        refine ⟨s', (if_neg matched).trans run, same.filePosition, same.visited, ?_, ?_, ?_, ?_⟩
        · rw [further]
          exact same.totalReceiveCount
        · rw [further]
          exact same.sumOfDelay
        · rw [further]
          exact same.printed
        · intro none
          cases none

/-! ### The outer loop -/

/-- What the outer loop does to the variables, with the lines `rest` left. -/
structure Scanned (rest : List Text) (s s' : DelayPl) : Prop where
  totalReceiveCount : s'.totalReceiveCount = s.totalReceiveCount + (deliveries rest).length
  sumOfDelay : s'.sumOfDelay = s.sumOfDelay + ((deliveries rest).map delayOf).sum
  printed : s'.printed = s.printed ++ (deliveries rest).map fun pair => delayOf pair * 1000
  visited : s'.visited = s.visited ++ sendEnds s.position rest
  x : s'.x = (rest.getLast?.map Perl.split).getD s.x

theorem getLast?_cons_split (line : Text) (rest : List Text) (x : List Text) :
    ((line :: rest).getLast?.map Perl.split).getD x =
      (rest.getLast?.map Perl.split).getD (Perl.split line) := by
  cases rest with
  | nil => rfl
  | cons next rest => simp [List.getLast?_eq_getLast_of_ne_nil]

/-- A line that is not a send line is passed over. -/
theorem Scanned.skip {line : Text} {rest : List Text} {s s' : DelayPl}
    (skipped : ¬ IsSend (Perl.split line))
    (scanned : Scanned rest (s.behind line) s') : Scanned (line :: rest) s s' := by
  rw [behind] at scanned
  have none : delivery (line :: rest) = none := if_neg skipped
  have same : deliveries (line :: rest) = deliveries rest := by
    rw [deliveries_cons, none, Option.toList_none, List.nil_append]
  refine ⟨?_, ?_, ?_, ?_, ?_⟩
  · rw [same, scanned.totalReceiveCount]
  · rw [same, scanned.sumOfDelay]
  · rw [same, scanned.printed]
  · rw [scanned.visited, sendEnds, sendEnds, Perl.ends, List.filter_cons_of_neg (by simpa)]
  · rw [scanned.x, getLast?_cons_split]

/-- A send line: the inner loop from behind it, and the outer loop from there again. -/
theorem Scanned.send {line : Text} {rest : List Text} {s middle s' : DelayPl}
    (isSend : IsSend (Perl.split line))
    (matched : Matched rest (s.marked line) middle)
    (scanned : Scanned rest { middle with position := middle.filePosition } s') :
    Scanned (line :: rest) s s' := by
  rw [marked, behind] at matched
  have pair : delivery (line :: rest) = (reception (packet line) rest).map (line, ·) :=
    if_pos isSend
  refine ⟨?_, ?_, ?_, ?_, ?_⟩
  · rw [scanned.totalReceiveCount, matched.totalReceiveCount, deliveries_cons, pair]
    cases reception (packet line) rest with
    | none => simp
    | some received => simp [add_assoc, add_comm 1]
  · rw [scanned.sumOfDelay, matched.sumOfDelay, deliveries_cons, pair]
    cases reception (packet line) rest <;> simp [add_assoc, delayOf]
  · rw [scanned.printed, matched.printed, deliveries_cons, pair]
    cases reception (packet line) rest <;> simp [delayOf]
  · rw [scanned.visited, matched.visited, matched.filePosition, sendEnds, sendEnds, Perl.ends,
      List.filter_cons_of_pos (by simpa), List.map_cons, List.append_assoc,
      List.singleton_append]
  · rw [scanned.x, getLast?_cons_split]
    cases rest with
    | nil => exact matched.x rfl
    | cons next rest => simp [List.getLast?_eq_getLast_of_ne_nil]

theorem outerLoop_ends {file : Text} {rest : List Text} {fuel : ℕ} {s : DelayPl}
    (left : Text.lines (file.drop s.position) = rest) (enough : rest.length < fuel) :
    ∃ s', outerLoop file fuel s = some s' ∧ Scanned rest s s' := by
  induction rest generalizing fuel s with
  | nil =>
      obtain ⟨fuel, rfl⟩ := Nat.exists_eq_succ_of_ne_zero (Nat.ne_of_gt enough)
      refine ⟨s, ?_, rfl, ?_, ?_, ?_, rfl⟩
      · rw [outerLoop, Perl.readLine_end left]
      · simp
      · simp
      · simp [sendEnds, Perl.ends]
  | cons line rest inductionHypothesis =>
      obtain ⟨fuel, rfl⟩ := Nat.exists_eq_succ_of_ne_zero (Nat.ne_zero_of_lt enough)
      obtain ⟨read, leftNext⟩ := Perl.readLine_next left
      have enoughNext : rest.length < fuel := Nat.lt_of_succ_lt_succ enough
      rw [outerLoop, read]
      by_cases isSend : IsSend (Perl.split line)
      · obtain ⟨middle, inner, matched⟩ :=
          innerLoop_ends (s := s.marked line) leftNext enoughNext
        -- back at the position behind the send line the same lines are left
        have leftAgain : Text.lines (file.drop middle.filePosition) = rest := by
          rw [matched.filePosition]
          exact leftNext
        obtain ⟨s', outer, scanned⟩ := inductionHypothesis
          (s := { middle with position := middle.filePosition }) leftAgain enoughNext
        refine ⟨s', (if_pos isSend).trans ?_, Scanned.send isSend matched scanned⟩
        exact Option.bind_eq_some_iff.mpr ⟨middle, inner, outer⟩
      · obtain ⟨s', outer, scanned⟩ :=
          inductionHypothesis (s := s.behind line) leftNext enoughNext
        exact ⟨s', (if_neg isSend).trans outer, Scanned.skip isSend scanned⟩

/-- The loop ends on every file.  It has received every send line that is followed by
a reception, with the time to the first one, it has been at every send line once, in
order, and the simulation time is that of the last line. -/
theorem outerLoop_scans (file : Text) (extra : ℕ) :
    ∃ s, outerLoop file (file.length + 1 + extra) start = some s ∧
      s.totalReceiveCount = (deliveries (Text.lines file)).length ∧
      s.sumOfDelay = ((deliveries (Text.lines file)).map delayOf).sum ∧
      s.visited = sendEnds 0 (Text.lines file) ∧ s.visited.Pairwise (· < ·) ∧
      s.report.simulationTime =
        (Text.lines file).getLast?.bind fun line => (Perl.split line)[1]? := by
  have enough : (Text.lines file).length < file.length + 1 + extra := by
    have fewer := Text.length_lines_le file
    omega
  have left : Text.lines (file.drop start.position) = Text.lines file := rfl
  obtain ⟨s, run, scanned⟩ := outerLoop_ends left enough
  refine ⟨s, run, ?_, ?_, scanned.visited, ?_, ?_⟩
  · rw [scanned.totalReceiveCount]
    exact Nat.zero_add _
  · rw [scanned.sumOfDelay]
    exact zero_add _
  · rw [scanned.visited]
    apply List.pairwise_map.mpr
    apply List.Pairwise.filter
    exact Perl.pairwise_ends (fun line => Text.ne_nil_of_mem_lines) 0
  · rw [report, scanned.x]
    cases (Text.lines file).getLast? <;> rfl

end DelayPl

end AntAodv
