import AntAodv.CmuTrace.Patterns
import AntAodv.Library.Numerals
import AntAodv.Scripts.Throughput

/-!
# The lines of ants

What a line of the default format tells of an ant: `format_antnet` behind the parts that all
lines have.
-/

namespace AntAodv

open Printf

/-- What is written about an ant, besides the time and the states of MAC and energy. -/
structure AntRecord where
  op : Char
  node : ℤ
  level : TraceName
  reason : String
  uid : ℕ
  size : ℤ
  source : ℤ
  sport : ℤ
  dest : ℤ
  dport : ℤ
  ttl : ℤ
  nextHop : ℤ
  pktSrc : ℤ
  pktSeqNum : ℕ
  pktLen : ℕ

namespace TraceEvent

def antRecord (e : TraceEvent) : AntRecord where
  op := e.op
  node := e.src
  level := e.tracename
  reason := e.why
  uid := e.p.cmn.uid
  size := e.p.cmn.size
  source := e.getNodeaddr e.p.ip.saddr
  sport := e.p.ip.sport
  dest := e.getNodeaddr e.p.ip.daddr
  dport := e.p.ip.dport
  ttl := e.p.ip.ttl
  nextHop := if e.p.cmn.nextHop < 0 then 0 else e.p.cmn.nextHop
  pktSrc := e.p.ant.pktSrc
  pktSeqNum := e.p.ant.pktSeqNum.toNat
  pktLen := e.p.ant.pktLen.toNat

variable {e e' : TraceEvent}

/-- The words in front of the MAC part. -/
def frontWords (e : TraceEvent) : List Text :=
  [[e.op], ofRat 9 e.clock, '_' :: (Text.ofInt e.src ++ ['_']), e.tracename.name.toList,
    e.why.toList, Text.ofInt e.p.cmn.uid, e.typeName, Text.ofInt e.p.cmn.size]

/-- The words of the IP part and the part of the ant. -/
def antWords (e : TraceEvent) : List Text :=
  ["-------".toList,
    '[' :: (Text.ofInt (e.getNodeaddr e.p.ip.saddr) ++ ':' :: Text.ofInt e.p.ip.sport),
    Text.ofInt (e.getNodeaddr e.p.ip.daddr) ++ ':' :: Text.ofInt e.p.ip.dport,
    Text.ofInt e.p.ip.ttl,
    Text.ofInt (if e.p.cmn.nextHop < 0 then 0 else e.p.cmn.nextHop) ++ [']'],
    "[ant".toList, Text.ofInt e.p.ant.pktSrc, Text.ofInt e.p.ant.pktSeqNum.toNat,
    Text.ofInt e.p.ant.pktLen.toNat ++ [']']]

theorem solid_typeName : Text.Solid e.typeName := by
  have frames : ∀ frame : MacFrame, Text.Solid frame.name.toList := by
    intro frame
    cases frame <;> decide
  have types : ∀ type : SmacType, Text.Solid type.name.toList := by
    intro type
    cases type <;> decide
  unfold typeName
  split_ifs
  · exact frames _
  · exact types _
  · exact e.solid_name

/-- The name of the packet type tells an ant from every other packet. -/
theorem typeName_eq_ant_iff : e.typeName = "Ant".toList ↔ e.p.cmn.ptype = ptAnt := by
  have names : ∀ p < ptNtype + 1, packetName p = "Ant".toList ↔ p = ptAnt := by decide
  have frames : ∀ frame : MacFrame, frame.name.toList ≠ "Ant".toList := by
    intro frame
    cases frame <;> decide
  have types : ∀ type : SmacType, type.name.toList ≠ "Ant".toList := by
    intro type
    cases type <;> decide
  unfold typeName
  split_ifs with mac smac
  · rw [mac]
    exact iff_of_false (frames _) (by decide)
  · rw [smac]
    exact iff_of_false (types _) (by decide)
  · exact names _ (Nat.lt_succ_of_le e.ptype_le)

theorem tail_eq_of_ant (newtrace : e.newtrace = false) (ant : e.p.cmn.ptype = ptAnt) :
    e.tail = Text.followed e.antWords [] := by
  rw [tail, if_neg (by rw [ant]; decide), if_neg (by rw [ant]; decide), formatBody,
    if_neg (by rw [ant]; decide), if_pos ant]
  simp [formatIp, formatAntnet, newtrace, sprintf, parse, render, convert, Text.followed, antWords]

theorem solid_antWords : ∀ t ∈ e.antWords, Text.Solid t := by
  have bracket : Text.Solid ['['] := by decide
  have pair : ∀ m n : ℤ, Text.Solid (Text.ofInt m ++ ':' :: Text.ofInt n) := fun m n =>
    (solid_ofInt m).append (List.forall_mem_cons.mpr ⟨rfl, (solid_ofInt n).blankless⟩)
  have closed : ∀ n : ℤ, Text.Solid (Text.ofInt n ++ [']']) := fun n =>
    (solid_ofInt n).append (by decide)
  simp only [antWords, List.forall_mem_cons, solid_ofInt, pair, closed, true_and]
  exact ⟨by decide, bracket.append (pair _ _).blankless, by decide, List.forall_mem_nil _⟩

/-- The words of a line in front of the MAC part and behind it. -/
theorem words_default_front (newtrace : e.newtrace = false) :
    Text.words e.format = e.frontWords ++ (e.behind.flatMap Text.words ++ Text.words e.tail) := by
  have why : Text.words (padLeft ' ' 4 e.why.toList) = [e.why.toList] := by
    have padded := words_padLeft_append 4 e.why.toList []
    rwa [List.append_nil, List.append_nil, e.solid_why.words_eq] at padded
  rw [format_eq e newtrace, Text.words_followed_eq_flatMap, List.flatMap_append, List.append_assoc]
  congr 1
  simp [commonWords, frontWords, why, e.solid_op.words_eq, (solid_ofRat _ _).words_eq,
    e.solid_node.words_eq, e.tracename.solid.words_eq, (solid_ofInt _).words_eq,
    solid_typeName.words_eq]

/-- The words of the line of an ant. -/
theorem words_ant (newtrace : e.newtrace = false) (ant : e.p.cmn.ptype = ptAnt) :
    Text.words e.format = e.frontWords ++ (e.behind.flatMap Text.words ++ e.antWords) := by
  rw [words_default_front newtrace, tail_eq_of_ant newtrace ant, Text.words_followed solid_antWords,
    Text.words_nil, List.append_nil]

theorem ofInt_inj {m n : ℤ} (same : Text.ofInt m = Text.ofInt n) : m = n := by
  have read := congrArg Awk.number same
  rwa [Awk.number_ofInt, Awk.number_ofInt, Int.cast_inj] at read

theorem ofInt_natCast_inj {m n : ℕ} (same : Text.ofInt m = Text.ofInt n) : m = n :=
  Int.ofNat_inj.mp (ofInt_inj same)

/-- Two numerals with a mark between them. -/
theorem ofInt_pair_inj {m n m' n' : ℤ}
    (same : Text.ofInt m ++ ':' :: Text.ofInt n = Text.ofInt m' ++ ':' :: Text.ofInt n') :
    m = m' ∧ n = n' := by
  have foreign : Foreign ':' := by decide
  have parts := (List.append_cons_inj_of_notMem (foreign.notMem_ofInt m)
    (foreign.notMem_ofInt n)).mp same
  exact ⟨ofInt_inj parts.1, ofInt_inj parts.2.2⟩

theorem tracename_inj {t t' : TraceName} (same : t.name.toList = t'.name.toList) : t = t' := by
  revert same
  cases t <;> cases t' <;> decide

theorem frontWords_inj (same : e.frontWords = e'.frontWords) :
    e.op = e'.op ∧ ofRat 9 e.clock = ofRat 9 e'.clock ∧ e.src = e'.src ∧
      e.tracename = e'.tracename ∧ e.why = e'.why ∧ e.p.cmn.uid = e'.p.cmn.uid ∧
      e.typeName = e'.typeName ∧ e.p.cmn.size = e'.p.cmn.size := by
  simp only [frontWords, List.cons.injEq, and_true, true_and, List.append_cancel_right_eq] at same
  obtain ⟨op, clock, node, level, why, uid, name, size⟩ := same
  exact ⟨op, clock, ofInt_inj node, tracename_inj level, String.toList_inj.mp why,
    ofInt_natCast_inj uid, name, ofInt_inj size⟩

theorem antWords_inj (same : e.antWords = e'.antWords) :
    (e.getNodeaddr e.p.ip.saddr = e'.getNodeaddr e'.p.ip.saddr ∧ e.p.ip.sport = e'.p.ip.sport) ∧
      (e.getNodeaddr e.p.ip.daddr = e'.getNodeaddr e'.p.ip.daddr ∧
        e.p.ip.dport = e'.p.ip.dport) ∧
      e.p.ip.ttl = e'.p.ip.ttl ∧
      (if e.p.cmn.nextHop < 0 then 0 else e.p.cmn.nextHop) =
        (if e'.p.cmn.nextHop < 0 then 0 else e'.p.cmn.nextHop) ∧
      e.p.ant.pktSrc = e'.p.ant.pktSrc ∧
      e.p.ant.pktSeqNum.toNat = e'.p.ant.pktSeqNum.toNat ∧
      e.p.ant.pktLen.toNat = e'.p.ant.pktLen.toNat := by
  simp only [antWords, List.cons.injEq, and_true, true_and, List.append_cancel_right_eq] at same
  obtain ⟨source, dest, ttl, nextHop, pktSrc, pktSeqNum, pktLen⟩ := same
  exact ⟨ofInt_pair_inj source, ofInt_pair_inj dest, ofInt_inj ttl, ofInt_inj nextHop,
    ofInt_inj pktSrc, ofInt_natCast_inj pktSeqNum, ofInt_natCast_inj pktLen⟩

end TraceEvent

open TraceEvent in
/-- Nothing of an ant is lost in its line: a line that is the same was written for an ant
too, with the same record and, to a nanosecond, at the same time. -/
theorem antLine_determines {e e' : TraceEvent} (newtrace : e.newtrace = false)
    (newtrace' : e'.newtrace = false) (ant : e.p.cmn.ptype = ptAnt)
    (same : e.format = e'.format) :
    e'.p.cmn.ptype = ptAnt ∧ e.antRecord = e'.antRecord ∧ |e.clock - e'.clock| ≤ 1 / 10 ^ 9 := by
  have words := congrArg Text.words same
  have fronts : e.frontWords = e'.frontWords := by
    rw [words_default_front newtrace, words_default_front newtrace'] at words
    exact (List.append_inj words rfl).1
  obtain ⟨op, clock, node, level, why, uid, name, size⟩ := frontWords_inj fronts
  have ant' : e'.p.cmn.ptype = ptAnt := typeName_eq_ant_iff.mp (name ▸ typeName_eq_ant_iff.mpr ant)
  have ants : e.antWords = e'.antWords := by
    rw [words_ant newtrace ant, words_ant newtrace' ant', ← List.append_assoc,
      ← List.append_assoc] at words
    exact (List.append_inj' words rfl).2
  refine ⟨ant', ?_, ?_⟩
  · obtain ⟨⟨source, sport⟩, ⟨dest, dport⟩, ttl, nextHop, pktSrc, pktSeqNum, pktLen⟩ :=
      antWords_inj ants
    simp only [antRecord, op, node, level, why, uid, size, source, sport, dest, dport, ttl, nextHop,
      pktSrc, pktSeqNum, pktLen]
  · have read := congrArg Awk.number clock
    rw [Awk.number_ofRat (by decide), Awk.number_ofRat (by decide)] at read
    have close := abs_le.mp (abs_printed_sub 9 e.clock)
    have close' := abs_le.mp (abs_printed_sub 9 e'.clock)
    rw [abs_le]
    constructor <;> linarith

/-- Where the node is stays out of the line, and so does a tenth of a nanosecond. -/
theorem antLine_determines_moved :
    let e := dataEvent .send .rtr false ptAnt 36 (by decide)
    let e' := { e with clock := 3 / 2 + 1 / 10 ^ 10, x := 1 }
    e'.p.cmn.ptype = ptAnt ∧ e.antRecord = e'.antRecord ∧ |e.clock - e'.clock| ≤ 1 / 10 ^ 9 :=
  antLine_determines rfl rfl rfl (by decide +kernel)

end AntAodv
