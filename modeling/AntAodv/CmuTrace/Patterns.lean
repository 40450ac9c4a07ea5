import AntAodv.CmuTrace.Fields

/-!
# The patterns in a line

Where a text without blanks can occur in a line of the default format: in the
trace name, the reason, the packet type, or behind the MAC part.
-/

namespace AntAodv

open Printf

/-- What the parts of a line have besides words of letters. -/
def plainChars : Text := " %-_.>[]():/xs0123456789abcdef".toList

/-- A character that is no part of a numeral or of the marks around numerals. -/
structure Plain (c : Char) : Prop where
  foreign : Foreign c
  marks : c ∉ plainChars

instance (c : Char) : Decidable (Plain c) :=
  decidable_of_iff (Foreign c ∧ c ∉ plainChars)
    ⟨fun ⟨foreign, marks⟩ => ⟨foreign, marks⟩, fun plain => ⟨plain.foreign, plain.marks⟩⟩

theorem Plain.notMem {c : Char} (plain : Plain c) {letters : Text} (absent : c ∉ letters)
    {format : String} {args : List Arg}
    (inFormat : ∀ d ∈ format.toList, d ∈ plainChars ++ letters)
    (inArgs : ∀ arg ∈ args, ¬ arg.Brings c) : c ∉ sprintf format args := by
  apply notMem_sprintf plain.foreign _ inArgs
  intro member
  rcases List.mem_append.mp (inFormat c member) with mark | letter
  · exact plain.marks mark
  · exact absent letter

/-- The letters of the default format. -/
def HdrArp.letters (ah : HdrArp) : String := if ah.isRequest then "REQUEST" else "REPLY"

/-- The letters of the default format. -/
def HdrAodv.letters : HdrAodv → String
  | .request .. => "REQUEST"
  | .reply kind .. => kind.name

/-- The letters of the default format. -/
def HdrTora.letters : HdrTora → String
  | .qry .. => "QUERY"
  | .upd .. => "PtaoreicUPDATE"
  | .clr .. => "CLEAR"
  | .other => ""

/-- The letters of the packets that are no ants. -/
def otherLetters : List String :=
  ["", "REQUEST", "REPLY", "ERROR", "HELLO", "QUERY", "PtaoreicUPDATE", "CLEAR", "AHO", "IDSRHB"]

theorem HdrAodv.letters_mem (header : HdrAodv) : header.letters ∈ otherLetters := by
  cases header with
  | request => simp [HdrAodv.letters, otherLetters]
  | reply kind => cases kind <;> simp [HdrAodv.letters, otherLetters, ReplyType.name]

theorem HdrTora.letters_mem (header : HdrTora) : header.letters ∈ otherLetters := by
  cases header <;> simp [HdrTora.letters, otherLetters]

namespace TraceEvent

variable (e : TraceEvent)

/-- The words of the beginning of a line behind the event type, in the default format. -/
def commonWords : List Text :=
  [ofRat 9 e.clock, '_' :: (Text.ofInt e.src ++ ['_']), e.tracename.name.toList,
    padLeft ' ' 4 e.why.toList, Text.ofInt e.p.cmn.uid, e.typeName, Text.ofInt e.p.cmn.size]

/-- The words of the MAC part, in the default format. -/
def macWords : List Text :=
  ['[' :: ofHex e.p.mac.dhDuration, ofHex e.p.mac.dhRa, ofHex e.p.mac.dhTa,
    ofHex e.macEtherType ++ [']']]

/-- The words of the energy part. -/
def energyWords : List Text :=
  match e.energyModel with
  | none => []
  | some model =>
      ["[energy".toList, ofRat 6 model.energy, "ei".toList, ofRat 3 model.ei, "es".toList,
        ofRat 3 model.es, "et".toList, ofRat 3 model.et, "er".toList,
        ofRat 3 model.er ++ [']']]

/-- The words of the MAC part and the energy part, in the default format. -/
def behind : List Text :=
  if e.tracename = .phy then []
  else
    (if "Mac/SMAC".toList <+: e.macType then e.smacWords else e.macWords) ++ e.energyWords

/-- The part of a line behind the MAC part. -/
def tail : Text :=
  if e.p.cmn.ptype = ptMac ∨ e.p.cmn.ptype = ptSmac then []
  else if e.p.cmn.ptype = ptArp then e.formatArp
  else e.formatIp ++ e.formatBody

theorem formatMac_eq (newtrace : e.newtrace = false) (back : Text) :
    e.formatMac ++ back = ' ' :: Text.followed e.macWords back := by
  simp [formatMac, newtrace, sprintf, parse, render, convert, Text.followed, macWords]

theorem formatEnergy_eq (back : Text) :
    e.formatEnergy ++ back = Text.followed e.energyWords back := by
  unfold formatEnergy energyWords
  cases e.energyModel with
  | none => simp [Text.followed]
  | some model => simp [sprintf, parse, render, convert, digitValue, Text.followed]

theorem formatCommon_append (back : Text) :
    e.formatCommon ++ ' ' :: back = Text.followed ([e.op] :: e.commonWords) back := by
  simp [formatCommon_eq, Text.followed, commonWords]

/-- A line of the default format. -/
theorem format_eq (newtrace : e.newtrace = false) :
    e.format = Text.followed ([e.op] :: e.commonWords ++ e.behind) e.tail := by
  have isTail : e.format = e.formatMacCommon ++ e.tail := rfl
  rw [isTail, Text.followed_append, ← formatCommon_append, formatMacCommon,
    if_neg (by rw [newtrace]; decide), behind]
  split
  next =>
    rw [List.append_assoc]
    rfl
  next =>
    rw [List.append_assoc, List.append_assoc, formatEnergy_eq, Text.followed_append]
    split
    next => rw [formatSmac_eq]
    next => rw [formatMac_eq e newtrace]

/-! ### Patterns in front of the IP part -/

/-- What a line of the default format has behind the event type. -/
def afterOp : Text :=
  ' ' :: Text.followed (e.commonWords ++ e.behind) e.tail

theorem format_eq_cons (newtrace : e.newtrace = false) : e.format = e.op :: e.afterOp := by
  rw [format_eq e newtrace]
  rfl

/-- The labels of the energy part. -/
def energyLabels : List String := ["[energy", "ei", "es", "et", "er"]

variable {e} {pattern : Text} {c : Char}

theorem behind_free (inPattern : c ∈ pattern) (plain : Plain c)
    (labels : ∀ label ∈ energyLabels, ¬ pattern <:+: label.toList) :
    ∀ t ∈ e.behind, ¬ pattern <:+: t := by
  have isMark : ∀ mark ∈ plainChars, c ≠ mark := by
    rintro mark member rfl
    exact plain.marks member
  have opened : ∀ t : Text, c ∉ t → c ∉ '[' :: t := fun t absent =>
    List.not_mem_cons_of_ne_of_not_mem (isMark '[' (by decide)) absent
  have closed : ∀ t : Text, c ∉ t → c ∉ t ++ [']'] := by
    intro t absent member
    rcases List.mem_append.mp member with inText | bracket
    · exact absent inText
    · exact isMark ']' (by decide) (List.mem_singleton.mp bracket)
  have lacks : ∀ t : Text, c ∉ t → ¬ pattern <:+: t := fun t => Text.not_infix_of_notMem inPattern
  have rat := fun places x => lacks _ (plain.foreign.notMem_ofRat places x)
  have int := fun n => lacks _ (plain.foreign.notMem_ofInt n)
  have hex := fun n => lacks _ (plain.foreign.notMem_ofHex n)
  simp only [energyLabels, List.forall_mem_cons] at labels
  unfold behind
  split
  next => simp
  next =>
    rw [List.forall_mem_append]
    constructor
    · split
      next =>
        simp only [smacWords, List.forall_mem_cons, int, not_false_eq_true, true_and]
        exact ⟨lacks _ (opened _ (plain.foreign.notMem_ofRat _ _)),
          lacks _ (closed _ (plain.foreign.notMem_ofInt _)), List.forall_mem_nil _⟩
      next =>
        simp only [macWords, List.forall_mem_cons, hex, not_false_eq_true, true_and]
        exact ⟨lacks _ (opened _ (plain.foreign.notMem_ofHex _)),
          lacks _ (closed _ (plain.foreign.notMem_ofHex _)), List.forall_mem_nil _⟩
    · unfold energyWords
      split
      next => simp
      next model =>
        simp only [List.forall_mem_cons, rat, labels, not_false_eq_true, true_and]
        exact ⟨lacks _ (closed _ (plain.foreign.notMem_ofRat _ _)), List.forall_mem_nil _⟩

theorem infix_afterOp_iff (solid : ' ' ∉ pattern) (inPattern : c ∈ pattern)
    (plain : Plain c) (labels : ∀ label ∈ energyLabels, ¬ pattern <:+: label.toList) :
    pattern <:+: e.afterOp ↔
      pattern <:+: e.tracename.name.toList ∨ pattern <:+: padLeft ' ' 4 e.why.toList ∨
        pattern <:+: e.typeName ∨ pattern <:+: e.tail := by
  have rat := fun places x => Text.not_infix_of_notMem inPattern (plain.foreign.notMem_ofRat places x)
  have int := fun n => Text.not_infix_of_notMem inPattern (plain.foreign.notMem_ofInt n)
  have none : ¬ pattern <:+: [] := Text.not_infix_of_notMem inPattern List.not_mem_nil
  have node : ¬ pattern <:+: '_' :: (Text.ofInt e.src ++ ['_']) := by
    apply Text.not_infix_of_notMem inPattern
    have marks := plain.marks
    have digits := plain.foreign.notMem_ofInt e.src
    simp only [List.mem_cons, List.mem_append, List.not_mem_nil, or_false, not_or]
    have underscore : c ≠ '_' := by
      rintro rfl
      exact marks (by decide)
    exact ⟨underscore, digits, underscore⟩
  have others : ¬ ∃ t ∈ e.behind, pattern <:+: t := by
    rintro ⟨t, member, found⟩
    exact behind_free inPattern plain labels t member found
  rw [afterOp, show ∀ t : Text, ' ' :: t = [] ++ ' ' :: t from fun _ => rfl,
    Text.infix_append_cons_iff solid, Text.infix_followed_iff solid]
  simp only [commonWords, List.mem_append, or_and_right, exists_or, others, or_false, List.mem_cons,
    exists_eq_left, rat, int, node, none, List.not_mem_nil, false_or, or_assoc]

/-! ### Characters behind the MAC part -/

variable (e)

/-- The letters of the part behind the IP part, in the default format. -/
def bodyLetters : String :=
  if e.p.cmn.ptype = ptAodv then e.p.aodv.letters
  else if e.p.cmn.ptype = ptAnt then "ant"
  else if e.p.cmn.ptype = ptAomdv then e.p.aomdv.letters
  else if e.p.cmn.ptype = ptTora then e.p.tora.letters
  else if e.p.cmn.ptype = ptImep then "AHO"
  else if e.p.cmn.ptype = ptSctp then "IDSRHB"
  else ""

variable {e}

theorem notMem_formatIp (newtrace : e.newtrace = false) (plain : Plain c) : c ∉ e.formatIp := by
  simp only [formatIp, newtrace, Bool.false_eq_true, if_false]
  exact plain.notMem List.not_mem_nil (by decide) (by simp [plain.foreign.int])

theorem notMem_formatArp (newtrace : e.newtrace = false) (plain : Plain c)
    (letters : c ∉ e.p.arp.letters.toList) : c ∉ e.formatArp := by
  simp only [formatArp, newtrace, Bool.false_eq_true, if_false]
  apply plain.notMem List.not_mem_nil (by decide)
  simpa [plain.foreign.int, HdrArp.letters] using letters

theorem notMem_formatAodv (newtrace : e.newtrace = false) (plain : Plain c)
    (letters : c ∉ e.p.aodv.letters.toList) : c ∉ e.formatAodv := by
  unfold formatAodv
  cases header : e.p.aodv with
  | request =>
      rw [header, HdrAodv.letters] at letters
      simp only [newtrace, Bool.false_eq_true, if_false]
      exact plain.notMem letters (by decide) (by simp [plain.foreign.int])
  | reply kind =>
      rw [header, HdrAodv.letters] at letters
      simp only [newtrace, Bool.false_eq_true, if_false]
      apply plain.notMem List.not_mem_nil (by decide)
      simpa [plain.foreign.int, plain.foreign.double] using letters

theorem notMem_formatAomdv (newtrace : e.newtrace = false) (plain : Plain c)
    (letters : c ∉ e.p.aomdv.letters.toList) : c ∉ e.formatAomdv := by
  unfold formatAomdv
  cases header : e.p.aomdv with
  | request =>
      rw [header, HdrAodv.letters] at letters
      simp only [newtrace, Bool.false_eq_true, if_false]
      exact plain.notMem letters (by decide) (by simp [plain.foreign.int])
  | reply kind =>
      rw [header, HdrAodv.letters] at letters
      simp only [newtrace, Bool.false_eq_true, if_false]
      apply plain.notMem List.not_mem_nil (by decide)
      simpa [plain.foreign.int, plain.foreign.double] using letters

theorem notMem_formatTora (newtrace : e.newtrace = false) (plain : Plain c)
    (letters : c ∉ e.p.tora.letters.toList) : c ∉ e.formatTora := by
  cases header : e.p.tora with
  | qry =>
      simp only [header, HdrTora.letters] at letters
      simp only [formatTora, header, newtrace, Bool.false_eq_true, if_false]
      exact plain.notMem letters (by decide) (by simp [plain.foreign.int])
  | upd =>
      simp only [header, HdrTora.letters] at letters
      simp only [formatTora, header, newtrace, Bool.false_eq_true, if_false]
      apply plain.notMem letters (by decide)
      simp [plain.foreign.int, plain.foreign.double]
  | clr =>
      simp only [header, HdrTora.letters] at letters
      simp only [formatTora, header, newtrace, Bool.false_eq_true, if_false]
      apply plain.notMem letters (by decide)
      simp [plain.foreign.int, plain.foreign.double]
  | other => simp [formatTora, header]

theorem notMem_formatAntnet (newtrace : e.newtrace = false) (plain : Plain c)
    (letters : c ∉ "ant".toList) : c ∉ e.formatAntnet := by
  simp only [formatAntnet, newtrace, Bool.false_eq_true, if_false]
  exact plain.notMem letters (by decide) (by simp [plain.foreign.int])

theorem notMem_formatImep (newtrace : e.newtrace = false) (plain : Plain c)
    (letters : c ∉ "AHO".toList) : c ∉ e.formatImep := by
  have flag : ∀ (set : Bool) (letter : Char), letter ∈ "AHO".toList →
      ¬ (Arg.char (if set then letter else '-')).Brings c := by
    rintro set letter member rfl
    cases set with
    | false => exact plain.foreign.sign List.mem_cons_self
    | true => exact letters member
  simp only [formatImep, newtrace, Bool.false_eq_true, if_false]
  apply plain.notMem List.not_mem_nil (by decide)
  simp only [List.forall_mem_cons, plain.foreign.int]
  exact ⟨flag _ 'A' (by decide), flag _ 'H' (by decide), flag _ 'O' (by decide), not_false,
    List.forall_mem_nil _⟩

theorem notMem_formatDsr (newtrace : e.newtrace = false) (plain : Plain c) :
    c ∉ e.formatDsr := by
  simp only [formatDsr, newtrace, Bool.false_eq_true, if_false]
  exact plain.notMem List.not_mem_nil (by decide) (by simp [plain.foreign.int])

theorem notMem_formatTcp (newtrace : e.newtrace = false) (plain : Plain c) :
    c ∉ e.formatTcp := by
  simp only [formatTcp, newtrace, Bool.false_eq_true, if_false]
  exact plain.notMem List.not_mem_nil (by decide) (by simp [plain.foreign.int])

theorem notMem_formatSctp (newtrace : e.newtrace = false) (plain : Plain c)
    (letters : c ∉ "IDSRHB".toList) : c ∉ e.formatSctp := by
  unfold formatSctp
  split
  next => exact List.not_mem_nil
  next chunk isLast =>
    have type : c ≠ chunk.eType.char := by
      rintro rfl
      revert letters
      cases chunk.eType <;> decide
    simp only [newtrace, Bool.false_eq_true, if_false]
    exact plain.notMem List.not_mem_nil (by decide) (by simp [plain.foreign.int, type])

theorem notMem_formatRtp (newtrace : e.newtrace = false) (plain : Plain c) :
    c ∉ e.formatRtp := by
  simp only [formatRtp, newtrace, Bool.false_eq_true, if_false]
  exact plain.notMem List.not_mem_nil (by decide) (by simp [plain.foreign.int])

theorem notMem_formatBody (newtrace : e.newtrace = false) (plain : Plain c)
    (letters : c ∉ e.bodyLetters.toList) : c ∉ e.formatBody := by
  unfold bodyLetters at letters
  unfold formatBody
  by_cases aodv : e.p.cmn.ptype = ptAodv
  · rw [if_pos aodv] at letters ⊢
    exact notMem_formatAodv newtrace plain letters
  rw [if_neg aodv] at letters ⊢
  by_cases ant : e.p.cmn.ptype = ptAnt
  · rw [if_pos ant] at letters ⊢
    exact notMem_formatAntnet newtrace plain letters
  rw [if_neg ant] at letters ⊢
  by_cases aomdv : e.p.cmn.ptype = ptAomdv
  · rw [if_pos aomdv] at letters ⊢
    exact notMem_formatAomdv newtrace plain letters
  rw [if_neg aomdv] at letters ⊢
  by_cases tora : e.p.cmn.ptype = ptTora
  · rw [if_pos tora] at letters ⊢
    exact notMem_formatTora newtrace plain letters
  rw [if_neg tora] at letters ⊢
  by_cases imep : e.p.cmn.ptype = ptImep
  · rw [if_pos imep] at letters ⊢
    exact notMem_formatImep newtrace plain letters
  rw [if_neg imep] at letters ⊢
  split
  next => exact notMem_formatDsr newtrace plain
  next =>
    split
    next => exact List.not_mem_nil
    next =>
      split
      next => exact notMem_formatTcp newtrace plain
      next =>
        by_cases sctp : e.p.cmn.ptype = ptSctp
        · rw [if_pos sctp] at letters ⊢
          exact notMem_formatSctp newtrace plain letters
        rw [if_neg sctp]
        split
        next => exact notMem_formatRtp newtrace plain
        next => exact List.not_mem_nil

/-! ### Patterns behind the MAC part -/

variable (e)

/-- The letters behind the MAC part, in the default format. -/
def tailLetters : String :=
  if e.p.cmn.ptype = ptMac ∨ e.p.cmn.ptype = ptSmac then ""
  else if e.p.cmn.ptype = ptArp then e.p.arp.letters
  else e.bodyLetters

variable {e}

theorem notMem_tail (newtrace : e.newtrace = false) (plain : Plain c)
    (letters : c ∉ e.tailLetters.toList) : c ∉ e.tail := by
  unfold tailLetters at letters
  unfold tail
  split at letters
  next frame =>
    rw [if_pos frame]
    exact List.not_mem_nil
  next frame =>
    rw [if_neg frame]
    split at letters
    next arp =>
      rw [if_pos arp]
      exact notMem_formatArp newtrace plain letters
    next arp =>
      rw [if_neg arp]
      intro member
      rcases List.mem_append.mp member with ip | body
      · exact notMem_formatIp newtrace plain ip
      · exact notMem_formatBody newtrace plain letters body

theorem tailLetters_cases (e : TraceEvent) :
    e.p.cmn.ptype = ptAnt ∧ e.tailLetters = "ant" ∨
      e.p.cmn.ptype ≠ ptAnt ∧ e.tailLetters ∈ otherLetters := by
  unfold tailLetters
  by_cases ant : e.p.cmn.ptype = ptAnt
  · apply Or.inl
    refine ⟨ant, ?_⟩
    rw [if_neg (by rw [ant]; decide), if_neg (by rw [ant]; decide), bodyLetters,
      if_neg (by rw [ant]; decide), if_pos ant]
  · apply Or.inr
    refine ⟨ant, ?_⟩
    unfold bodyLetters HdrArp.letters
    rw [if_neg ant]
    split_ifs
    · decide
    · decide
    · decide
    · exact HdrAodv.letters_mem _
    · exact HdrAodv.letters_mem _
    · exact HdrTora.letters_mem _
    · decide
    · decide
    · decide

/-- No `AGT` stands behind the MAC part. -/
theorem not_agt_infix_tail (newtrace : e.newtrace = false) : ¬ "AGT".toList <:+: e.tail := by
  have plain : Plain 'G' := by decide
  have others : ∀ letters ∈ otherLetters, 'G' ∉ letters.toList := by decide
  have letters : 'G' ∉ e.tailLetters.toList := by
    rcases e.tailLetters_cases with ⟨_, ant⟩ | ⟨_, other⟩
    · rw [ant]
      decide
    · exact others _ other
  exact Text.not_infix_of_notMem (by decide) (notMem_tail newtrace plain letters)

/-- The label of the ant format ends before it could be the pattern. -/
theorem tail_ant (newtrace : e.newtrace = false) (ant : e.p.cmn.ptype = ptAnt) (plain : Plain c) :
    ∃ front numbers, c ∉ front ∧ c ∉ numbers ∧
      e.tail = front ++ ' ' :: ("[ant".toList ++ ' ' :: numbers) := by
  refine ⟨sprintf "------- [%d:%d %d:%d %d %d]"
      [.int (e.getNodeaddr e.p.ip.saddr), .int e.p.ip.sport, .int (e.getNodeaddr e.p.ip.daddr),
        .int e.p.ip.dport, .int e.p.ip.ttl,
        .int (if e.p.cmn.nextHop < 0 then 0 else e.p.cmn.nextHop)],
    sprintf "%d %d %d] "
      [.int e.p.ant.pktSrc, .int e.p.ant.pktSeqNum.toNat, .int e.p.ant.pktLen.toNat], ?_, ?_, ?_⟩
  · exact plain.notMem List.not_mem_nil (by decide) (by simp [plain.foreign.int])
  · exact plain.notMem List.not_mem_nil (by decide) (by simp [plain.foreign.int])
  · rw [tail, if_neg (by rw [ant]; decide), if_neg (by rw [ant]; decide), formatBody,
      if_neg (by rw [ant]; decide), if_pos ant]
    simp [formatIp, formatAntnet, newtrace, sprintf, parse, render, convert]

/-- No `antnet` stands behind the MAC part. -/
theorem not_antnet_infix_tail (newtrace : e.newtrace = false) :
    ¬ "antnet".toList <:+: e.tail := by
  have plain : Plain 'n' := by decide
  have others : ∀ letters ∈ otherLetters, 'n' ∉ letters.toList := by decide
  have lacks : ∀ t : Text, 'n' ∉ t → ¬ "antnet".toList <:+: t :=
    fun t => Text.not_infix_of_notMem (by decide)
  rcases e.tailLetters_cases with ⟨ant, _⟩ | ⟨_, other⟩
  · obtain ⟨front, numbers, noFront, noNumbers, isTail⟩ := tail_ant newtrace ant plain
    rw [isTail, Text.infix_append_cons_iff (by decide), Text.infix_append_cons_iff (by decide)]
    rintro (found | found | found)
    · exact lacks _ noFront found
    · revert found
      decide
    · exact lacks _ noNumbers found
  · exact lacks _ (notMem_tail newtrace plain (others _ other))

/-- The route requests of the two protocols have one format. -/
theorem formatBody_request (newtrace : e.newtrace = false) {header : HdrAodv}
    (isHeader : e.p.cmn.ptype = ptAodv ∧ e.p.aodv = header ∨
      e.p.cmn.ptype = ptAomdv ∧ e.p.aomdv = header) (request : header.letters = "REQUEST") :
    ∃ args : List Arg, (∀ arg ∈ args, ∃ n, arg = .int n) ∧
      e.formatBody = sprintf "[0x%x %d %d [%d %d] [%d %d]]" args ++ ' ' :: "(REQUEST)".toList := by
  cases header with
  | request rqType rqHopCount rqBcastId rqDst rqDstSeqno rqSrc rqSrcSeqno =>
      refine ⟨[.int rqType, .int rqHopCount, .int rqBcastId, .int rqDst, .int rqDstSeqno,
        .int rqSrc, .int rqSrcSeqno], by simp, ?_⟩
      rcases isHeader with ⟨aodv, isHeader⟩ | ⟨aomdv, isHeader⟩
      · rw [formatBody, if_pos aodv]
        simp [formatAodv, isHeader, newtrace, sprintf, parse, render, convert]
      · rw [formatBody, if_neg (by rw [aomdv]; decide), if_neg (by rw [aomdv]; decide),
          if_pos aomdv]
        simp [formatAomdv, isHeader, newtrace, sprintf, parse, render, convert]
  | reply kind =>
      revert request
      cases kind <;> simp [HdrAodv.letters, ReplyType.name]

theorem tail_routeRequest (newtrace : e.newtrace = false) (plain : Plain c) {header : HdrAodv}
    (isHeader : e.p.cmn.ptype = ptAodv ∧ e.p.aodv = header ∨
      e.p.cmn.ptype = ptAomdv ∧ e.p.aomdv = header) (request : header.letters = "REQUEST") :
    ∃ front, c ∉ front ∧ e.tail = front ++ ' ' :: "(REQUEST)".toList := by
  obtain ⟨args, areInts, isBody⟩ := formatBody_request newtrace isHeader request
  refine ⟨e.formatIp ++ sprintf "[0x%x %d %d [%d %d] [%d %d]]" args, ?_, ?_⟩
  · intro member
    rcases List.mem_append.mp member with ip | inBody
    · exact notMem_formatIp newtrace plain ip
    · refine plain.notMem List.not_mem_nil (by decide) ?_ inBody
      intro arg isArg
      obtain ⟨n, rfl⟩ := areInts arg isArg
      exact plain.foreign.int n
  · have routing : ¬ (e.p.cmn.ptype = ptMac ∨ e.p.cmn.ptype = ptSmac) ∧ e.p.cmn.ptype ≠ ptArp := by
      rcases isHeader with ⟨aodv, _⟩ | ⟨aomdv, _⟩
      · rw [aodv]
        decide
      · rw [aomdv]
        decide
    rw [tail, if_neg routing.1, if_neg routing.2, isBody, List.append_assoc]

/-- The lines with the label of a request. -/
theorem tail_request (newtrace : e.newtrace = false) (plain : Plain c)
    (request : e.tailLetters = "REQUEST") :
    (∃ front, c ∉ front ∧ e.tail = front ++ ' ' :: "(REQUEST)".toList) ∨
      ∃ back, c ∉ back ∧
        e.tail = "-------".toList ++ ' ' :: ("[REQUEST".toList ++ ' ' :: back) := by
  unfold tailLetters at request
  split at request
  next => simp at request
  next frame =>
    split at request
    next arp =>
      have isRequest : e.p.arp.isRequest = true := by
        revert request
        unfold HdrArp.letters
        cases e.p.arp.isRequest <;> simp
      apply Or.inr
      refine ⟨sprintf "%d/%d %d/%d]" [.int e.p.arp.arpSha, .int e.p.arp.arpSpa,
        .int e.p.arp.arpTha, .int e.p.arp.arpTpa], ?_, ?_⟩
      · exact plain.notMem List.not_mem_nil (by decide) (by simp [plain.foreign.int])
      · rw [tail, if_neg frame, if_pos arp]
        simp [formatArp, isRequest, newtrace, sprintf, parse, render, convert]
    next =>
      apply Or.inl
      unfold bodyLetters at request
      split_ifs at request with aodv ant aomdv tora
      · exact tail_routeRequest newtrace plain (Or.inl ⟨aodv, rfl⟩) request
      · simp at request
      · exact tail_routeRequest newtrace plain (Or.inr ⟨aomdv, rfl⟩) request
      · revert request
        cases e.p.tora <;> simp [HdrTora.letters]
      · simp at request
      · simp at request
      · simp at request

/-- No `RTR` stands behind the MAC part. -/
theorem not_rtr_infix_tail (newtrace : e.newtrace = false) : ¬ "RTR".toList <:+: e.tail := by
  have plainT : Plain 'T' := by decide
  have plainR : Plain 'R' := by decide
  have others : ∀ letters ∈ otherLetters,
      'T' ∉ letters.toList ∨ 'R' ∉ letters.toList ∨ letters = "REQUEST" := by decide
  have letters : 'T' ∉ e.tailLetters.toList ∨ 'R' ∉ e.tailLetters.toList ∨
      e.tailLetters = "REQUEST" := by
    rcases e.tailLetters_cases with ⟨_, ant⟩ | ⟨_, other⟩
    · rw [ant]
      decide
    · exact others _ other
  rcases letters with noT | noR | request
  · exact Text.not_infix_of_notMem (by decide) (notMem_tail newtrace plainT noT)
  · exact Text.not_infix_of_notMem (by decide) (notMem_tail newtrace plainR noR)
  · have lacks : ∀ t : Text, 'T' ∉ t → ¬ "RTR".toList <:+: t :=
      fun t => Text.not_infix_of_notMem (by decide)
    rcases tail_request newtrace plainT request with ⟨front, absent, isTail⟩ | ⟨back, absent, isTail⟩
    · rw [isTail, Text.infix_append_cons_iff (by decide)]
      rintro (found | found)
      · exact lacks _ absent found
      · revert found
        decide
    · rw [isTail, Text.infix_append_cons_iff (by decide), Text.infix_append_cons_iff (by decide)]
      rintro (found | found | found)
      · revert found
        decide
      · revert found
        decide
      · exact lacks _ absent found

/-! ### Patterns of a line -/

/-- The patterns that are searched for. -/
def searched : List String := ["antnet", "AGT", "RTR"]

variable {name : String}

theorem not_infix_why (isSearched : name ∈ searched) :
    ¬ name.toList <:+: padLeft ' ' 4 e.why.toList := by
  have free : ∀ name ∈ searched, ∀ why ∈ "---" :: dropReasons,
      ¬ name.toList <:+: padLeft ' ' 4 why.toList := by decide +kernel
  apply free name isSearched
  rcases e.why_known with none | ⟨_, reason⟩
  · exact List.mem_cons.mpr (Or.inl none)
  · exact List.mem_cons_of_mem _ reason

theorem not_infix_typeName (isSearched : name ∈ searched) : ¬ name.toList <:+: e.typeName := by
  have frames : ∀ name ∈ searched, ∀ frame : MacFrame, ¬ name.toList <:+: frame.name.toList := by
    intro name isSearched frame
    cases frame <;> revert name <;> decide +kernel
  have smacs : ∀ name ∈ searched, ∀ type : SmacType, ¬ name.toList <:+: type.name.toList := by
    intro name isSearched type
    cases type <;> revert name <;> decide +kernel
  have names : ∀ name ∈ searched, ∀ ptype < ptNtype + 1, ¬ name.toList <:+: packetName ptype := by
    decide +kernel
  unfold typeName
  split
  next => exact frames name isSearched _
  next =>
    split
    next => exact smacs name isSearched _
    next => exact names name isSearched _ (Nat.lt_succ_of_le e.ptype_le)

theorem not_infix_tail (newtrace : e.newtrace = false) (isSearched : name ∈ searched) :
    ¬ name.toList <:+: e.tail := by
  simp only [searched, List.mem_cons, List.not_mem_nil, or_false] at isSearched
  rcases isSearched with rfl | rfl | rfl
  · exact not_antnet_infix_tail newtrace
  · exact not_agt_infix_tail newtrace
  · exact not_rtr_infix_tail newtrace

/-- A searched pattern can only be in the trace name. -/
theorem infix_afterOp_iff_tracename (newtrace : e.newtrace = false) (isSearched : name ∈ searched) :
    name.toList <:+: e.afterOp ↔ name.toList <:+: e.tracename.name.toList := by
  have solid : ∀ name ∈ searched, ' ' ∉ name.toList ∧
      ∀ label ∈ energyLabels, ¬ name.toList <:+: label.toList := by decide +kernel
  have plain : ∃ c ∈ name.toList, Plain c := by
    simp only [searched, List.mem_cons, List.not_mem_nil, or_false] at isSearched
    rcases isSearched with rfl | rfl | rfl
    · exact ⟨'n', by decide, by decide⟩
    · exact ⟨'G', by decide, by decide⟩
    · exact ⟨'R', by decide, by decide⟩
  obtain ⟨c, inPattern, plain⟩ := plain
  obtain ⟨solid, labels⟩ := solid name isSearched
  rw [infix_afterOp_iff solid inPattern plain labels]
  simp only [not_infix_why isSearched, not_infix_typeName isSearched,
    not_infix_tail newtrace isSearched, or_false]

theorem not_antnet_infix (newtrace : e.newtrace = false) : ¬ "antnet".toList <:+: e.afterOp := by
  rw [infix_afterOp_iff_tracename newtrace (by decide)]
  cases e.tracename <;> decide +kernel

theorem agt_infix_iff (newtrace : e.newtrace = false) :
    "AGT".toList <:+: e.afterOp ↔ e.tracename = .agt := by
  rw [infix_afterOp_iff_tracename newtrace (by decide)]
  cases e.tracename <;> decide +kernel

theorem rtr_infix_iff (newtrace : e.newtrace = false) :
    "RTR".toList <:+: e.afterOp ↔ e.tracename = .rtr := by
  rw [infix_afterOp_iff_tracename newtrace (by decide)]
  cases e.tracename <;> decide +kernel

end TraceEvent

end AntAodv
