import AntAodv.CmuTrace

/-!
# The words of a line

The first words of a line in the default format, and those of a line of `newtrace`
up to the packet size.
-/

namespace AntAodv

open Printf

theorem TraceName.solid (tracename : TraceName) : Text.Solid tracename.name.toList := by
  cases tracename <;> decide

theorem solid_packetName : ∀ p < ptNtype + 1, Text.Solid (packetName p) := by
  decide

namespace TraceEvent

variable (e : TraceEvent)

theorem solid_why : Text.Solid e.why.toList := by
  have reasons : ∀ reason ∈ dropReasons, Text.Solid reason.toList := by decide
  rcases e.why_known with none | ⟨_, reason⟩
  · rw [none]
    decide
  · exact reasons e.why reason

theorem solid_op : Text.Solid [e.op] := by
  have types : ∀ type : TraceType, Text.Solid [type.char] := by
    intro type
    cases type <;> decide
  unfold op
  split
  next => decide
  next => exact types e.type

theorem solid_name : Text.Solid (packetName e.p.cmn.ptype) :=
  solid_packetName _ (Nat.lt_succ_of_le e.ptype_le)

theorem padLeft_tracename :
    padLeft ' ' 3 e.tracename.name.toList = e.tracename.name.toList := by
  cases e.tracename <;> rfl

theorem solid_node : Text.Solid ('_' :: (Text.ofInt e.src ++ ['_'])) := by
  have opening : Text.Solid ['_'] := by decide
  apply opening.append
  intro c member
  rcases List.mem_append.mp member with digit | underscore
  · exact (solid_ofInt e.src).blankless c digit
  · rw [List.mem_singleton.mp underscore]
    rfl

/-! ### The default format -/

/-- The beginning of a line in the default format, word by word. -/
theorem formatCommon_eq : e.formatCommon =
    Text.followed
      [[e.op], ofRat 9 e.clock, '_' :: (Text.ofInt e.src ++ ['_']), e.tracename.name.toList]
      (padLeft ' ' 4 e.why.toList ++ ' ' :: Text.followed [Text.ofInt e.p.cmn.uid, e.typeName]
        (Text.ofInt e.p.cmn.size)) := by
  simp [formatCommon, sprintf, parse, render, convert, digitValue, Text.followed,
    e.padLeft_tracename]

/-- The words in front of the packet type, in the default format. -/
theorem words_formatCommon (back : Text) :
    ∃ rest, Text.words (e.formatCommon ++ back) =
      [e.op] :: ofRat 9 e.clock :: ('_' :: (Text.ofInt e.src ++ ['_'])) ::
        e.tracename.name.toList :: e.why.toList :: Text.ofInt e.p.cmn.uid :: rest := by
  have line : e.formatCommon ++ back =
      Text.followed
        [[e.op], ofRat 9 e.clock, '_' :: (Text.ofInt e.src ++ ['_']), e.tracename.name.toList]
        (padLeft ' ' 4 e.why.toList ++ ' ' :: Text.followed [Text.ofInt e.p.cmn.uid]
          (e.typeName ++ ' ' :: (Text.ofInt e.p.cmn.size ++ back))) := by
    simp [formatCommon_eq, Text.followed]
  refine ⟨Text.words (e.typeName ++ ' ' :: (Text.ofInt e.p.cmn.size ++ back)), ?_⟩
  rw [line, Text.words_followed, words_padLeft_append, e.solid_why.words_append,
    Text.words_followed]
  · rfl
  · simpa using solid_ofInt e.p.cmn.uid
  · simpa using ⟨e.solid_op, solid_ofRat 9 e.clock, e.solid_node, e.tracename.solid⟩

/-! ### The format of `newtrace` -/

/-- The event type in the format of `newtrace`. -/
def newOp : Char := if e.op = 'D' then 'd' else e.op

theorem solid_newOp : Text.Solid [e.newOp] := by
  unfold newOp
  split
  next => decide
  next => exact e.solid_op

/-- The energy of the format of `newtrace`. -/
def newEnergy : ℚ :=
  match e.energyModel with
  | none => -1
  | some model => model.energy

/-- The words of the format of `newtrace` from the time to the energy. -/
def places : List Text :=
  [ofRat 9 e.clock, "-Hs".toList, Text.ofInt e.src, "-Hd".toList, Text.ofInt e.p.cmn.nextHop,
    "-Ni".toList, Text.ofInt e.src, "-Nx".toList, ofRat 2 e.x, "-Ny".toList, ofRat 2 e.y,
    "-Nz".toList, ofRat 2 e.z, "-Ne".toList, ofRat 6 e.newEnergy, "-Nl".toList]

theorem solid_places : ∀ t ∈ e.places, Text.Solid t := by
  have labels : ∀ t ∈ ["-Hs", "-Hd", "-Ni", "-Nx", "-Ny", "-Nz", "-Ne", "-Nl"],
      Text.Solid t.toList := by decide
  simp only [List.forall_mem_cons] at labels
  simp only [places, List.forall_mem_cons, solid_ofInt, solid_ofRat, labels, true_and]
  exact List.forall_mem_nil _

/-- The words of a line of `newtrace` up to the reason. -/
theorem words_formatNewCommon (back : Text) :
    Text.words (e.formatNewCommon ++ back) =
      [e.newOp] :: "-t".toList :: (e.places ++ e.tracename.name.toList :: "-Nw".toList ::
        e.why.toList :: Text.words back) := by
  have line : e.formatNewCommon ++ back =
      Text.followed ([e.newOp] :: "-t".toList :: (e.places ++
        [e.tracename.name.toList, "-Nw".toList, e.why.toList])) back := by
    cases model : e.energyModel <;>
      simp [formatNewCommon, model, sprintf, parse, render, convert, digitValue, Text.followed,
        places, newOp, newEnergy, e.padLeft_tracename]
  rw [line, Text.words_followed]
  · simp
  · simp only [List.forall_mem_cons, List.forall_mem_append]
    refine ⟨e.solid_newOp, by decide, e.solid_places, e.tracename.solid, by decide, e.solid_why, ?_⟩
    exact List.forall_mem_nil _

theorem words_formatMac (newtrace : e.newtrace = true) (back : Text) :
    Text.words (e.formatMac ++ back) =
      "-Ma".toList :: ofHex e.p.mac.dhDuration :: "-Md".toList :: ofHex e.p.mac.dhRa ::
        "-Ms".toList :: ofHex e.p.mac.dhTa :: "-Mt".toList :: ofHex e.macEtherType ::
          Text.words back := by
  have line : e.formatMac ++ back =
      Text.followed ["-Ma".toList, ofHex e.p.mac.dhDuration, "-Md".toList, ofHex e.p.mac.dhRa,
        "-Ms".toList, ofHex e.p.mac.dhTa, "-Mt".toList, ofHex e.macEtherType] back := by
    simp [formatMac, newtrace, sprintf, parse, render, convert, Text.followed]
  rw [line, Text.words_followed]
  · rfl
  · simp only [List.forall_mem_cons, solid_ofHex, true_and]
    refine ⟨by decide, by decide, by decide, by decide, ?_⟩
    exact List.forall_mem_nil _

/-- The words of the SMAC part, which is the same in both formats. -/
def smacWords : List Text :=
  ['[' :: ofRat 2 e.p.smac.duration, Text.ofInt e.p.smac.dstAddr,
    Text.ofInt e.p.smac.srcAddr ++ [']']]

theorem formatSmac_eq (back : Text) :
    e.formatSmac ++ back = ' ' :: Text.followed e.smacWords back := by
  simp [formatSmac, sprintf, parse, render, convert, digitValue, Text.followed, smacWords]

theorem words_formatSmac (back : Text) :
    Text.words (e.formatSmac ++ back) = e.smacWords ++ Text.words back := by
  have bracket : Text.Solid ['['] := by decide
  have opening : Text.Solid ('[' :: ofRat 2 e.p.smac.duration) :=
    bracket.append (solid_ofRat _ _).blankless
  have closing : Text.Solid (Text.ofInt e.p.smac.srcAddr ++ [']']) :=
    (solid_ofInt _).append (by decide)
  rw [formatSmac_eq, Text.words_cons rfl, Text.words_followed]
  simp only [smacWords, List.forall_mem_cons, solid_ofInt, opening, closing, true_and]
  exact List.forall_mem_nil _

theorem words_formatIp (newtrace : e.newtrace = true) (back : Text) :
    ∃ source dest rest, Text.words (e.formatIp ++ back) =
      "-Is".toList :: source :: "-Id".toList :: dest :: "-It".toList ::
        packetName e.p.cmn.ptype :: "-Il".toList :: Text.ofInt e.p.cmn.size :: "-If".toList ::
          Text.ofInt e.p.flowid :: "-Ii".toList :: Text.ofInt e.p.cmn.uid :: "-Iv".toList ::
            rest := by
  let source := Text.ofInt (e.getNodeaddr e.p.ip.saddr) ++ '.' :: Text.ofInt e.p.ip.sport
  let dest := Text.ofInt (e.getNodeaddr e.p.ip.daddr) ++ '.' :: Text.ofInt e.p.ip.dport
  have line : e.formatIp ++ back =
      Text.followed ["-Is".toList, source, "-Id".toList, dest, "-It".toList,
        packetName e.p.cmn.ptype, "-Il".toList, Text.ofInt e.p.cmn.size, "-If".toList,
        Text.ofInt e.p.flowid, "-Ii".toList, Text.ofInt e.p.cmn.uid, "-Iv".toList,
        Text.ofInt e.p.ip.ttl] back := by
    simp [formatIp, newtrace, sprintf, parse, render, convert, Text.followed, source, dest]
  have solidSource : Text.Solid source :=
    (solid_ofInt _).append (List.forall_mem_cons.mpr ⟨rfl, (solid_ofInt _).blankless⟩)
  have solidDest : Text.Solid dest :=
    (solid_ofInt _).append (List.forall_mem_cons.mpr ⟨rfl, (solid_ofInt _).blankless⟩)
  refine ⟨source, dest, Text.ofInt e.p.ip.ttl :: Text.words back, ?_⟩
  rw [line, Text.words_followed]
  · rfl
  · simp only [List.forall_mem_cons, solid_ofInt, solidSource, solidDest, e.solid_name, true_and]
    refine ⟨by decide, by decide, by decide, by decide, by decide, by decide, by decide, ?_⟩
    exact List.forall_mem_nil _

theorem words_formatArp (newtrace : e.newtrace = true) :
    ∃ op, Text.words e.formatArp =
      "-P".toList :: "arp".toList :: "-Po".toList :: op :: "-Pms".toList ::
        Text.ofInt e.p.arp.arpSha :: "-Ps".toList :: Text.ofInt e.p.arp.arpSpa ::
          "-Pmd".toList :: Text.ofInt e.p.arp.arpTha :: "-Pd".toList ::
            [Text.ofInt e.p.arp.arpTpa] := by
  let op := (if e.p.arp.isRequest then "REQUEST" else "REPLY").toList
  have line : e.formatArp =
      Text.followed ["-P".toList, "arp".toList, "-Po".toList, op, "-Pms".toList,
        Text.ofInt e.p.arp.arpSha, "-Ps".toList, Text.ofInt e.p.arp.arpSpa, "-Pmd".toList,
        Text.ofInt e.p.arp.arpTha, "-Pd".toList, Text.ofInt e.p.arp.arpTpa] [] := by
    simp [formatArp, newtrace, sprintf, parse, render, convert, Text.followed, op]
  have solidOp : Text.Solid op := by
    cases request : e.p.arp.isRequest <;> simp only [op, request] <;> decide
  refine ⟨op, ?_⟩
  rw [line, Text.words_followed]
  · rfl
  · simp only [List.forall_mem_cons, solid_ofInt, solidOp, true_and]
    refine ⟨by decide, by decide, by decide, by decide, by decide, by decide, by decide, ?_⟩
    exact List.forall_mem_nil _

end TraceEvent

end AntAodv
