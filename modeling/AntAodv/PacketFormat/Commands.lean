import AntAodv.PacketFormat

/-!
# Commands on the table of headers

The procedures of `ns-packet.tcl` with which a script chooses its headers before the
packet format is created, in any order and any number.
-/

namespace AntAodv

/-- The index of a header in `tab_`. -/
def headerIndex (cl : String) : String := "PacketHeader/" ++ cl

/-- What a script may call. -/
inductive TableCommand where
  | addPacketHeader (args : List String)
  | addAllPacketHeaders
  | removePacketHeader (args : List String)
  | removeAllPacketHeaders
  deriving DecidableEq

/-- `unset tab_(index)`, an error where there is no such index. -/
def unsetTab (tab : List String) (index : String) : Option (List String) :=
  if index ∈ tab then some (tab.filter (· ≠ index)) else none

def removePacketHeader (tab : List String) : List String → Option (List String)
  | [] => some tab
  | cl :: args =>
      -- the common packet header cannot be excluded
      if cl = "Common" then removePacketHeader tab args
      else (unsetTab tab (headerIndex cl)).bind fun tab => removePacketHeader tab args

/-- Only headers that are in the table are put there. -/
def addAllPacketHeaders (linked : Linked) (tab : List String) : List String :=
  linked.classes.foldl (fun tab cl => if cl.name ∈ tab then tab ++ [cl.name] else tab) tab

def removeAllPacketHeaders (linked : Linked) (tab : List String) : List String :=
  linked.classes.foldl (fun tab cl =>
    if cl.name ≠ headerIndex "Common" then
      if cl.name ∈ tab then tab.filter (· ≠ cl.name) else tab
    else tab) tab

namespace TableCommand

/-- The table after a command, unless the command fails. -/
def exec (linked : Linked) (tab : List String) : TableCommand → Option (List String)
  | .addPacketHeader args => some (args.foldl AntAodv.addPacketHeader tab)
  | .addAllPacketHeaders => some (AntAodv.addAllPacketHeaders linked tab)
  | .removePacketHeader args => AntAodv.removePacketHeader tab args
  | .removeAllPacketHeaders => some (AntAodv.removeAllPacketHeaders linked tab)

/-- The table after a script. -/
def execAll (linked : Linked) (tab : List String) : List TableCommand → Option (List String)
  | [] => some tab
  | command :: script => (command.exec linked tab).bind fun tab => execAll linked tab script

/-- Whether a command wants a header, if it is about it. -/
def wants (linked : Linked) (name : String) : TableCommand → Option Bool
  | .addPacketHeader args => if name ∈ args.map headerIndex then some true else none
  | .addAllPacketHeaders => none
  | .removePacketHeader args =>
      if name ∈ (args.filter (· ≠ "Common")).map headerIndex then some false else none
  | .removeAllPacketHeaders =>
      if name ∈ linked.classes.map HeaderClass.name ∧ name ≠ headerIndex "Common" then some false
      else none

/-- What the last command about a header wants. -/
def lastWanted (linked : Linked) (name : String) : List TableCommand → Option Bool
  | [] => none
  | command :: script => (lastWanted linked name script).or (command.wants linked name)

end TableCommand

variable {linked : Linked} {tab tab' : List String} {name : String}

theorem mem_foldl_addPacketHeader (args : List String) :
    name ∈ args.foldl addPacketHeader tab ↔ name ∈ tab ∨ name ∈ args.map headerIndex := by
  induction args generalizing tab with
  | nil => simp
  | cons cl args inductionHypothesis =>
      rw [List.foldl_cons, inductionHypothesis, addPacketHeader, List.mem_append,
        List.mem_singleton, or_assoc, List.map_cons, List.mem_cons]
      rfl

theorem mem_unsetTab {index : String} (unset : unsetTab tab index = some tab') :
    name ∈ tab' ↔ name ∈ tab ∧ name ≠ index := by
  rw [unsetTab] at unset
  split at unset
  next =>
    obtain rfl := Option.some.inj unset
    simp
  next => cases unset

theorem mem_removePacketHeader {args : List String}
    (removed : removePacketHeader tab args = some tab') :
    name ∈ tab' ↔ name ∈ tab ∧ name ∉ (args.filter (· ≠ "Common")).map headerIndex := by
  induction args generalizing tab with
  | nil =>
      obtain rfl := Option.some.inj removed
      simp
  | cons cl args inductionHypothesis =>
      rw [removePacketHeader] at removed
      split at removed
      next common => simpa [common] using inductionHypothesis removed
      next other =>
        obtain ⟨middle, unset, later⟩ := Option.bind_eq_some_iff.mp removed
        rw [inductionHypothesis later, mem_unsetTab unset,
          List.filter_cons_of_pos (by simpa using other), List.map_cons, List.mem_cons, not_or,
          and_assoc]

/-- Adding all headers brings no removed one back. -/
theorem mem_addAllPacketHeaders : name ∈ addAllPacketHeaders linked tab ↔ name ∈ tab := by
  rw [addAllPacketHeaders]
  induction linked.classes generalizing tab with
  | nil => rfl
  | cons cl classes inductionHypothesis =>
      rw [List.foldl_cons, inductionHypothesis]
      split
      next listed =>
        rw [List.mem_append, List.mem_singleton]
        exact or_iff_left_of_imp fun same => same ▸ listed
      next => rfl

theorem mem_removeAllPacketHeaders :
    name ∈ removeAllPacketHeaders linked tab ↔
      name ∈ tab ∧
        ¬ (name ∈ linked.classes.map HeaderClass.name ∧ name ≠ headerIndex "Common") := by
  rw [removeAllPacketHeaders]
  induction linked.classes generalizing tab with
  | nil => simp
  | cons cl classes inductionHypothesis =>
      have one : name ∈ (if cl.name ≠ headerIndex "Common" then
          if cl.name ∈ tab then tab.filter (· ≠ cl.name) else tab else tab) ↔
            name ∈ tab ∧ ¬ (name = cl.name ∧ name ≠ headerIndex "Common") := by
        by_cases same : name = cl.name
        · subst same
          split
          next other =>
            split
            next => simp [other]
            next absent => simp [absent]
          next common => simp [not_not.mp common]
        · split
          next =>
            split
            next => simp [same]
            next => simp [same]
          next => simp [same]
      rw [List.foldl_cons, inductionHypothesis, one, List.map_cons, List.mem_cons]
      tauto

/-- A header is in the table when the command wants it, or is not about it and it was there. -/
theorem TableCommand.mem_exec {command : TableCommand}
    (executed : command.exec linked tab = some tab') :
    name ∈ tab' ↔ (command.wants linked name).getD (decide (name ∈ tab)) = true := by
  cases command with
  | addPacketHeader args =>
      obtain rfl := Option.some.inj executed
      rw [mem_foldl_addPacketHeader, wants]
      split
      next wanted => simp [wanted]
      next silent => simp [silent]
  | addAllPacketHeaders =>
      obtain rfl := Option.some.inj executed
      simp [mem_addAllPacketHeaders, wants]
  | removePacketHeader args =>
      rw [mem_removePacketHeader executed, wants]
      split
      next unwanted => exact iff_of_false (fun both => both.2 unwanted) (by simp)
      next silent => exact (and_iff_left silent).trans (by simp)
  | removeAllPacketHeaders =>
      obtain rfl := Option.some.inj executed
      rw [mem_removeAllPacketHeaders, wants]
      split
      next unwanted => exact iff_of_false (fun both => both.2 unwanted) (by simp)
      next silent => exact (and_iff_left silent).trans (by simp)

namespace TableCommand

theorem mem_execAll {script : List TableCommand}
    (executed : execAll linked tab script = some tab') :
    name ∈ tab' ↔ (lastWanted linked name script).getD (decide (name ∈ tab)) = true := by
  induction script generalizing tab with
  | nil =>
      obtain rfl := Option.some.inj executed
      simp [lastWanted]
  | cons command script inductionHypothesis =>
      obtain ⟨middle, first, later⟩ := Option.bind_eq_some_iff.mp executed
      have before : decide (name ∈ middle) =
          (command.wants linked name).getD (decide (name ∈ tab)) := by
        rw [Bool.eq_iff_iff, decide_eq_true_eq, mem_exec first]
      rw [inductionHypothesis later, lastWanted, before]
      cases lastWanted linked name script <;> rfl

/-- No command is against the common header. -/
theorem lastWanted_common (script : List TableCommand) :
    lastWanted linked (headerIndex "Common") script ≠ some false := by
  induction script with
  | nil => simp [lastWanted]
  | cons command script inductionHypothesis =>
      have kept : command.wants linked (headerIndex "Common") ≠ some false := by
        cases command with
        | addPacketHeader args => simp [wants]
        | addAllPacketHeaders => simp [wants]
        | removePacketHeader args =>
            have absent : headerIndex "Common" ∉
                (args.filter (· ≠ "Common")).map headerIndex := by
              intro removed
              obtain ⟨cl, inArgs, same⟩ := List.mem_map.mp removed
              rw [headerIndex, headerIndex, String.append_right_inj] at same
              simp [same] at inArgs
            rw [wants, if_neg absent]
            decide
        | removeAllPacketHeaders => simp [wants]
      rw [lastWanted]
      cases later : lastWanted linked (headerIndex "Common") script with
      | none => simpa using kept
      | some value => simpa [later] using inductionHypothesis

end TableCommand

/-- Whatever a script does to the table, a header then owns its bytes exactly when the last
command about it wants it, or when none is about it and `protolist` names it.  The common
header always does. -/
theorem header_owns_bytes_after_script {script : List TableCommand} {cl : HeaderClass}
    (executed : TableCommand.execAll linked protoTab script = some tab)
    (isLinked : cl ∈ linked.classes) :
    (OwnsBytes tab linked cl ↔
      (TableCommand.lastWanted linked cl.name script).getD (decide (cl.name ∈ protoTab)) = true) ∧
    (cl.name = headerIndex "Common" → OwnsBytes tab linked cl) := by
  have owns : OwnsBytes tab linked cl ↔
      (TableCommand.lastWanted linked cl.name script).getD (decide (cl.name ∈ protoTab)) = true :=
    (ownsBytes_iff_listed isLinked).trans (TableCommand.mem_execAll executed)
  refine ⟨owns, fun common => owns.mpr ?_⟩
  have listed : headerIndex "Common" ∈ protoTab := by decide
  have kept : TableCommand.lastWanted linked (headerIndex "Common") script ≠ some false :=
    TableCommand.lastWanted_common script
  rw [common]
  cases last : TableCommand.lastWanted linked (headerIndex "Common") script with
  | none => simpa using listed
  | some wanted =>
      cases wanted with
      | true => rfl
      | false => exact absurd last kept

/-- A script removes all headers, which adding all of them does not undo, and then adds
those it needs. -/
theorem header_owns_bytes_after_script_ant :
    ∃ tab, TableCommand.execAll commonIpAnt protoTab
        [.removePacketHeader ["Common", "IP"], .removeAllPacketHeaders, .addAllPacketHeaders,
          .addPacketHeader ["Ant"]] = some tab ∧
      OwnsBytes tab commonIpAnt ⟨antHeaderName, 288, by decide⟩ := by
  obtain ⟨tab, executed⟩ := Option.isSome_iff_exists.mp (show (TableCommand.execAll commonIpAnt
    protoTab [.removePacketHeader ["Common", "IP"], .removeAllPacketHeaders, .addAllPacketHeaders,
      .addPacketHeader ["Ant"]]).isSome = true by decide)
  exact ⟨tab, executed, (header_owns_bytes_after_script executed (by decide)).1.mpr (by decide)⟩

end AntAodv
