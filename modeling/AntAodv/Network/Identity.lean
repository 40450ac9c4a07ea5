import AntAodv.Network.History
import Mathlib.Algebra.Order.Field.Rat
import Mathlib.Data.Nat.ModEq

/-!
# The logged identity of an ant

The trace identifies an ant by `pkt_src` and `pkt_seq_num`.  The number is the
originator's count of ants, modulo 256; the source is the originator on the way out
and the destination on the way back.
-/

namespace AntAodv

open LoopErasure

variable {K : Type}

/-- What `format_antnet` writes of an ant to tell it from others. -/
def Packet.loggedIdentity (p : Packet K) : NsAddr × UInt8 := (p.ant.pktSrc, p.ant.pktSeqNum)

/-- The agent whose ant timer expires. -/
def Event.sender : Event K → Option NsAddr
  | .timer addr _ _ _ => some addr
  | _ => none

/-- How many ants the agent of `addr` has created in a run. -/
def sentCount (addr : NsAddr) (trace : List (Net K × Event K)) : ℕ :=
  trace.countP fun entry => entry.2.sender = some addr

/-- The packet `uid` is the ant that the agent of `addr` created for `dest`, after
`ordinal` other ones. -/
def SentAs (sim : Sim) (trace : List (Net K × Event K)) (uid : ℕ) (addr dest : NsAddr)
    (ordinal : ℕ) : Prop :=
  ∃ early net raws draws junk late,
    trace = early ++ (net, .timer addr raws draws junk) :: late ∧ net.uidcnt = uid ∧
      sentCount addr early = ordinal ∧
      Rtable.calcDestination sim net.globals.numNodes addr raws = some dest

/-- The source that an ant from `addr` to `dest` is logged with: its originator on
the way out, its destination on the way back. -/
def Packet.loggedSource (p : Packet K) (addr dest : NsAddr) : NsAddr :=
  if p.cmn.direction = .up then dest else addr

/-- The header of an ant from `addr` to `dest`. -/
structure Packet.Carries (p : Packet K) (addr dest : NsAddr) (ordinal : ℕ) : Prop where
  seqNum : p.ant.pktSeqNum = UInt8.ofNat ordinal
  ends : p.cmn.direction = .down ∧ p.ant.pktSrc = addr ∧ p.ant.pktDst = dest ∨
    p.cmn.direction = .up ∧ p.ant.pktSrc = dest ∧ p.ant.pktDst = addr

/-- What a run says about the numbers of its ants. -/
structure Numbered (sim : Sim) (trace : List (Net K × Event K)) (net : Net K) : Prop where
  counter : ∀ addr, (net.agent addr).antSeqNum = UInt8.ofNat (sentCount addr trace)
  ants : ∀ p ∈ net.flight, ∃ addr dest ordinal,
    SentAs sim trace p.cmn.uid addr dest ordinal ∧ p.Carries addr dest ordinal
  known : ∀ uid addr dest ordinal, SentAs sim trace uid addr dest ordinal →
    uid < net.uidcnt ∧ ordinal < sentCount addr trace
  /-- An ant has one originator, destination and number. -/
  byUid : ∀ uid addr dest ordinal addr' dest' ordinal',
    SentAs sim trace uid addr dest ordinal → SentAs sim trace uid addr' dest' ordinal' →
      addr = addr' ∧ dest = dest' ∧ ordinal = ordinal'
  /-- No two ants of an originator have the same number. -/
  byOrdinal : ∀ uid uid' addr dest dest' ordinal,
    SentAs sim trace uid addr dest ordinal → SentAs sim trace uid' addr dest' ordinal →
      uid = uid'

section Trace

variable {sim : Sim} {trace : List (Net K × Event K)} {net : Net K} {event : Event K}
  {uid ordinal : ℕ} {addr dest : NsAddr}

theorem sentCount_append (addr : NsAddr) (early late : List (Net K × Event K)) :
    sentCount addr (early ++ late) = sentCount addr early + sentCount addr late := by
  simp [sentCount]

theorem sentCount_timer (addr : NsAddr) (net : Net K) (raws : List ℕ) (draws : List K)
    (junk : NsAddr) : sentCount addr [(net, .timer addr raws draws junk)] = 1 := by
  simp [sentCount, Event.sender]

theorem sentCount_other (other : event.sender ≠ some addr) :
    sentCount addr [(net, event)] = 0 := by
  simp [sentCount, other]

theorem SentAs.append_left (sent : SentAs sim trace uid addr dest ordinal)
    (late : List (Net K × Event K)) : SentAs sim (trace ++ late) uid addr dest ordinal := by
  obtain ⟨early, first, raws, draws, junk, rest, rfl, same⟩ := sent
  exact ⟨early, first, raws, draws, junk, rest ++ late, by simp, same⟩

/-- An ant of a longer run was created before, or by the last step. -/
theorem SentAs.cases_append (sent : SentAs sim (trace ++ [(net, event)]) uid addr dest ordinal) :
    SentAs sim trace uid addr dest ordinal ∨
      event.sender = some addr ∧ uid = net.uidcnt ∧ ordinal = sentCount addr trace ∧
        ∃ raws draws junk, event = .timer addr raws draws junk ∧
          Rtable.calcDestination sim net.globals.numNodes addr raws = some dest := by
  obtain ⟨early, first, raws, draws, junk, rest, split, isUid, isOrdinal, chosen⟩ := sent
  rcases List.eq_nil_or_concat rest with rfl | ⟨before, last, rfl⟩
  · obtain ⟨rfl, same⟩ := List.append_inj' split rfl
    cases same
    apply Or.inr
    exact ⟨rfl, isUid.symm, isOrdinal.symm, raws, draws, junk, rfl, chosen⟩
  · rw [List.concat_eq_append, ← List.cons_append, ← List.append_assoc] at split
    obtain ⟨rfl, _⟩ := List.append_inj' split rfl
    apply Or.inl
    exact ⟨early, first, raws, draws, junk, before, rfl, isUid, isOrdinal, chosen⟩

end Trace

variable [Arithmetic K] [LinearOrder K] {sim : Sim} {medium : Medium K} {net net' : Net K}
  {event : Event K} {trace : List (Net K × Event K)}

theorem Emitted.antSeqNum {c c' : Call K} (emitted : Emitted sim c c') :
    c'.agent.antSeqNum = c.agent.antSeqNum + 1 := by
  cases emitted <;> rfl

theorem Received.antSeqNum {c c' : Call K} {p : Packet K} (received : Received sim c p c') :
    c'.agent.antSeqNum = c.agent.antSeqNum := by
  cases received <;> rfl

/-- A receiver keeps the number of an ant, and exchanges its ends when it turns it
round. -/
theorem Received.carries {c c' : Call K} {p q : Packet K} (received : Received sim c p c')
    (quiet : AntAodv.handed c.log = []) (sent : q ∈ AntAodv.handed c'.log) {addr dest : NsAddr}
    {ordinal : ℕ} (carries : p.Carries addr dest ordinal) : q.Carries addr dest ordinal := by
  cases received with
  | @turned ah ant arrived memorized path =>
      rw [handed_append, quiet] at sent
      rw [List.mem_singleton.mp sent]
      obtain ⟨seqNum, ⟨_, src, dst⟩ | ⟨up, _⟩⟩ := carries
      · exact ⟨memorized.pktSeqNum.trans seqNum, .inr ⟨rfl, memorized.pktDst.trans dst, memorized.pktSrc.trans src⟩⟩
      · exact absurd (ant.direction.symm.trans up) (by simp)
  | ended =>
      rw [handed_append, quiet] at sent
      cases sent
  | @forwarded ah result next ant underway memorized =>
      rw [handed_append, quiet] at sent
      rw [List.mem_singleton.mp sent]
      obtain ⟨seqNum, ⟨down, src, dst⟩ | ⟨up, _⟩⟩ := carries
      · exact ⟨memorized.pktSeqNum.trans seqNum, .inl ⟨down, memorized.pktSrc.trans src, memorized.pktDst.trans dst⟩⟩
      · exact absurd (ant.direction.symm.trans up) (by simp)
  | home =>
      rw [handed_append, handed_tableUpdated, quiet] at sent
      cases sent
  | returned ant =>
      rw [handed_append, handed_tableUpdated, quiet] at sent
      rw [List.mem_singleton.mp sent]
      obtain ⟨seqNum, ⟨down, _⟩ | ⟨_, src, dst⟩⟩ := carries
      · exact absurd (ant.direction.symm.trans down) (by simp)
      · exact ⟨seqNum, .inr ⟨rfl, src, dst⟩⟩

namespace Numbered

omit [LinearOrder K] in
theorem initial (params : NsAddr → Params K) : Numbered sim [] (Net.initial params) := by
  refine ⟨fun _ => rfl, by simp [Net.initial], ?_, ?_, ?_⟩
  · rintro uid addr dest ordinal ⟨early, _, _, _, _, late, split, _⟩
    simp at split
  · rintro uid addr dest ordinal _ _ _ ⟨early, _, _, _, _, late, split, _⟩
    simp at split
  · rintro uid _ addr dest _ ordinal ⟨early, _, _, _, _, late, split, _⟩
    simp at split

theorem step_counter (numbered : Numbered sim trace net) (stepped : net.Stepped sim event net') :
    ∀ addr, (net'.agent addr).antSeqNum =
      UInt8.ofNat (sentCount addr (trace ++ [(net, event)])) := by
  have idle : ∀ node, event.sender ≠ some node →
      (net.agent node).antSeqNum = UInt8.ofNat (sentCount node (trace ++ [(net, event)])) := by
    intro node other
    rw [sentCount_append, sentCount_other other, Nat.add_zero]
    exact numbered.counter node
  cases stepped with
  | tick time => exact fun node => idle node (by simp [Event.sender])
  | lose index => exact fun node => idle node (by simp [Event.sender])
  | start addr | stop addr =>
      have kept := fun node => idle node (by simp [Event.sender])
      exact net.forall_finish (fun node agent => agent.antSeqNum = _) kept (kept addr)
  | @deliver index sent ttl draws junk c _ _ _ received =>
      have kept := fun node => idle node (by simp [Event.sender])
      refine (net.remove index).forall_finish (fun node agent => agent.antSeqNum = _) kept ?_
      rw [received.antSeqNum]
      exact kept _
  | @timer addr raws draws junk c _ _ emitted =>
      intro node
      by_cases own : node = addr
      · subst own
        have count : sentCount node (trace ++ [(net, .timer node raws draws junk)]) =
            sentCount node trace + 1 := by
          rw [sentCount_append, sentCount_timer]
        have next : (net.finish node c).agent node = c.agent := by simp [Net.finish]
        rw [next, count, emitted.antSeqNum, UInt8.ofNat_add]
        exact congrArg (· + 1) (numbered.counter node)
      · have kept := idle node (by simp [Event.sender, Ne.symm own])
        simpa [Net.finish, own] using kept

theorem step_ants (numbered : Numbered sim trace net) (wellFormed : net.WellFormed sim)
    (stepped : net.Stepped sim event net') {p : Packet K} (inFlight : p ∈ net'.flight) :
    ∃ addr dest ordinal, SentAs sim (trace ++ [(net, event)]) p.cmn.uid addr dest ordinal ∧
      p.Carries addr dest ordinal := by
  cases stepped.source wellFormed inFlight with
  | kept stayed =>
      obtain ⟨addr, dest, ordinal, sent, carries⟩ := numbered.ants p stayed
      exact ⟨addr, dest, ordinal, sent.append_left _, carries⟩
  | @emitted addr raws draws junk dest next _ _ _ same chosen =>
      have own : (net.call addr none raws draws junk).agent.addr = addr := wellFormed.addr addr
      refine ⟨addr, dest, sentCount addr trace,
        ⟨trace, net, raws, draws, junk, [], rfl, by rw [same]; rfl, rfl, chosen⟩, ?_, .inl ?_⟩
      · rw [same]
        exact numbered.counter addr
      · rw [same]
        exact ⟨rfl, own, rfl⟩
  | passed delivered _ _ received sent =>
      obtain ⟨addr, dest, ordinal, origin, carries⟩ :=
        numbered.ants _ (List.mem_of_getElem? delivered)
      refine ⟨addr, dest, ordinal, ?_, received.carries rfl sent ⟨carries.seqNum, carries.ends⟩⟩
      rw [received.uid rfl sent]
      exact origin.append_left _

omit [Arithmetic K] [LinearOrder K] in
theorem sentCount_lt_of_sender {addr : NsAddr} (sender : event.sender = some addr) :
    sentCount addr trace < sentCount addr (trace ++ [(net, event)]) := by
  simp [sentCount, sender]

theorem uidcnt_lt_of_sender {addr : NsAddr} (stepped : net.Stepped sim event net')
    (sender : event.sender = some addr) : net.uidcnt < net'.uidcnt := by
  cases stepped with
  | timer _ _ emitted => cases emitted <;> exact Nat.lt_succ_self _
  | _ => cases sender

theorem step (numbered : Numbered sim trace net) (wellFormed : net.WellFormed sim)
    (stepped : net.Stepped sim event net') : Numbered sim (trace ++ [(net, event)]) net' where
  counter := numbered.step_counter stepped
  ants _ inFlight := numbered.step_ants wellFormed stepped inFlight
  known uid addr dest ordinal sent := by
    rcases sent.cases_append with before | ⟨sender, rfl, rfl, _⟩
    · obtain ⟨early, fewer⟩ := numbered.known uid addr dest ordinal before
      refine ⟨early.trans_le stepped.uidcnt_le, fewer.trans_le ?_⟩
      rw [sentCount_append]
      exact Nat.le_add_right _ _
    · exact ⟨uidcnt_lt_of_sender stepped sender, sentCount_lt_of_sender sender⟩
  byUid uid addr dest ordinal addr' dest' ordinal' sent sent' := by
    rcases sent.cases_append with before | ⟨_, rfl, rfl, _, _, _, rfl, chosen⟩
    · rcases sent'.cases_append with before' | ⟨_, rfl, _⟩
      · exact numbered.byUid uid addr dest ordinal addr' dest' ordinal' before before'
      · exact absurd (numbered.known _ _ _ _ before).1 (lt_irrefl _)
    · rcases sent'.cases_append with before' | ⟨_, _, rfl, _, _, _, same, chosen'⟩
      · exact absurd (numbered.known _ _ _ _ before').1 (lt_irrefl _)
      · cases same
        cases chosen.symm.trans chosen'
        exact ⟨rfl, rfl, rfl⟩
  byOrdinal uid uid' addr dest dest' ordinal sent sent' := by
    rcases sent.cases_append with before | ⟨_, rfl, rfl, _⟩
    · rcases sent'.cases_append with before' | ⟨_, _, rfl, _⟩
      · exact numbered.byOrdinal uid uid' addr dest dest' ordinal before before'
      · exact absurd (numbered.known _ _ _ _ before).2 (lt_irrefl _)
    · rcases sent'.cases_append with before' | ⟨_, rfl, _⟩
      · exact absurd (numbered.known _ _ _ _ before').2 (lt_irrefl _)
      · rfl

end Numbered

theorem Medium.Faithful.numbered (faithful : medium.Faithful) {params : NsAddr → Params K}
    (run : (network sim medium params).Run (Net.initial params) trace net) :
    net.WellFormed sim ∧ Numbered sim trace net := by
  induction run with
  | refl => exact ⟨.initial params, .initial params⟩
  | snoc _ step inductionHypothesis =>
      obtain ⟨wellFormed, numbered⟩ := inductionHypothesis
      have stepped := wellFormed.stepped step.1 (faithful.unchanged step.1) step.2
      exact ⟨wellFormed.step stepped, numbered.step wellFormed stepped⟩

omit [Arithmetic K] [LinearOrder K] in
/-- An ant is logged with its source at the time and its number modulo 256. -/
theorem Packet.Carries.loggedIdentity {p : Packet K} {addr dest : NsAddr} {ordinal : ℕ}
    (carries : p.Carries addr dest ordinal) :
    p.loggedIdentity = (p.loggedSource addr dest, UInt8.ofNat ordinal) := by
  rcases carries.ends with ⟨down, src, _⟩ | ⟨up, src, _⟩
  · simp [Packet.loggedIdentity, Packet.loggedSource, down, src, carries.seqNum]
  · simp [Packet.loggedIdentity, Packet.loggedSource, up, src, carries.seqNum]

theorem ofNat_eq_ofNat_iff {ordinal ordinal' : ℕ} :
    UInt8.ofNat ordinal = UInt8.ofNat ordinal' ↔ ordinal ≡ ordinal' [MOD 256] := by
  rw [UInt8.ofNat_eq_iff_mod_eq_toNat, UInt8.toNat_ofNat', Nat.ModEq]

/-- When two ants in flight have the same logged identity. -/
structure Collision (sim : Sim) (trace : List (Net K × Event K)) (net : Net K)
    (p q : Packet K) : Prop where
  /-- They differ in their originators or numbers. -/
  different : ∀ addr dest ordinal addr' dest' ordinal',
    SentAs sim trace p.cmn.uid addr dest ordinal → SentAs sim trace q.cmn.uid addr' dest' ordinal' →
      addr ≠ addr' ∨ ordinal ≠ ordinal'
  same : ∀ addr dest ordinal addr' dest' ordinal',
    SentAs sim trace p.cmn.uid addr dest ordinal → SentAs sim trace q.cmn.uid addr' dest' ordinal' →
      (p.loggedIdentity = q.loggedIdentity ↔
        p.loggedSource addr dest = q.loggedSource addr' dest' ∧ ordinal ≡ ordinal' [MOD 256])
  /-- Ants of one originator are told apart when they were created fewer than 256 ants
  apart. -/
  apart : ∀ addr dest ordinal dest' ordinal',
    SentAs sim trace p.cmn.uid addr dest ordinal → SentAs sim trace q.cmn.uid addr dest' ordinal' →
      ordinal < ordinal' + 256 → ordinal' < ordinal + 256 → p.loggedIdentity ≠ q.loggedIdentity

/-- Every ant in flight has its originator, destination and number, and these tell
when it shares its logged identity with another one. -/
theorem loggedIdentity_of_run (faithful : medium.Faithful) {params : NsAddr → Params K}
    (run : (network sim medium params).Run (Net.initial params) trace net) :
    (∀ p ∈ net.flight, ∃ addr dest ordinal, SentAs sim trace p.cmn.uid addr dest ordinal) ∧
      ∀ p ∈ net.flight, ∀ q ∈ net.flight, p ≠ q → Collision sim trace net p q := by
  obtain ⟨wellFormed, numbered⟩ := faithful.numbered run
  have header : ∀ p ∈ net.flight, ∀ addr dest ordinal,
      SentAs sim trace p.cmn.uid addr dest ordinal →
        p.loggedIdentity = (p.loggedSource addr dest, UInt8.ofNat ordinal) := by
    intro p inFlight addr dest ordinal sent
    obtain ⟨_, _, _, sent', carries⟩ := numbered.ants p inFlight
    obtain ⟨rfl, rfl, rfl⟩ := numbered.byUid _ _ _ _ _ _ _ sent sent'
    exact carries.loggedIdentity
  constructor
  · intro p inFlight
    obtain ⟨addr, dest, ordinal, sent, _⟩ := numbered.ants p inFlight
    exact ⟨addr, dest, ordinal, sent⟩
  · intro p pInFlight q qInFlight distinct
    have different : ∀ addr dest ordinal addr' dest' ordinal',
        SentAs sim trace p.cmn.uid addr dest ordinal →
        SentAs sim trace q.cmn.uid addr' dest' ordinal' → addr ≠ addr' ∨ ordinal ≠ ordinal' := by
      intro addr dest ordinal addr' dest' ordinal' sent sent'
      by_contra same
      rw [not_or, not_not, not_not] at same
      obtain ⟨rfl, rfl⟩ := same
      have uid := numbered.byOrdinal _ _ _ _ _ _ sent sent'
      exact distinct (wellFormed.eq_of_uid pInFlight qInFlight uid)
    refine ⟨different, ?_, ?_⟩
    · intro addr dest ordinal addr' dest' ordinal' sent sent'
      rw [header p pInFlight _ _ _ sent, header q qInFlight _ _ _ sent', Prod.mk.injEq,
        ofNat_eq_ofNat_iff]
    · intro addr dest ordinal dest' ordinal' sent sent' near near' same
      rw [header p pInFlight _ _ _ sent, header q qInFlight _ _ _ sent', Prod.mk.injEq,
        ofNat_eq_ofNat_iff] at same
      have congruent : ordinal % 256 = ordinal' % 256 := same.2
      rcases different _ _ _ _ _ _ sent sent' with other | other
      · exact other rfl
      · omega

/-- Two neighbours each create their first ant for the other one. -/
def crossing : Option (List (Net ℚ × Event ℚ) × Net ℚ) :=
  (Net.initial fun _ => ⟨1 / 2, 2⟩).follow (Sim.line 2 maxNumNodes) (.perfect ℚ)
    [fun _ => some (.start 0), fun _ => some (.start 1), fun _ => some (.timer 0 [1] [0] 0),
      deliverAs 0 id [] 0, fun _ => some (.timer 1 [0] [0] 0)]

/-- In this run the ants are told apart by their originators, and logged alike. -/
theorem loggedIdentity_of_run_crossing :
    ∃ trace net p q, crossing = some (trace, net) ∧ net.flight = [p, q] ∧
      Collision (Sim.line 2 maxNumNodes) trace net p q := by
  have observed : crossing.map (fun outcome => decide (outcome.2.flight.length = 2 ∧
      outcome.2.flight[0]? ≠ outcome.2.flight[1]?)) = some true := by
    decide +kernel
  rcases Option.map_eq_some_iff.mp observed with ⟨⟨trace, net⟩, followed, ready⟩
  obtain ⟨two, different⟩ := of_decide_eq_true ready
  simp only at two different
  rcases List.length_eq_two.mp two with ⟨p, q, flight⟩
  have distinct : p ≠ q := by simpa [flight] using different
  have run : (network (Sim.line 2 maxNumNodes) (.perfect ℚ) fun _ => ⟨1 / 2, 2⟩).Run
      (Net.initial fun _ => ⟨1 / 2, 2⟩) trace net :=
    Net.run_of_follow _ followed
  exact ⟨trace, net, p, q, followed, flight,
    (loggedIdentity_of_run (Medium.perfect_faithful ℚ) run).2 p (by simp [flight]) q
      (by simp [flight]) distinct⟩

/-- The backward ant of node 0 and the forward ant of node 1 are both logged as number 0
from node 1. -/
theorem loggedIdentity_not_unique :
    ¬ ∀ (sim : Sim) (medium : Medium ℚ) (params : NsAddr → Params ℚ) (net : Net ℚ),
      medium.Faithful → (network sim medium params).Reachable net →
        ∀ p ∈ net.flight, ∀ q ∈ net.flight, p ≠ q → p.loggedIdentity ≠ q.loggedIdentity := by
  intro unique
  have observed : crossing.map (fun outcome =>
      outcome.2.flight.map fun p => (p.loggedIdentity, p.cmn.direction)) =
        some [((1, 0), .up), ((1, 0), .down)] := by
    decide +kernel
  obtain ⟨trace, net, run, shape⟩ := Net.exists_run_of_follow _ observed
  rcases List.map_eq_cons_iff.mp shape with ⟨p, rest, flight, isFirst, isRest⟩
  rcases List.map_eq_singleton_iff.mp isRest with ⟨q, rfl, isSecond⟩
  rw [Prod.mk.injEq] at isFirst isSecond
  have reached : (network (Sim.line 2 maxNumNodes) (.perfect ℚ) fun _ => ⟨1 / 2, 2⟩).Reachable net :=
    ⟨_, trace, rfl, run⟩
  have distinct : p ≠ q := by
    rintro rfl
    cases isFirst.2.symm.trans isSecond.2
  exact unique _ _ _ net (Medium.perfect_faithful ℚ) reached p (by rw [flight]; simp) q
    (by rw [flight]; simp) distinct (isFirst.1.trans isSecond.1.symm)

end AntAodv
