import AntAodv.Library.Awk
import Mathlib.Algebra.BigOperators.Group.Finset.Basic
import Mathlib.Algebra.Order.Field.Basic
import Mathlib.Tactic.Linarith
import Mathlib.Tactic.NormNum
import Mathlib.Tactic.Positivity

/-!
# The delay script in awk

`Delay.awk` on wired traces: the tables of send and receive times it keeps from the
events of every hop, and the average delay it prints.
-/

namespace AntAodv

/-- The variables the printed average depends on.  `none` stands for a variable, a
field or an entry without a value. -/
structure DelayAwk where
  event : Option Text
  time : Option Text
  pktId : Option Text
  level : Option Text
  sendTime : Text → Option Text
  recvTime : Text → Option (Option Text)

namespace DelayAwk

def start : DelayAwk := ⟨none, none, none, none, fun _ => none, fun _ => none⟩

/-- The main rule, for one line. -/
def mainRule (s : DelayAwk) (line : Text) : DelayAwk :=
  let s := if Awk.field line 2 ≠ some "-t".toList then
      { s with
        event := Awk.field line 1
        time := Awk.field line 2
        pktId := Awk.field line 12
        level := some "AGT".toList }
    else s
  let pktId := s.pktId.getD []
  let s := if s.level = some "AGT".toList ∧ Awk.equalsField 0 (s.sendTime pktId) = true ∧
      (s.event = some "+".toList ∨ s.event = some "s".toList) then
      { s with sendTime := Function.update s.sendTime pktId s.time }
    else s
  if s.level = some "AGT".toList ∧ s.event = some "r".toList then
    { s with recvTime := Function.update s.recvTime pktId (some s.time) }
  else s

/-- The tables after all lines. -/
def run (lines : List Text) : DelayAwk := lines.foldl mainRule start

/-- An order in which awk can visit the indices of `recvTime`: which one it takes is
left open. -/
structure Visits (ids : List Text) (s : DelayAwk) : Prop where
  nodup : ids.Nodup
  mem_iff : ∀ id, id ∈ ids ↔ (s.recvTime id).isSome

/-- What is printed: the packets said not to be sent, and the average before
rounding. -/
structure Report where
  unsent : List Text
  avgDelay : ℚ
  deriving DecidableEq

/-- The `END` rule, with the indices of `recvTime` in the order they are visited. -/
def endRule (ids : List Text) (s : DelayAwk) : Report :=
  let (unsent, delay, recvdNum) := ids.foldl (fun (unsent, delay, recvdNum) i =>
    (if Awk.equalsField 0 (s.sendTime i) then unsent ++ [i] else unsent,
      delay + (Awk.fieldNumber (s.recvTime i).join - Awk.fieldNumber (s.sendTime i)),
      recvdNum + 1)) (([], 0, 0) : List Text × ℚ × ℕ)
  let avgDelay := if recvdNum ≠ 0 then delay / recvdNum else 0
  ⟨unsent, avgDelay * 1000⟩

/-! ### What the events say -/

inductive HopEvent where
  | enqueue
  | dequeue
  | receive
  | drop
  deriving DecidableEq

def HopEvent.symbol : HopEvent → Text
  | .enqueue => "+".toList
  | .dequeue => "-".toList
  | .receive => "r".toList
  | .drop => "d".toList

/-- An event of a packet on its way to `toNode`, and to the node `dst` in the end. -/
structure Hop where
  event : HopEvent
  time : ℚ
  toNode : Text
  dst : Text
  id : Text
  deriving DecidableEq

/-- The event of a line `event time from to type size flags fid src dst seq id`, where
`dst` is a node and a port. -/
def hop (line : Text) : Option Hop :=
  match Text.words line with
  | [event, time, _, toNode, _, _, _, _, _, dst, _, id] =>
      if Awk.looksNumeric time then
        ([.enqueue, .dequeue, .receive, .drop].find? fun e : HopEvent => e.symbol = event).map
          fun event => ⟨event, Awk.number time, toNode, dst.takeWhile (· ≠ '.'), id⟩
      else none
  | _ => none

def hops (lines : List Text) : List Hop := lines.filterMap hop

/-- A wired trace in time order. -/
structure WiredTrace (lines : List Text) : Prop where
  parsed : ∀ line ∈ lines, (hop line).isSome
  ordered : ((hops lines).map Hop.time).Pairwise (· ≤ ·)
  nonneg : ∀ h ∈ hops lines, 0 ≤ h.time

instance (lines : List Text) : Decidable (WiredTrace lines) :=
  decidable_of_iff ((∀ line ∈ lines, (hop line).isSome) ∧
      ((hops lines).map Hop.time).Pairwise (· ≤ ·) ∧ ∀ h ∈ hops lines, 0 ≤ h.time)
    ⟨fun all => ⟨all.1, all.2.1, all.2.2⟩, fun trace => ⟨trace.parsed, trace.ordered, trace.nonneg⟩⟩

namespace Hop

def IsSend (h : Hop) : Prop := h.event = .enqueue

/-- The packet is received at a node, where it may be sent on. -/
def IsReception (h : Hop) : Prop := h.event = .receive

/-- The packet is received at its destination. -/
def IsDelivery (h : Hop) : Prop := h.event = .receive ∧ h.toNode = h.dst

instance : DecidablePred IsSend := fun h => inferInstanceAs (Decidable (h.event = _))
instance : DecidablePred IsReception := fun h => inferInstanceAs (Decidable (h.event = _))
instance : DecidablePred IsDelivery := fun h =>
  inferInstanceAs (Decidable (h.event = _ ∧ h.toNode = h.dst))

end Hop

/-- The times of the chosen events of a packet. -/
def times (chosen : Hop → Prop) [DecidablePred chosen] (trace : List Hop) (id : Text) : List ℚ :=
  (trace.filter fun h => chosen h ∧ h.id = id).map Hop.time

/-- The packets with a chosen event. -/
def packets (chosen : Hop → Prop) [DecidablePred chosen] (trace : List Hop) : Finset Text :=
  ((trace.filter fun h => chosen h).map Hop.id).toFinset

def delivered (trace : List Hop) : Finset Text := packets Hop.IsDelivery trace

def firstSend (trace : List Hop) (id : Text) : ℚ := (times Hop.IsSend trace id).head?.getD 0

def delivery (trace : List Hop) (id : Text) : ℚ := (times Hop.IsDelivery trace id).getLast?.getD 0

/-- The time a packet took to its destination. -/
def endToEnd (trace : List Hop) (id : Text) : ℚ := delivery trace id - firstSend trace id

/-- No packet is received on the way only. -/
def AllDelivered (trace : List Hop) : Prop :=
  ∀ h ∈ trace, h.IsReception → h.id ∈ delivered trace

/-- No delivered packet is received anywhere after its delivery. -/
def DeliveredLast (trace : List Hop) : Prop :=
  ∀ h ∈ trace, h.IsReception → h.id ∈ delivered trace → h.time ≤ delivery trace h.id

/-- No delivered packet is sent at time zero first and later again. -/
def StartKept (trace : List Hop) : Prop :=
  ∀ h ∈ trace, h.IsSend → h.id ∈ delivered trace → firstSend trace h.id = 0 → h.time = 0

instance (trace : List Hop) : Decidable (AllDelivered trace) :=
  inferInstanceAs (Decidable (∀ h ∈ trace, _ → _))

instance (trace : List Hop) : Decidable (DeliveredLast trace) :=
  inferInstanceAs (Decidable (∀ h ∈ trace, _ → _ → _))

instance (trace : List Hop) : Decidable (StartKept trace) :=
  inferInstanceAs (Decidable (∀ h ∈ trace, _ → _ → _ → _))

/-- The mean delay of the delivered packets, zero without one. -/
def meanDelay (trace : List Hop) : ℚ :=
  if (delivered trace).Nonempty then
    (∑ id ∈ delivered trace, endToEnd trace id) / (delivered trace).card
  else 0

/-! ### What the script makes of them -/

/-- The packets received anywhere. -/
def receivedPackets (trace : List Hop) : Finset Text := packets Hop.IsReception trace

/-- The packets received on the way only. -/
def undelivered (trace : List Hop) : Finset Text := receivedPackets trace \ delivered trace

/-- The first time other than zero at which a packet is sent by a node. -/
def keptSend (trace : List Hop) (id : Text) : ℚ :=
  ((times Hop.IsSend trace id).find? (· ≠ 0)).getD 0

def lastReception (trace : List Hop) (id : Text) : ℚ :=
  (times Hop.IsReception trace id).getLast?.getD 0

/-- The delay the script counts for a packet. -/
def counted (trace : List Hop) (id : Text) : ℚ := lastReception trace id - keptSend trace id

/-- The time counted that is not part of a delay. -/
def surplus (trace : List Hop) : ℚ :=
  ∑ id ∈ undelivered trace, counted trace id +
    ∑ id ∈ delivered trace, (counted trace id - endToEnd trace id)

/-! ### One more event -/

theorem times_concat (chosen : Hop → Prop) [DecidablePred chosen] (trace : List Hop) (h : Hop)
    (id : Text) :
    times chosen (trace ++ [h]) id =
      times chosen trace id ++ if chosen h ∧ h.id = id then [h.time] else [] := by
  unfold times
  rw [List.filter_append, List.map_append]
  by_cases isChosen : chosen h ∧ h.id = id <;> simp [isChosen]

theorem times_eq_nil_iff {chosen : Hop → Prop} [DecidablePred chosen] {trace : List Hop}
    {id : Text} : times chosen trace id = [] ↔ id ∉ packets chosen trace := by
  simp [times, packets]

theorem mem_times_iff {chosen : Hop → Prop} [DecidablePred chosen] {trace : List Hop}
    {id : Text} {time : ℚ} :
    time ∈ times chosen trace id ↔ ∃ h ∈ trace, (chosen h ∧ h.id = id) ∧ h.time = time := by
  simp [times, and_assoc]

theorem mem_packets_concat {chosen : Hop → Prop} [DecidablePred chosen] {trace : List Hop}
    {h : Hop} {id : Text} :
    id ∈ packets chosen (trace ++ [h]) ↔ id ∈ packets chosen trace ∨ chosen h ∧ h.id = id := by
  rw [← not_iff_not, ← times_eq_nil_iff, times_concat, List.append_eq_nil_iff,
    times_eq_nil_iff, not_or]
  by_cases isChosen : chosen h ∧ h.id = id <;> simp [isChosen]

theorem keptSend_concat (trace : List Hop) (h : Hop) (id : Text) :
    keptSend (trace ++ [h]) id =
      if (h.IsSend ∧ h.id = id) ∧ keptSend trace id = 0 then h.time else keptSend trace id := by
  unfold keptSend
  rw [times_concat, List.find?_append]
  cases found : (times Hop.IsSend trace id).find? (· ≠ 0) with
  | none =>
      by_cases isSend : h.IsSend ∧ h.id = id
      · by_cases zero : h.time = 0 <;> simp [isSend, zero]
      · simp [isSend]
  | some kept =>
      have nonzero : kept ≠ 0 := by simpa using List.find?_some found
      simp [nonzero]

theorem lastReception_concat (trace : List Hop) (h : Hop) (id : Text) :
    lastReception (trace ++ [h]) id =
      if h.IsReception ∧ h.id = id then h.time else lastReception trace id := by
  unfold lastReception
  rw [times_concat]
  split
  next => simp
  next => rw [List.append_nil]

/-! ### One line -/

/-- The fields of a line of the event `h`. -/
structure Fields (line : Text) (h : Hop) (time : Text) : Prop where
  eventField : Awk.field line 1 = some h.event.symbol
  timeField : Awk.field line 2 = some time
  pktIdField : Awk.field line 12 = some h.id
  numeric : Awk.looksNumeric time = true
  value : Awk.number time = h.time

theorem exists_fields {line : Text} {h : Hop} (read : hop line = some h) :
    ∃ time, Fields line h time := by
  unfold hop at read
  split at read
  next event time _ toNode _ _ _ _ _ dst _ id split =>
    by_cases numeric : Awk.looksNumeric time = true
    · rw [if_pos numeric, Option.map_eq_some_iff] at read
      obtain ⟨kind, found, rfl⟩ := read
      have symbol : kind.symbol = event := by simpa using List.find?_some found
      refine ⟨time, ?_, Awk.field_of_words split 2, Awk.field_of_words split 12, numeric, rfl⟩
      rw [symbol]
      exact Awk.field_of_words split 1
    · rw [if_neg numeric] at read
      cases read
  next => cases read

theorem symbol_eq_send_iff (event : HopEvent) :
    (some event.symbol = some "+".toList ∨ some event.symbol = some "s".toList) ↔
      event = .enqueue := by
  cases event <;> decide

theorem symbol_eq_receive_iff (event : HopEvent) :
    some event.symbol = some "r".toList ↔ event = .receive := by
  cases event <;> decide

theorem mainRule_hop (s : DelayAwk) {line time : Text} {h : Hop} (fields : Fields line h time) :
    mainRule s line = {
      event := some h.event.symbol
      time := some time
      pktId := some h.id
      level := some "AGT".toList
      sendTime := if h.IsSend ∧ Awk.equalsField 0 (s.sendTime h.id) = true then
        Function.update s.sendTime h.id (some time) else s.sendTime
      recvTime := if h.IsReception then
        Function.update s.recvTime h.id (some (some time)) else s.recvTime } := by
  have normal : some time ≠ some "-t".toList := by
    intro same
    cases same
    exact absurd fields.numeric (by decide)
  have sent : (Awk.equalsField 0 (s.sendTime h.id) = true ∧ h.event = .enqueue) ↔
      h.IsSend ∧ Awk.equalsField 0 (s.sendTime h.id) = true := and_comm
  have received : h.event = .receive ↔ h.IsReception := Iff.rfl
  unfold mainRule
  simp only [fields.eventField, fields.timeField, fields.pktIdField, if_pos normal,
    Option.getD_some, true_and, symbol_eq_send_iff, sent]
  by_cases isSend : h.IsSend ∧ Awk.equalsField 0 (s.sendTime h.id) = true
  · simp only [if_pos isSend, true_and, symbol_eq_receive_iff, received]
    by_cases isReception : h.IsReception <;> simp only [isReception, if_true, if_false]
  · simp only [if_neg isSend, true_and, symbol_eq_receive_iff, received]
    by_cases isReception : h.IsReception <;> simp only [isReception, if_true, if_false]

/-! ### All lines -/

/-- What the two tables hold after the events `trace`. -/
structure Tables (trace : List Hop) (s : DelayAwk) : Prop where
  numeric : ∀ id time, s.sendTime id = some time → Awk.looksNumeric time = true
  sent : ∀ id, Awk.fieldNumber (s.sendTime id) = keptSend trace id
  received : ∀ id, (s.recvTime id).isSome ↔ id ∈ receivedPackets trace
  last : ∀ id, Awk.fieldNumber (s.recvTime id).join = lastReception trace id

theorem Tables.equalsField_iff {trace : List Hop} {s : DelayAwk} (tables : Tables trace s)
    (id : Text) : Awk.equalsField 0 (s.sendTime id) = true ↔ keptSend trace id = 0 := by
  rw [← tables.sent id]
  cases found : s.sendTime id with
  | none => simp [Awk.equalsField, Awk.fieldNumber]
  | some time => simp [Awk.equalsField, Awk.fieldNumber, tables.numeric id time found]

theorem Tables.mainRule {trace : List Hop} {s : DelayAwk} (tables : Tables trace s)
    {line : Text} {h : Hop} (read : hop line = some h) :
    Tables (trace ++ [h]) (s.mainRule line) := by
  obtain ⟨time, fields⟩ := exists_fields read
  rw [mainRule_hop s fields]
  have equalsZero := tables.equalsField_iff h.id
  refine ⟨?_, ?_, ?_, ?_⟩
  · intro id kept
    simp only
    split
    next =>
      by_cases here : id = h.id
      · subst here
        rw [Function.update_self]
        rintro same
        cases same
        exact fields.numeric
      · rw [Function.update_of_ne here]
        exact tables.numeric id kept
    next => exact tables.numeric id kept
  · intro id
    rw [keptSend_concat]
    by_cases here : id = h.id
    · subst here
      by_cases isSend : h.IsSend ∧ keptSend trace h.id = 0
      · simp [equalsZero, isSend, Awk.fieldNumber, fields.value]
      · simp [equalsZero, isSend, tables.sent]
    · have unchanged : ¬ ((h.IsSend ∧ h.id = id) ∧ keptSend trace id = 0) :=
        fun sent => here sent.1.2.symm
      rw [if_neg unchanged, ← tables.sent id]
      simp only
      split
      next => rw [Function.update_of_ne here]
      next => rfl
  · intro id
    rw [receivedPackets, mem_packets_concat, ← receivedPackets, ← tables.received id]
    by_cases isReception : h.IsReception
    · by_cases here : id = h.id
      · simp [isReception, here]
      · simp [isReception, here, Ne.symm here]
    · simp [isReception]
  · intro id
    rw [lastReception_concat, ← tables.last id]
    by_cases isReception : h.IsReception
    · by_cases here : id = h.id
      · simp [isReception, here, Awk.fieldNumber, fields.value]
      · simp [isReception, here, Ne.symm here]
    · simp [isReception]

theorem tables_run {lines : List Text} (parsed : ∀ line ∈ lines, (hop line).isSome) :
    Tables (hops lines) (run lines) := by
  induction lines using List.reverseRecOn with
  | nil =>
      refine ⟨?_, fun _ => rfl, ?_, fun _ => rfl⟩
      · intro id time absent
        cases absent
      · simp [run, start, hops, receivedPackets, packets]
  | append_singleton lines line inductionHypothesis =>
      have tables := inductionHypothesis fun line earlier =>
        parsed line (List.mem_append_left _ earlier)
      obtain ⟨h, read⟩ := Option.isSome_iff_exists.mp
        (parsed line (List.mem_append_right _ (List.mem_singleton_self line)))
      have grown : hops (lines ++ [line]) = hops lines ++ [h] := by
        simp [hops, read]
      rw [grown, run, List.foldl_append, List.foldl_cons, List.foldl_nil]
      exact tables.mainRule read

/-! ### The end of the script -/

/-- The loop of the `END` rule over the indices left. -/
theorem foldl_ids {trace : List Hop} {s : DelayAwk} (tables : Tables trace s) (ids : List Text)
    (unsent : List Text) (delay : ℚ) (recvdNum : ℕ) :
    ids.foldl (fun (unsent, delay, recvdNum) i =>
      (if Awk.equalsField 0 (s.sendTime i) then unsent ++ [i] else unsent,
        delay + (Awk.fieldNumber (s.recvTime i).join - Awk.fieldNumber (s.sendTime i)),
        recvdNum + 1)) (unsent, delay, recvdNum) =
      (unsent ++ ids.filter fun id => keptSend trace id = 0,
        delay + (ids.map (counted trace)).sum, recvdNum + ids.length) := by
  induction ids generalizing unsent delay recvdNum with
  | nil => simp
  | cons id ids inductionHypothesis =>
      rw [List.foldl_cons, inductionHypothesis]
      have equalsZero := tables.equalsField_iff id
      simp only [Prod.mk.injEq]
      refine ⟨?_, ?_, ?_⟩
      · by_cases zero : keptSend trace id = 0 <;> simp [equalsZero, zero]
      · rw [tables.sent, tables.last, List.map_cons, List.sum_cons, counted, add_assoc]
      · rw [List.length_cons]
        omega

/-- The indices of `recvTime` are the packets received. -/
theorem visits_iff {lines : List Text} (parsed : ∀ line ∈ lines, (hop line).isSome)
    {ids : List Text} :
    Visits ids (run lines) ↔ ids.Nodup ∧ ids.toFinset = receivedPackets (hops lines) := by
  have tables := tables_run parsed
  constructor
  · intro visits
    refine ⟨visits.nodup, ?_⟩
    ext id
    rw [List.mem_toFinset, visits.mem_iff, tables.received]
  · rintro ⟨nodup, indices⟩
    refine ⟨nodup, ?_⟩
    intro id
    rw [tables.received, ← indices, List.mem_toFinset]

/-- What the script prints: it takes every packet received for a delivered one, and
a packet sent at time zero only for one that was not sent. -/
theorem endRule_eq {lines : List Text} (parsed : ∀ line ∈ lines, (hop line).isSome)
    {ids : List Text} (visits : Visits ids (run lines)) :
    endRule ids (run lines) = {
      unsent := ids.filter fun id => keptSend (hops lines) id = 0
      avgDelay := (∑ id ∈ receivedPackets (hops lines), counted (hops lines) id) /
        (receivedPackets (hops lines)).card * 1000 } := by
  obtain ⟨nodup, indices⟩ := (visits_iff parsed).mp visits
  rw [← indices, List.sum_toFinset _ nodup, List.toFinset_card_of_nodup nodup, endRule,
    foldl_ids (tables_run parsed)]
  simp only [List.nil_append, zero_add]
  cases ids with
  | nil => simp
  | cons id ids => simp

/-! ### When the average is the mean -/

theorem delivered_subset (trace : List Hop) : delivered trace ⊆ receivedPackets trace := by
  intro id
  simp only [delivered, receivedPackets, packets, List.mem_toFinset, List.mem_map,
    List.mem_filter, decide_eq_true_eq]
  rintro ⟨h, ⟨inTrace, isDelivery⟩, same⟩
  exact ⟨h, ⟨inTrace, isDelivery.1⟩, same⟩

/-- The time counted is that of the delays and the surplus. -/
theorem sum_counted (trace : List Hop) :
    ∑ id ∈ receivedPackets trace, counted trace id =
      surplus trace + ∑ id ∈ delivered trace, endToEnd trace id := by
  rw [← Finset.sum_sdiff (delivered_subset trace), surplus, undelivered, Finset.sum_sub_distrib]
  ring

theorem card_received (trace : List Hop) :
    (receivedPackets trace).card = (undelivered trace).card + (delivered trace).card :=
  (Finset.card_sdiff_add_card_eq_card (delivered_subset trace)).symm

/-! ### Time order -/

/-- The events of a packet are in time order as the trace is. -/
theorem times_ordered {trace : List Hop} (ordered : (trace.map Hop.time).Pairwise (· ≤ ·))
    (chosen : Hop → Prop) [DecidablePred chosen] (id : Text) :
    (times chosen trace id).Pairwise (· ≤ ·) :=
  ordered.sublist (List.filter_sublist.map Hop.time)

theorem le_getLast {times : List ℚ} (ordered : times.Pairwise (· ≤ ·)) {time : ℚ}
    (member : time ∈ times) : time ≤ times.getLast?.getD 0 := by
  rw [List.getLast?_eq_some_getLast (List.ne_nil_of_mem member), Option.getD_some]
  exact ordered.rel_getLast member

theorem getLast_mem {times : List ℚ} (nonempty : times ≠ []) :
    times.getLast?.getD 0 ∈ times := by
  rw [List.getLast?_eq_some_getLast nonempty, Option.getD_some]
  exact List.getLast_mem nonempty

/-- A packet is delivered no later than it is received last. -/
theorem delivery_le_lastReception {trace : List Hop}
    (ordered : (trace.map Hop.time).Pairwise (· ≤ ·)) {id : Text}
    (isDelivered : id ∈ delivered trace) : delivery trace id ≤ lastReception trace id := by
  have some : times Hop.IsDelivery trace id ≠ [] :=
    fun none => times_eq_nil_iff.mp none isDelivered
  obtain ⟨h, inTrace, ⟨isDelivery, same⟩, time⟩ := mem_times_iff.mp (getLast_mem some)
  apply le_getLast (times_ordered ordered Hop.IsReception id)
  exact mem_times_iff.mpr ⟨h, inTrace, ⟨isDelivery.1, same⟩, time⟩

theorem deliveredLast_iff {trace : List Hop}
    (ordered : (trace.map Hop.time).Pairwise (· ≤ ·)) :
    DeliveredLast trace ↔
      ∀ id ∈ delivered trace, lastReception trace id = delivery trace id := by
  constructor
  · intro deliveredLast id isDelivered
    have some : times Hop.IsReception trace id ≠ [] :=
      fun none => times_eq_nil_iff.mp none (delivered_subset trace isDelivered)
    obtain ⟨h, inTrace, ⟨isReception, rfl⟩, time⟩ := mem_times_iff.mp (getLast_mem some)
    apply le_antisymm _ (delivery_le_lastReception ordered isDelivered)
    calc lastReception trace h.id = h.time := time.symm
      _ ≤ delivery trace h.id := deliveredLast h inTrace isReception isDelivered
  · intro same h inTrace isReception isDelivered
    rw [← same h.id isDelivered]
    apply le_getLast (times_ordered ordered Hop.IsReception h.id)
    exact mem_times_iff.mpr ⟨h, inTrace, ⟨isReception, rfl⟩, rfl⟩

/-- The script keeps no earlier time for a packet than that of its first event `+`. -/
theorem firstSend_le_keptSend {trace : List Hop} (nonneg : ∀ h ∈ trace, 0 ≤ h.time)
    (id : Text) : firstSend trace id ≤ keptSend trace id := by
  have sends : ∀ time ∈ times Hop.IsSend trace id, 0 ≤ time := by
    intro time member
    obtain ⟨h, inTrace, _, rfl⟩ := mem_times_iff.mp member
    exact nonneg h inTrace
  unfold firstSend keptSend
  generalize times Hop.IsSend trace id = times at sends
  cases times with
  | nil => exact le_rfl
  | cons first later =>
      by_cases zero : first = 0
      · rw [List.head?_cons, Option.getD_some, zero]
        cases found : List.find? (fun time => decide (time ≠ 0)) (0 :: later) with
        | none => exact le_rfl
        | some kept => exact sends kept (zero ▸ List.mem_of_find?_eq_some found)
      · rw [List.find?_cons_of_pos (by simpa using zero)]
        exact le_rfl

/-- Zero stands for a packet that was not sent yet. -/
theorem keptSend_eq_zero_iff (trace : List Hop) (id : Text) :
    keptSend trace id = 0 ↔ ∀ time ∈ times Hop.IsSend trace id, time = 0 := by
  unfold keptSend
  cases found : (times Hop.IsSend trace id).find? (· ≠ 0) with
  | none => simpa using found
  | some kept =>
      have nonzero : kept ≠ 0 := by simpa using List.find?_some found
      have member := List.mem_of_find?_eq_some found
      rw [Option.getD_some]
      exact ⟨fun zero => absurd zero nonzero, fun all => all kept member⟩

theorem keptSend_eq_firstSend_iff {trace : List Hop} (id : Text) :
    keptSend trace id = firstSend trace id ↔
      (firstSend trace id = 0 → ∀ time ∈ times Hop.IsSend trace id, time = 0) := by
  by_cases zero : firstSend trace id = 0
  · rw [zero, keptSend_eq_zero_iff]
    exact ⟨fun all _ => all, fun all => all rfl⟩
  · refine iff_of_true ?_ fun isZero => absurd isZero zero
    unfold firstSend at zero ⊢
    unfold keptSend
    generalize times Hop.IsSend trace id = times at zero ⊢
    cases times with
    | nil => rfl
    | cons first later =>
        rw [List.find?_cons_of_pos (by simpa using zero), List.head?_cons]

theorem startKept_iff (trace : List Hop) :
    StartKept trace ↔ ∀ id ∈ delivered trace, keptSend trace id = firstSend trace id := by
  constructor
  · intro startKept id isDelivered
    rw [keptSend_eq_firstSend_iff]
    intro zero time member
    obtain ⟨h, inTrace, ⟨isSend, rfl⟩, rfl⟩ := mem_times_iff.mp member
    exact startKept h inTrace isSend isDelivered zero
  · intro same h inTrace isSend isDelivered zero
    apply (keptSend_eq_firstSend_iff h.id).mp (same h.id isDelivered) zero
    exact mem_times_iff.mpr ⟨h, inTrace, ⟨isSend, rfl⟩, rfl⟩

theorem undelivered_eq_empty_iff (trace : List Hop) :
    undelivered trace = ∅ ↔ AllDelivered trace := by
  rw [undelivered, Finset.sdiff_eq_empty_iff_subset]
  constructor
  · intro subset h inTrace isReception
    apply subset
    simpa [receivedPackets, packets] using ⟨h, ⟨inTrace, isReception⟩, rfl⟩
  · intro all id isReceived
    simp only [receivedPackets, packets, List.mem_toFinset, List.mem_map, List.mem_filter,
      decide_eq_true_eq] at isReceived
    obtain ⟨h, ⟨inTrace, isReception⟩, rfl⟩ := isReceived
    exact all h inTrace isReception

/-- Of packets delivered, the script counts the time from the delivery to the last
reception too, and leaves out that up to the first time other than zero. -/
theorem surplus_eq {trace : List Hop} (all : undelivered trace = ∅) :
    surplus trace =
      ∑ id ∈ delivered trace, (lastReception trace id - delivery trace id) -
        ∑ id ∈ delivered trace, (keptSend trace id - firstSend trace id) := by
  rw [surplus, all, Finset.sum_empty, zero_add, ← Finset.sum_sub_distrib]
  apply Finset.sum_congr rfl
  intro id _
  rw [counted, endToEnd]
  ring

/-- Either of the two errors alone can only be absent. -/
theorem surplus_eq_zero_iff {trace : List Hop}
    (ordered : (trace.map Hop.time).Pairwise (· ≤ ·)) (nonneg : ∀ h ∈ trace, 0 ≤ h.time)
    (all : undelivered trace = ∅) (single : DeliveredLast trace ∨ StartKept trace) :
    surplus trace = 0 ↔ DeliveredLast trace ∧ StartKept trace := by
  have late : ∑ id ∈ delivered trace, (lastReception trace id - delivery trace id) = 0 ↔
      DeliveredLast trace := by
    rw [deliveredLast_iff ordered, Finset.sum_eq_zero_iff_of_nonneg fun id isDelivered =>
      sub_nonneg.mpr (delivery_le_lastReception ordered isDelivered)]
    exact forall₂_congr fun _ _ => sub_eq_zero
  have early : ∑ id ∈ delivered trace, (keptSend trace id - firstSend trace id) = 0 ↔
      StartKept trace := by
    rw [startKept_iff, Finset.sum_eq_zero_iff_of_nonneg fun id _ =>
      sub_nonneg.mpr (firstSend_le_keptSend nonneg id)]
    exact forall₂_congr fun _ _ => sub_eq_zero
  rw [surplus_eq all]
  rcases single with deliveredLast | startKept
  · rw [late.mpr deliveredLast, zero_sub, neg_eq_zero, early, and_iff_right deliveredLast]
  · rw [early.mpr startKept, sub_zero, late, and_iff_left startKept]

/-- When the average is the mean delay: with packets delivered, the surplus must be
the mean delay once for each packet that was not, and without, it must be zero. -/
theorem average_eq_iff (trace : List Hop) :
    (∑ id ∈ receivedPackets trace, counted trace id) / (receivedPackets trace).card * 1000 =
        1000 * meanDelay trace ↔
      if (delivered trace).Nonempty then
        (delivered trace).card * surplus trace =
          (undelivered trace).card * ∑ id ∈ delivered trace, endToEnd trace id
      else surplus trace = 0 := by
  rw [mul_comm, mul_right_inj' (by norm_num), meanDelay, sum_counted, card_received]
  split
  next some =>
    have positive : (0 : ℚ) < (delivered trace).card := by
      exact_mod_cast some.card_pos
    have several : ((undelivered trace).card : ℚ) + (delivered trace).card ≠ 0 := by
      positivity
    rw [Nat.cast_add, div_eq_div_iff several positive.ne']
    constructor <;> intro equal <;> linarith
  next none =>
    have nobody : delivered trace = ∅ := Finset.not_nonempty_iff_eq_empty.mp none
    rw [nobody, Finset.sum_empty, add_zero, Finset.card_empty, add_zero, div_eq_zero_iff]
    constructor
    · rintro (zero | empty)
      · exact zero
      · have all : undelivered trace = ∅ := Finset.card_eq_zero.mp (by exact_mod_cast empty)
        rw [surplus_eq all, nobody, Finset.sum_empty, Finset.sum_empty, sub_zero]
    · exact Or.inl

/-- With no packet received on the way only, the surplus must be zero. -/
theorem average_eq_iff_surplus {trace : List Hop} (all : undelivered trace = ∅) :
    (∑ id ∈ receivedPackets trace, counted trace id) / (receivedPackets trace).card * 1000 =
        1000 * meanDelay trace ↔ surplus trace = 0 := by
  rw [average_eq_iff, all, Finset.card_empty, Nat.cast_zero, zero_mul, mul_eq_zero]
  split
  next some =>
    have several : ((delivered trace).card : ℚ) ≠ 0 := by
      exact_mod_cast some.card_pos.ne'
    rw [or_iff_right several]
  next => rfl

/-- When the script prints the mean delay of the delivered packets, in whatever order
it visits them: where no packet is received on the way only, none is received after its
delivery and none is sent at time zero and again later.  With only one of the last two
missing the average is another; beyond that, errors must make up for each other. -/
theorem averageDelay_eq_mean_iff {lines : List Text} (trace : WiredTrace lines)
    {ids : List Text} (visits : Visits ids (run lines)) :
    (AllDelivered (hops lines) → DeliveredLast (hops lines) → StartKept (hops lines) →
      (endRule ids (run lines)).avgDelay = 1000 * meanDelay (hops lines)) ∧
    (AllDelivered (hops lines) → DeliveredLast (hops lines) ∨ StartKept (hops lines) →
      (endRule ids (run lines)).avgDelay = 1000 * meanDelay (hops lines) →
      DeliveredLast (hops lines) ∧ StartKept (hops lines)) ∧
    ((endRule ids (run lines)).avgDelay = 1000 * meanDelay (hops lines) ↔
      if (delivered (hops lines)).Nonempty then
        (delivered (hops lines)).card * surplus (hops lines) =
          (undelivered (hops lines)).card *
            ∑ id ∈ delivered (hops lines), endToEnd (hops lines) id
      else surplus (hops lines) = 0) := by
  have exact : AllDelivered (hops lines) → DeliveredLast (hops lines) ∨ StartKept (hops lines) →
      ((endRule ids (run lines)).avgDelay = 1000 * meanDelay (hops lines) ↔
        DeliveredLast (hops lines) ∧ StartKept (hops lines)) := by
    intro allDelivered single
    have all := (undelivered_eq_empty_iff (hops lines)).mpr allDelivered
    rw [endRule_eq trace.parsed visits, average_eq_iff_surplus all]
    exact surplus_eq_zero_iff trace.ordered trace.nonneg all single
  refine ⟨?_, ?_, ?_⟩
  · intro allDelivered deliveredLast startKept
    exact (exact allDelivered (Or.inl deliveredLast)).mpr ⟨deliveredLast, startKept⟩
  · intro allDelivered single
    exact (exact allDelivered single).mp
  · rw [endRule_eq trace.parsed visits]
    exact average_eq_iff (hops lines)

theorem hops_of_read {lines : List Text} {trace : List Hop}
    (read : lines.map hop = trace.map some) :
    hops lines = trace ∧ ∀ line ∈ lines, (hop line).isSome := by
  constructor
  · calc hops lines = (lines.map hop).filterMap id := by rw [List.filterMap_map]; rfl
      _ = trace := by rw [read, List.filterMap_map, Function.id_comp, List.filterMap_some]
  · intro line member
    have inTrace : hop line ∈ trace.map some := read ▸ List.mem_map_of_mem member
    obtain ⟨h, _, same⟩ := List.mem_map.mp inTrace
    rw [← same, Option.isSome_some]

/-- Packet 7 takes two hops, packet 8 one, and packet 9 is dropped where it was sent. -/
def threePackets : List Text :=
  ["+ 0 1 2 cbr 500 ------- 1 1.0 2.0 0 8".toList,
    "+ 1 0 1 cbr 500 ------- 1 0.0 2.0 0 7".toList,
    "r 1.5 1 2 cbr 500 ------- 1 1.0 2.0 0 8".toList,
    "+ 2 0 1 cbr 500 ------- 1 0.0 2.0 1 9".toList,
    "d 2 0 1 cbr 500 ------- 1 0.0 2.0 1 9".toList,
    "r 2 0 1 cbr 500 ------- 1 0.0 2.0 0 7".toList,
    "+ 2 1 2 cbr 500 ------- 1 0.0 2.0 0 7".toList,
    "r 4 1 2 cbr 500 ------- 1 0.0 2.0 0 7".toList]

theorem threePackets_read : threePackets.map hop =
    [⟨.enqueue, 0, "2".toList, "2".toList, "8".toList⟩,
      ⟨.enqueue, 1, "1".toList, "2".toList, "7".toList⟩,
      ⟨.receive, 3 / 2, "2".toList, "2".toList, "8".toList⟩,
      ⟨.enqueue, 2, "1".toList, "2".toList, "9".toList⟩,
      ⟨.drop, 2, "1".toList, "2".toList, "9".toList⟩,
      ⟨.receive, 2, "1".toList, "2".toList, "7".toList⟩,
      ⟨.enqueue, 2, "2".toList, "2".toList, "7".toList⟩,
      ⟨.receive, 4, "2".toList, "2".toList, "7".toList⟩].map some := by
  decide +kernel

/-- Packets 7 and 8 count, with the time of all their hops. -/
theorem averageDelay_eq_mean_iff_threePackets :
    (endRule ["8".toList, "7".toList] (run threePackets)).avgDelay =
      1000 * meanDelay (hops threePackets) := by
  obtain ⟨events, parsed⟩ := hops_of_read threePackets_read
  have trace : WiredTrace threePackets := by
    refine ⟨parsed, ?_, ?_⟩ <;> rw [events] <;> decide +kernel
  have visits : Visits ["8".toList, "7".toList] (run threePackets) := by
    rw [visits_iff parsed, events]
    decide +kernel
  apply (averageDelay_eq_mean_iff trace visits).1 <;> rw [events] <;> decide +kernel

/-- Packet 0 takes two seconds to its destination, packet 1 is dropped behind its first
hop. -/
def lossy : List Text :=
  ["+ 1 0 2 cbr 500 ------- 1 0.0 2.0 0 0".toList,
    "+ 1 0 1 cbr 500 ------- 1 0.0 2.0 1 1".toList,
    "r 2 0 1 cbr 500 ------- 1 0.0 2.0 1 1".toList,
    "d 2.5 1 2 cbr 500 ------- 1 0.0 2.0 1 1".toList,
    "r 3 0 2 cbr 500 ------- 1 0.0 2.0 0 0".toList]

theorem lossy_read : lossy.map hop =
    [⟨.enqueue, 1, "2".toList, "2".toList, "0".toList⟩,
      ⟨.enqueue, 1, "1".toList, "2".toList, "1".toList⟩,
      ⟨.receive, 2, "1".toList, "2".toList, "1".toList⟩,
      ⟨.drop, 5 / 2, "2".toList, "2".toList, "1".toList⟩,
      ⟨.receive, 3, "2".toList, "2".toList, "0".toList⟩].map some := by
  decide +kernel

/-- The script prints 1500, not 2000. -/
theorem averageDelay_ne_mean :
    WiredTrace lossy ∧ Visits ["0".toList, "1".toList] (run lossy) ∧
      (endRule ["0".toList, "1".toList] (run lossy)).avgDelay = 1500 ∧
      1000 * meanDelay (hops lossy) = 2000 := by
  obtain ⟨events, parsed⟩ := hops_of_read lossy_read
  have trace : WiredTrace lossy := by
    refine ⟨parsed, ?_, ?_⟩ <;> rw [events] <;> decide +kernel
  have visits : Visits ["0".toList, "1".toList] (run lossy) := by
    rw [visits_iff parsed, events]
    decide +kernel
  refine ⟨trace, visits, ?_, ?_⟩
  · rw [endRule_eq parsed visits, events]
    decide +kernel
  · rw [events]
    decide +kernel

end DelayAwk

end AntAodv
