import AntAodv.Library.Placement
import Mathlib.Data.List.Nodup
import Mathlib.Data.List.Pairwise
import Mathlib.Order.CompletePartialOrder

/-!
# Packet headers

`ns-packet.tcl`: which headers get a place in every packet, and where.  A header is
allocated when the name of its class is in the table filled from `protolist`; the
offset of any other header stays 0.
-/

namespace AntAodv

/-- A subclass of `PacketHeader`, with the size of its header. -/
structure HeaderClass where
  name : String
  hdrlen : ℕ
  positive : 0 < hdrlen
  deriving DecidableEq

/-- The subclasses that are linked in, in the order of `PacketHeader info subclass`. -/
structure Linked where
  classes : List HeaderClass
  distinct : (classes.map HeaderClass.name).Nodup

/-- The names in `protolist`, without its comments. -/
def protolist : List String := [
  "Common", "Flags", "IP",
  "NV", "rtProtoDV", "rtProtoLS", "SR", "Src_rt",
  "LDP", "MPLS", "Resv", "UMP", "Pushback",
  "aSRM", "CtrMcast", "mcastCtrl", "MFTP", "PGM", "PGM_SPM", "PGM_NAK", "SRM", "SRMEXT",
  "HttpInval", "IVS", "QS", "RAP", "RTP", "SCTP", "Snoop", "TCP", "TCPA", "TFRC", "TFRC_ACK",
  "XCP", "DCCP", "DCCP_ACK", "DCCP_RESET", "DCCP_REQ", "DCCP_RESP", "DCCP_DATA",
  "DCCP_DATAACK", "DCCP_CLOSE", "DCCP_CLOSEREQ",
  "Message", "Ping", "PBC",
  "ARP", "GAF", "LL", "LRWPAN", "Mac",
  "Antnet", "AODV", "Diffusion", "IMEP", "MIP", "Smac", "TORA", "MDART", "AOMDV",
  "Encap", "IPinIP", "HDLC"]

/-- The indices of `tab_` after `add-packet-header cl`. -/
def addPacketHeader (tab : List String) (cl : String) : List String :=
  tab ++ ["PacketHeader/" ++ cl]

/-- The indices of `tab_` once the file has been read. -/
def protoTab : List String := protolist.foldl addPacketHeader ["Common"]

/-- The name that `AntHeaderClass` registers. -/
def antHeaderName : String := "PacketHeader/Ant"

def nsAlign : ℕ := 8

/-- The space that `allochdr` reserves for a header. -/
def HeaderClass.incr (cl : HeaderClass) : ℕ :=
  (cl.hdrlen + (nsAlign - 1)).ldiff (nsAlign - 1)

structure PacketHeaderManager where
  /-- `hdrlen_`, in the end the length of the headers of every packet. -/
  hdrlen : ℕ
  /-- The static `offset_` of every class. -/
  offset : String → ℕ

namespace PacketHeaderManager

def initial : PacketHeaderManager := ⟨0, fun _ => 0⟩

def allochdr (pm : PacketHeaderManager) (cl : HeaderClass) : ℕ × PacketHeaderManager :=
  (pm.hdrlen, { pm with hdrlen := pm.hdrlen + cl.incr })

/-- The loop of `create_packetformat`. -/
def allocate (tab : List String) (pm : PacketHeaderManager) :
    List HeaderClass → PacketHeaderManager
  | [] => pm
  | cl :: rest =>
      if cl.name ∈ tab then
        let (off, pm) := pm.allochdr cl
        { pm with offset := Function.update pm.offset cl.name off }.allocate tab rest
      else pm.allocate tab rest

end PacketHeaderManager

def createPacketformat (tab : List String) (linked : Linked) : PacketHeaderManager :=
  PacketHeaderManager.initial.allocate tab linked.classes

/-- The bytes that an access through the offset of `cl` uses. -/
def PacketHeaderManager.range (pm : PacketHeaderManager) (cl : HeaderClass) : Set ℕ :=
  Set.Ico (pm.offset cl.name) (pm.offset cl.name + cl.hdrlen)

/-- The headers that are allocated. -/
def Linked.allocated (tab : List String) (linked : Linked) : List HeaderClass :=
  linked.classes.filter fun cl => cl.name ∈ tab

/-- The bytes of a header are in the packet and used for nothing else. -/
structure OwnsBytes (tab : List String) (linked : Linked) (cl : HeaderClass) : Prop where
  inside : (createPacketformat tab linked).range cl ⊆
    Set.Ico 0 (createPacketformat tab linked).hdrlen
  alone : ∀ other ∈ linked.allocated tab, other ≠ cl →
    Disjoint ((createPacketformat tab linked).range cl)
      ((createPacketformat tab linked).range other)
  aligned : ∀ other ∈ linked.allocated tab,
    nsAlign ∣ (createPacketformat tab linked).offset other.name
  apart : (linked.allocated tab).Pairwise fun first second =>
    Disjoint ((createPacketformat tab linked).range first)
      ((createPacketformat tab linked).range second)

namespace HeaderClass

theorem incr_eq (cl : HeaderClass) : cl.incr = (cl.hdrlen + 7) / 8 * 8 :=
  Placement.ldiff_mask cl.hdrlen 3

theorem hdrlen_le_incr (cl : HeaderClass) : cl.hdrlen ≤ cl.incr := by
  rw [incr_eq]
  omega

theorem dvd_incr (cl : HeaderClass) : nsAlign ∣ cl.incr := by
  rw [incr_eq]
  exact Dvd.intro_left _ rfl

end HeaderClass

namespace PacketHeaderManager

variable {tab : List String} {pm : PacketHeaderManager} {classes : List HeaderClass}

/-- A header whose name is not met again keeps its offset. -/
theorem allocate_offset_of_not_mem {name : String}
    (absent : ∀ cl ∈ classes, cl.name ∈ tab → cl.name ≠ name) :
    (pm.allocate tab classes).offset name = pm.offset name := by
  induction classes generalizing pm with
  | nil => rfl
  | cons cl rest inductionHypothesis =>
      have later : ∀ other ∈ rest, other.name ∈ tab → other.name ≠ name :=
        fun other membership => absent other (List.mem_cons_of_mem cl membership)
      rw [allocate]
      split
      · rename_i listed
        rw [inductionHypothesis later]
        exact Function.update_of_ne (absent cl List.mem_cons_self listed).symm _ _
      · exact inductionHypothesis later

theorem allocate_hdrlen :
    (pm.allocate tab classes).hdrlen = pm.hdrlen +
      Placement.extent HeaderClass.incr (classes.filter fun cl => cl.name ∈ tab) := by
  induction classes generalizing pm with
  | nil => simp [allocate]
  | cons cl rest inductionHypothesis =>
      rw [allocate]
      by_cases listed : cl.name ∈ tab
      · simp only [listed, if_true, inductionHypothesis, allochdr, decide_true,
          List.filter_cons_of_pos, Placement.extent_cons, add_assoc]
      · simp only [listed, if_false, inductionHypothesis, decide_false, Bool.false_eq_true,
          not_false_eq_true, List.filter_cons_of_neg]

variable (pm) in
/-- The headers are placed one after the other. -/
theorem allocate_offset (distinct : (classes.map HeaderClass.name).Nodup) :
    ∀ entry ∈ Placement.place HeaderClass.incr pm.hdrlen
        (classes.filter fun cl => cl.name ∈ tab),
      (pm.allocate tab classes).offset entry.1.name = entry.2 := by
  induction classes generalizing pm with
  | nil => simp [Placement.place]
  | cons cl rest inductionHypothesis =>
      rw [List.map_cons, List.nodup_cons] at distinct
      intro entry placed
      rw [allocate]
      by_cases listed : cl.name ∈ tab
      · simp only [listed, if_true]
        rw [List.filter_cons_of_pos (by simpa using listed), Placement.place] at placed
        rcases List.mem_cons.mp placed with rfl | later
        · rw [allocate_offset_of_not_mem]
          · simp [allochdr]
          · intro other membership _ same
            exact distinct.1 (same ▸ List.mem_map_of_mem membership)
        · exact inductionHypothesis _ distinct.2 entry later
      · rw [List.filter_cons_of_neg (by simpa using listed)] at placed
        simp only [listed, if_false]
        exact inductionHypothesis _ distinct.2 entry placed

end PacketHeaderManager

variable {tab : List String} {linked : Linked} {cl : HeaderClass}

theorem createPacketformat_offset :
    ∀ entry ∈ Placement.place HeaderClass.incr 0 (linked.allocated tab),
      (createPacketformat tab linked).offset entry.1.name = entry.2 :=
  PacketHeaderManager.allocate_offset .initial linked.distinct

/-- Every allocated header has its place. -/
theorem Linked.exists_place (listed : cl ∈ linked.allocated tab) :
    (cl, (createPacketformat tab linked).offset cl.name) ∈
      Placement.place HeaderClass.incr 0 (linked.allocated tab) := by
  have listed' := listed
  rw [← Placement.map_fst_place HeaderClass.incr 0 (linked.allocated tab)] at listed'
  rcases List.mem_map.mp listed' with ⟨⟨_, off⟩, placed, rfl⟩
  rw [createPacketformat_offset _ placed]
  exact placed

theorem createPacketformat_hdrlen :
    (createPacketformat tab linked).hdrlen =
      0 + Placement.extent HeaderClass.incr (linked.allocated tab) :=
  PacketHeaderManager.allocate_hdrlen

/-- Allocated headers do not share a byte. -/
theorem Linked.allocated_apart :
    (linked.allocated tab).Pairwise fun first second =>
      Disjoint ((createPacketformat tab linked).range first)
        ((createPacketformat tab linked).range second) := by
  have apart := Placement.place_apart HeaderClass.incr 0 (linked.allocated tab)
  rw [← Placement.map_fst_place HeaderClass.incr 0 (linked.allocated tab), List.pairwise_map]
  refine apart.imp_of_mem ?_
  intro first second isFirst isSecond order
  have offset := createPacketformat_offset _ isFirst
  have offset' := createPacketformat_offset _ isSecond
  have fits := first.1.hdrlen_le_incr
  rw [PacketHeaderManager.range, PacketHeaderManager.range, offset, offset']
  apply Set.Ico_disjoint_Ico.mpr
  omega

/-- A header owns its bytes when its name is in the table, and not otherwise: it
would lie over the header that was allocated first. -/
theorem ownsBytes_iff_listed (isLinked : cl ∈ linked.classes) :
    OwnsBytes tab linked cl ↔ cl.name ∈ tab := by
  constructor
  · intro owns
    by_contra unlisted
    have unset : (createPacketformat tab linked).offset cl.name = 0 := by
      rw [createPacketformat, PacketHeaderManager.allocate_offset_of_not_mem]
      · rfl
      · rintro other _ listed same
        exact unlisted (same ▸ listed)
    have positive := cl.positive
    have first : 0 ∈ (createPacketformat tab linked).range cl := by
      rw [PacketHeaderManager.range, unset]
      exact ⟨le_rfl, by omega⟩
    have room := (owns.inside first).2
    cases allocated : linked.allocated tab with
    | nil => simp [createPacketformat_hdrlen, allocated] at room
    | cons head rest =>
        have isAllocated : head ∈ linked.allocated tab := by simp [allocated]
        have listed : head.name ∈ tab := by
          simpa using (List.mem_filter.mp isAllocated).2
        have offset : (createPacketformat tab linked).offset head.name = 0 := by
          apply createPacketformat_offset (head, 0)
          rw [allocated]
          exact List.mem_cons_self
        have headPositive := head.positive
        have second : 0 ∈ (createPacketformat tab linked).range head := by
          rw [PacketHeaderManager.range, offset]
          exact ⟨le_rfl, by omega⟩
        have different : head ≠ cl := by
          rintro rfl
          exact unlisted listed
        exact Set.disjoint_left.mp (owns.alone head isAllocated different) first second
  · intro listed
    have isAllocated : cl ∈ linked.allocated tab :=
      List.mem_filter.mpr ⟨isLinked, by simpa using listed⟩
    refine ⟨?_, ?_, ?_, Linked.allocated_apart⟩
    · have inside := Placement.place_inside HeaderClass.incr 0 _ _
        (Linked.exists_place isAllocated)
      have fits := cl.hdrlen_le_incr
      simp only at inside
      rw [PacketHeaderManager.range, createPacketformat_hdrlen]
      apply Set.Ico_subset_Ico <;> omega
    · intro other membership different
      have symmetric : Std.Symm fun first second : HeaderClass =>
          Disjoint ((createPacketformat tab linked).range first)
            ((createPacketformat tab linked).range second) := ⟨fun _ _ apart => apart.symm⟩
      exact Linked.allocated_apart.forall isAllocated membership different.symm
    · intro other membership
      exact Placement.dvd_place HeaderClass.incr (Nat.dvd_zero _) _ (fun cl _ => cl.dvd_incr) _
        (Linked.exists_place membership)

theorem antHeaderName_not_listed : antHeaderName ∉ protoTab := by decide

/-- `protolist` names another class than the one that is registered: the ant header
lies over the first header of the packet. -/
theorem ant_header_owns_no_bytes (isLinked : cl ∈ linked.classes) (ant : cl.name = antHeaderName) :
    ¬ OwnsBytes protoTab linked cl := by
  rw [ownsBytes_iff_listed isLinked, ant]
  exact antHeaderName_not_listed

/-- The common, the IP and the ant header, linked in in this order. -/
def commonIpAnt : Linked where
  classes := [⟨"PacketHeader/Common", 104, by decide⟩, ⟨"PacketHeader/IP", 32, by decide⟩,
    ⟨antHeaderName, 288, by decide⟩]
  distinct := by decide

theorem ant_header_owns_no_bytes_common :
    ¬ OwnsBytes protoTab commonIpAnt ⟨antHeaderName, 288, by decide⟩ :=
  ant_header_owns_no_bytes (by decide) rfl

theorem ant_header_over_common :
    ¬ ∀ (linked : Linked) (cl : HeaderClass), cl ∈ linked.classes → cl.name = antHeaderName →
      OwnsBytes protoTab linked cl := by
  intro owns
  have ant : (⟨antHeaderName, 288, by decide⟩ : HeaderClass) ∈ commonIpAnt.classes := by decide
  have common : (⟨"PacketHeader/Common", 104, by decide⟩ : HeaderClass) ∈
      commonIpAnt.allocated protoTab := by decide
  have apart := (owns commonIpAnt _ ant rfl).alone _ common (by decide)
  have offset : (createPacketformat protoTab commonIpAnt).offset antHeaderName = 0 := by decide
  have offset' : (createPacketformat protoTab commonIpAnt).offset "PacketHeader/Common" = 0 := by
    decide
  rw [PacketHeaderManager.range, PacketHeaderManager.range, offset, offset'] at apart
  exact Set.disjoint_left.mp apart (show 0 ∈ Set.Ico 0 (0 + 288) from ⟨le_rfl, by decide⟩)
    ⟨le_rfl, by decide⟩

end AntAodv
