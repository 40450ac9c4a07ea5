import AntAodv.Library.Custody
import AntAodv.PacketPool

/-!
# What is in the pool

Every object is on the free list or held by users.  The free list is a linked list without
repetition of blank objects; a held object counts its references but for one, and its
data are its own.
-/

namespace AntAodv

variable {K D : Type} [Zero K]

/-- An object as it is handed out. -/
def freshObject (slots : ℕ) : PacketObject K := ⟨Packet.alloc slots, none, true, 0, none, 0, 0⟩

namespace PacketPool

/-- The objects of a pool of which users hold references, with the others in the free
list. -/
structure Stocked (slots : ℕ) (pool : PacketPool K D) (held : Multiset ℕ) (idle : List ℕ) :
    Prop where
  linked : LinkedFrom (fun p => (pool.object p).next) pool.free idle
  distinct : idle.Nodup
  places : ∀ p, p < pool.size ↔ p ∈ idle ∨ p ∈ held
  unheld : ∀ p ∈ idle, p ∉ held
  blank : ∀ p ∈ idle, (pool.object p).fflag = false ∧ (pool.object p).data = none ∧
    (pool.object p).refCount = 0 ∧ (pool.object p).bits = Packet.blank slots
  counted : ∀ p ∈ held, (pool.object p).fflag = true ∧
    (pool.object p).refCount = (held.count p : ℤ) - 1

/-- The data of the packets that are held. -/
def ownData (pool : PacketPool K D) (held : Multiset ℕ) (p : ℕ) : Option ℕ :=
  if p ∈ held then (pool.object p).data else none

/-- Every packet that is held has its data to itself, and no others are left. -/
def DataOwned (pool : PacketPool K D) (held : Multiset ℕ) : Prop :=
  Custody (pool.ownData held) pool.data pool.dataCount

variable {slots : ℕ} {pool pool' : PacketPool K D} {held held' : Multiset ℕ} {idle : List ℕ}
  {p : ℕ}

namespace Stocked

/-- A held packet changes, and how often it is held. -/
theorem rehold (stocked : pool.Stocked slots held idle) (isHeld : p ∈ held)
    {object : PacketObject K} (objects : pool'.object = Function.update pool.object p object)
    (size : pool'.size = pool.size) (free : pool'.free = pool.free)
    (others : ∀ q, q ≠ p → held'.count q = held.count q) (stays : p ∈ held')
    (flag : object.fflag = true) (count : object.refCount = (held'.count p : ℤ) - 1) :
    pool'.Stocked slots held' idle := by
  have member : ∀ q, q ≠ p → (q ∈ held' ↔ q ∈ held) := by
    intro q other
    rw [← Multiset.count_pos, ← Multiset.count_pos, others q other]
  have apart : ∀ q ∈ idle, q ≠ p := by
    rintro q inIdle rfl
    exact stocked.unheld q inIdle isHeld
  have kept : ∀ q, q ≠ p → pool'.object q = pool.object q := by
    intro q other
    rw [objects, Function.update_of_ne other]
  refine ⟨?_, stocked.distinct, fun q => ?_, fun q inIdle => ?_, fun q inIdle => ?_,
    fun q inHeld => ?_⟩
  · rw [free]
    exact stocked.linked.congr fun q inIdle => by rw [kept q (apart q inIdle)]
  · rw [size, stocked.places q]
    by_cases own : q = p
    · subst own
      simp [isHeld, stays]
    · rw [member q own]
  · rw [member q (apart q inIdle)]
    exact stocked.unheld q inIdle
  · rw [kept q (apart q inIdle)]
    exact stocked.blank q inIdle
  · by_cases own : q = p
    · subst own
      rw [objects, Function.update_self]
      exact ⟨flag, count⟩
    · rw [kept q own, others q own]
      exact stocked.counted q ((member q own).mp inHeld)

/-- A held packet changes in what the pool does not care about. -/
theorem modify (stocked : pool.Stocked slots held idle) (isHeld : p ∈ held)
    {object : PacketObject K} (objects : pool'.object = Function.update pool.object p object)
    (size : pool'.size = pool.size) (free : pool'.free = pool.free)
    (flag : object.fflag = (pool.object p).fflag)
    (count : object.refCount = (pool.object p).refCount) : pool'.Stocked slots held idle :=
  stocked.rehold isHeld objects size free (fun _ _ => rfl) isHeld
    (flag.trans (stocked.counted p isHeld).1) (count.trans (stocked.counted p isHeld).2)

/-- A packet that is not held for the last time goes back, in front of the free list. -/
theorem putBack (stocked : pool.Stocked slots held idle) (last : held.count p = 1)
    {object : PacketObject K} (objects : pool'.object = Function.update pool.object p object)
    (size : pool'.size = pool.size) (free : pool'.free = some p) (next : object.next = pool.free)
    (blank : object.fflag = false ∧ object.data = none ∧ object.refCount = 0 ∧
      object.bits = Packet.blank slots) : pool'.Stocked slots (held.erase p) (p :: idle) := by
  have isHeld : p ∈ held := Multiset.count_pos.mp (by omega)
  have gone : p ∉ held.erase p := by
    rw [← Multiset.count_eq_zero, Multiset.count_erase_self, last]
  have member : ∀ q, q ≠ p → (q ∈ held.erase p ↔ q ∈ held) := fun q other =>
    Multiset.mem_erase_of_ne other
  have fresh : p ∉ idle := fun inIdle => stocked.unheld p inIdle isHeld
  have kept : ∀ q, q ≠ p → pool'.object q = pool.object q := by
    intro q other
    rw [objects, Function.update_of_ne other]
  have apart : ∀ q ∈ idle, q ≠ p := by
    rintro q inIdle rfl
    exact fresh inIdle
  refine ⟨?_, List.nodup_cons.mpr ⟨fresh, stocked.distinct⟩, fun q => ?_, fun q inIdle => ?_,
    fun q inIdle => ?_, fun q inHeld => ?_⟩
  · have linked : LinkedFrom (fun q => (pool'.object q).next) pool.free idle :=
      stocked.linked.congr fun q inIdle => by rw [kept q (apart q inIdle)]
    have start : (pool'.object p).next = pool.free := by
      rw [objects, Function.update_self, next]
    rw [free]
    refine .cons ?_
    rw [start]
    exact linked
  · rw [size, stocked.places q, List.mem_cons]
    by_cases own : q = p
    · subst own
      simp [isHeld]
    · rw [member q own]
      simp [own]
  · rcases List.mem_cons.mp inIdle with rfl | inIdle
    · exact gone
    · rw [member q (apart q inIdle)]
      exact stocked.unheld q inIdle
  · rcases List.mem_cons.mp inIdle with rfl | inIdle
    · rw [objects, Function.update_self]
      exact blank
    · rw [kept q (apart q inIdle)]
      exact stocked.blank q inIdle
  · have own : q ≠ p := by
      rintro rfl
      exact gone inHeld
    rw [kept q own, Multiset.count_erase_of_ne own]
    exact stocked.counted q ((member q own).mp inHeld)

/-- A packet that nobody holds is handed out. -/
theorem takeOut (stocked : pool.Stocked slots held idle) (new : p ∉ held)
    (objects : pool'.object = Function.update pool.object p (freshObject slots))
    {idle' : List ℕ} (linked : LinkedFrom (fun q => (pool.object q).next) pool'.free idle')
    (fewer : idle'.Sublist idle) (gone : p ∉ idle')
    (places : ∀ q, q < pool'.size ↔ q ∈ idle' ∨ q = p ∨ q ∈ held) :
    pool'.Stocked slots (p ::ₘ held) idle' := by
  have apart : ∀ q ∈ idle', q ≠ p := by
    rintro q inIdle rfl
    exact gone inIdle
  have kept : ∀ q, q ≠ p → pool'.object q = pool.object q := by
    intro q other
    rw [objects, Function.update_of_ne other]
  refine ⟨?_, stocked.distinct.sublist fewer, fun q => ?_, fun q inIdle => ?_, fun q inIdle => ?_,
    fun q inHeld => ?_⟩
  · exact linked.congr fun q inIdle => by rw [kept q (apart q inIdle)]
  · rw [places q, Multiset.mem_cons]
  · rw [Multiset.mem_cons, not_or]
    exact ⟨apart q inIdle, stocked.unheld q (fewer.subset inIdle)⟩
  · rw [kept q (apart q inIdle)]
    exact stocked.blank q (fewer.subset inIdle)
  · by_cases own : q = p
    · subst own
      rw [objects, Function.update_self, Multiset.count_cons_self, Multiset.count_eq_zero.mpr new]
      exact ⟨rfl, rfl⟩
    · rw [kept q own, Multiset.count_cons_of_ne own]
      exact stocked.counted q ((Multiset.mem_cons.mp inHeld).resolve_left own)

theorem card_le (stocked : pool.Stocked slots held idle) : held.toFinset.card ≤ pool.size := by
  have inside : held.toFinset ⊆ Finset.range pool.size := by
    intro q membership
    rw [Finset.mem_range, stocked.places q]
    exact Or.inr (Multiset.mem_toFinset.mp membership)
  simpa using Finset.card_le_card inside

theorem card_cons_le (stocked : pool.Stocked slots held idle) (inIdle : p ∈ idle) :
    (p ::ₘ held).toFinset.card ≤ pool.size := by
  have inside : (p ::ₘ held).toFinset ⊆ Finset.range pool.size := by
    intro q membership
    rw [Finset.mem_range, stocked.places q]
    rcases Multiset.mem_cons.mp (Multiset.mem_toFinset.mp membership) with rfl | isHeld
    · exact Or.inl inIdle
    · exact Or.inr isHeld
  simpa using Finset.card_le_card inside

theorem card_cons_size (stocked : pool.Stocked slots held []) :
    (pool.size ::ₘ held).toFinset.card = pool.size + 1 := by
  have all : (pool.size ::ₘ held).toFinset = Finset.range (pool.size + 1) := by
    ext q
    have place := stocked.places q
    simp only [List.not_mem_nil, false_or] at place
    rw [Multiset.mem_toFinset, Multiset.mem_cons, ← place, Finset.mem_range]
    omega
  rw [all, Finset.card_range]

/-- `alloc` never fails, returns a packet that nobody holds, and makes a new object only
when all are held. -/
theorem alloc (stocked : pool.Stocked slots held idle) :
    ∃ p pool' idle', pool.alloc slots = some (p, pool') ∧ p ∉ held ∧
      pool'.object = Function.update pool.object p (freshObject slots) ∧
      pool'.data = pool.data ∧ pool'.dataCount = pool.dataCount ∧
      pool'.size = max pool.size (p ::ₘ held).toFinset.card ∧
      pool'.Stocked slots (p ::ₘ held) idle' := by
  cases start : pool.free with
  | some p =>
      have linked := stocked.linked
      rw [start] at linked
      obtain ⟨rest, rfl, linked'⟩ := linked.exists_cons
      have inIdle : p ∈ p :: rest := List.mem_cons_self
      obtain ⟨flag, empty, count, _⟩ := stocked.blank p inIdle
      have returned := PacketPool.alloc.eq_def slots pool
      simp only [start, flag, empty, and_self, if_true] at returned
      have same : ({ pool.object p with
          uid := 0, time := 0, bits := Packet.alloc slots, fflag := true, next := none } :
            PacketObject K) = freshObject slots := by
        simp only [freshObject, empty, count]
      refine ⟨p, _, rest, returned, stocked.unheld p inIdle, by rw [← same]; rfl, rfl, rfl, ?_, ?_⟩
      · exact (max_eq_left (stocked.card_cons_le inIdle)).symm
      · refine stocked.takeOut (stocked.unheld p inIdle) (by rw [← same]; rfl) linked'
          (List.sublist_cons_self p rest) (List.nodup_cons.mp stocked.distinct).1 fun q => ?_
        have place := stocked.places q
        rw [List.mem_cons] at place
        change q < pool.size ↔ _
        tauto
  | none =>
      have linked := stocked.linked
      rw [start] at linked
      obtain rfl := linked.eq_nil
      have new : pool.size ∉ held := fun isHeld =>
        absurd ((stocked.places _).mpr (.inr isHeld)) (lt_irrefl _)
      have returned := PacketPool.alloc.eq_def slots pool
      simp only [start] at returned
      refine ⟨pool.size, _, [], returned, new, rfl, rfl, rfl, ?_, ?_⟩
      · rw [stocked.card_cons_size]
        exact (max_eq_right (Nat.le_succ _)).symm
      · refine stocked.takeOut new rfl (by rw [← start] at linked ⊢; exact linked) (.refl _)
          (by simp) fun q => ?_
        have place := stocked.places q
        simp only [List.not_mem_nil, false_or] at place
        change q < pool.size + 1 ↔ _
        rw [List.mem_nil_iff, false_or, ← place]
        omega

end Stocked

/-! ### The data of packets -/

/-- The data of a packet, if it has any. -/
def content (pool : PacketPool K D) (p : ℕ) : Option D := (pool.object p).data.bind pool.data

omit [Zero K] in
theorem content_eq (isHeld : p ∈ held) : pool.content p = (pool.ownData held p).bind pool.data := by
  rw [content, ownData, if_pos isHeld]

omit [Zero K] in
/-- A held packet changes and keeps its data. -/
theorem DataOwned.modify (owned : pool.DataOwned held) {object : PacketObject K}
    (objects : pool'.object = Function.update pool.object p object)
    (same : object.data = (pool.object p).data) (members : ∀ q, q ∈ held' ↔ q ∈ held)
    (data : pool'.data = pool.data) (count : pool'.dataCount = pool.dataCount) :
    pool'.DataOwned held' := by
  have kept : pool'.ownData held' = pool.ownData held := by
    funext q
    simp only [ownData, members q]
    by_cases own : q = p
    · subst own
      rw [objects, Function.update_self, same]
    · rw [objects, Function.update_of_ne own]
  rw [DataOwned, kept, data, count]
  exact owned

/-- A new packet has no data. -/
theorem DataOwned.alloc (owned : pool.DataOwned held) (new : p ∉ held)
    (objects : pool'.object = Function.update pool.object p (freshObject slots))
    (data : pool'.data = pool.data) (count : pool'.dataCount = pool.dataCount) :
    pool'.DataOwned (p ::ₘ held) := by
  have kept : pool'.ownData (p ::ₘ held) = pool.ownData held := by
    funext q
    by_cases own : q = p
    · subst own
      simp [ownData, objects, new, freshObject]
    · simp [ownData, objects, own]
  rw [DataOwned, kept, data, count]
  exact owned

omit [Zero K] in
/-- A held packet without data is given some. -/
theorem DataOwned.give (owned : pool.DataOwned held) (isHeld : p ∈ held)
    (empty : (pool.object p).data = none) (value : D) :
    ((pool.newData value).2.modify p fun o => { o with data := some pool.dataCount }).DataOwned
      held := by
  have none : pool.ownData held p = Option.none := by rw [ownData, if_pos isHeld, empty]
  have given := Custody.give owned none value
  have same : ((pool.newData value).2.modify p fun o =>
      { o with data := some pool.dataCount }).ownData held =
        Function.update (pool.ownData held) p (some pool.dataCount) := by
    funext q
    by_cases own : q = p
    · subst own
      simp [ownData, PacketPool.modify, isHeld]
    · simp [ownData, PacketPool.modify, newData, own]
  rw [DataOwned, same]
  exact given

omit [Zero K] in
/-- The data of a held packet can be deleted; they were nobody else's. -/
theorem DataOwned.take (owned : pool.DataOwned held) (isHeld : p ∈ held) :
    ∃ data, pool.deleteData (pool.object p).data = some { pool with data := data } ∧
      Custody (Function.update (pool.ownData held) p none) data pool.dataCount ∧
      ∀ q ∈ held, q ≠ p → (pool.object q).data.bind data = pool.content q := by
  have own : pool.ownData held p = (pool.object p).data := by rw [ownData, if_pos isHeld]
  cases data : (pool.object p).data with
  | none =>
      refine ⟨pool.data, rfl, ?_, fun _ _ _ => rfl⟩
      rw [data] at own
      rw [← own, Function.update_eq_self]
      exact owned
  | some address =>
      rw [data] at own
      have living := Custody.live owned own
      obtain ⟨value, found⟩ := Option.isSome_iff_exists.mp living
      refine ⟨Function.update pool.data address none, by simp [deleteData, found],
        Custody.take owned own, fun q other different => ?_⟩
      have kept := Custody.bind_take owned own different
      rwa [ownData, if_pos other] at kept

end PacketPool

end AntAodv
