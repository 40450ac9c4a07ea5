import AntAodv.PacketPool.Stock

/-!
# The users of the pool

Users that work only with packets they hold never see an assertion fail, never see a packet
of theirs change under another user's hands, and never leak an object or its data.
-/

namespace AntAodv

variable {K D : Type} [Zero K]

namespace PacketPool

/-- Objects and data are where they belong. -/
def Settled (slots : ℕ) (pool : PacketPool K D) (held : Multiset ℕ) : Prop :=
  (∃ idle, pool.Stocked slots held idle) ∧ pool.DataOwned held

/-- The other packets that are held, with their data, are as before. -/
def SameBut (held : Multiset ℕ) (p : ℕ) (pool pool' : PacketPool K D) : Prop :=
  ∀ q ∈ held, q ≠ p → pool'.object q = pool.object q ∧ pool'.content q = pool.content q

variable {slots : ℕ} {pool pool' pool'' : PacketPool K D} {held : Multiset ℕ} {p : ℕ}

omit [Zero K] in
theorem SameBut.trans (first : SameBut held p pool pool') (second : SameBut held p pool' pool'') :
    SameBut held p pool pool'' := fun q inHeld other =>
  ⟨(second q inHeld other).1.trans (first q inHeld other).1,
    (second q inHeld other).2.trans (first q inHeld other).2⟩

omit [Zero K] in
theorem SameBut.of_data (others : ∀ q, q ≠ p → pool'.object q = pool.object q)
    (data : pool'.data = pool.data) : SameBut held p pool pool' := by
  intro q _ other
  refine ⟨others q other, ?_⟩
  rw [content, content, others q other, data]

omit [Zero K] in
theorem SameBut.mono {held' : Multiset ℕ} (same : SameBut held' p pool pool')
    (fewer : ∀ {q}, q ∈ held → q ∈ held') : SameBut held p pool pool' :=
  fun q inHeld other => same q (fewer inHeld) other

omit [Zero K] in
theorem modify_object_of_ne (pool : PacketPool K D) {q : ℕ} (other : q ≠ p)
    (change : PacketObject K → PacketObject K) :
    (pool.modify p change).object q = pool.object q := Function.update_of_ne other _ _

theorem freePacket_eq_last (flag : (pool.object p).fflag = true)
    (last : (pool.object p).refCount = 0) (descheduled : (pool.object p).uid ≤ 0)
    {data : ℕ → Option D}
    (deleted : pool.deleteData (pool.object p).data = some { pool with data := data }) :
    pool.freePacket slots p =
      some { PacketPool.modify { pool with data := data } p fun o =>
        { o with data := none, bits := Packet.blank slots, next := pool.free, fflag := false } with
          free := some p } := by
  simp only [freePacket, flag, last, descheduled, deleted, if_true, Option.bind_eq_bind,
    Option.bind_some]

theorem freePacket_eq_more (flag : (pool.object p).fflag = true)
    (more : (pool.object p).refCount ≠ 0) :
    pool.freePacket slots p = some (pool.modify p fun o =>
      { o with refCount := o.refCount - 1 }) := by
  simp only [freePacket, flag, more, if_true, if_false]

omit [Zero K] in
theorem newData_modify (change change' : PacketObject K → PacketObject K) (value : D) :
    ((pool.modify p change).newData value).2.modify p change' =
      (pool.newData value).2.modify p (change' ∘ change) := by
  simp [modify, newData]

namespace Settled

/-- A user changes a packet, but not what the pool keeps in it. -/
theorem modify (settled : pool.Settled slots held) (isHeld : p ∈ held)
    {change : PacketObject K → PacketObject K}
    (flag : (change (pool.object p)).fflag = (pool.object p).fflag)
    (count : (change (pool.object p)).refCount = (pool.object p).refCount)
    (data : (change (pool.object p)).data = (pool.object p).data) :
    (pool.modify p change).Settled slots held ∧ SameBut held p pool (pool.modify p change) := by
  obtain ⟨⟨idle, stocked⟩, owned⟩ := settled
  refine ⟨⟨⟨idle, stocked.modify isHeld rfl rfl rfl flag count⟩,
    owned.modify rfl data (fun _ => .rfl) rfl rfl⟩, ?_⟩
  exact .of_data (fun q other => modify_object_of_ne pool other change) rfl

theorem refcopy (settled : pool.Settled slots held) (isHeld : p ∈ held) :
    (pool.refcopy p).Settled slots (p ::ₘ held) ∧ SameBut held p pool (pool.refcopy p) := by
  obtain ⟨⟨idle, stocked⟩, owned⟩ := settled
  obtain ⟨flag, count⟩ := stocked.counted p isHeld
  refine ⟨⟨⟨idle, ?_⟩, ?_⟩, .of_data (fun q other => modify_object_of_ne pool other _) rfl⟩
  · refine stocked.rehold isHeld rfl rfl rfl (fun q other => Multiset.count_cons_of_ne other held)
      (Multiset.mem_cons_self p held) flag ?_
    rw [Multiset.count_cons_self]
    change (pool.object p).refCount + 1 = _
    omega
  · refine owned.modify rfl rfl (fun q => ?_) rfl rfl
    rw [Multiset.mem_cons]
    exact or_iff_right_of_imp fun same => same ▸ isHeld

/-- Data for a packet without any. -/
theorem give (settled : pool.Settled slots held) (isHeld : p ∈ held)
    (empty : (pool.object p).data = none) (value : D) (pool' : PacketPool K D)
    (given : pool' = (pool.newData value).2.modify p fun o =>
      { o with data := some pool.dataCount }) :
    pool'.Settled slots held ∧ SameBut held p pool pool' ∧ pool'.content p = some value := by
  subst given
  obtain ⟨⟨idle, stocked⟩, owned⟩ := settled
  refine ⟨⟨⟨idle, stocked.modify isHeld rfl rfl rfl rfl rfl⟩, owned.give isHeld empty value⟩,
    fun q inHeld other => ?_, ?_⟩
  · have same := modify_object_of_ne (pool.newData value).2 other fun o =>
      { o with data := some pool.dataCount }
    refine ⟨same, ?_⟩
    rw [content, same, content_eq inHeld]
    have kept := Custody.bind_give owned q value
    rwa [ownData, if_pos inHeld] at kept ⊢
  · simp [content, PacketPool.modify, newData]

/-- The data of a packet are deleted. -/
theorem take (settled : pool.Settled slots held) (isHeld : p ∈ held) :
    ∃ data, pool.deleteData (pool.object p).data = some { pool with data := data } ∧
      (PacketPool.modify { pool with data := data } p fun o =>
        { o with data := none }).Settled slots held ∧
      SameBut held p pool (PacketPool.modify { pool with data := data } p fun o =>
        { o with data := none }) := by
  obtain ⟨⟨idle, stocked⟩, owned⟩ := settled
  obtain ⟨data, deleted, custody, others⟩ := owned.take isHeld
  refine ⟨data, deleted, ⟨⟨idle, stocked.modify isHeld rfl rfl rfl rfl rfl⟩, ?_⟩, ?_⟩
  · have same : ownData (PacketPool.modify { pool with data := data } p fun o =>
        { o with data := none }) held = Function.update (pool.ownData held) p none := by
      funext q
      by_cases own : q = p
      · subst own
        simp [ownData, PacketPool.modify]
      · simp [ownData, PacketPool.modify, own]
    rw [DataOwned, same]
    exact custody
  · intro q inHeld other
    have same := modify_object_of_ne { pool with data := data } other fun o =>
      { o with data := none }
    refine ⟨same, ?_⟩
    rw [content, same]
    exact others q inHeld other

theorem allocdata (settled : pool.Settled slots held) (isHeld : p ∈ held)
    (empty : (pool.object p).data = none) (junk : D) :
    ∃ pool', pool.allocdata p junk = some pool' ∧ pool'.Settled slots held ∧
      SameBut held p pool pool' ∧ pool'.content p = some junk ∧
      pool'.size = pool.size ∧ (pool'.object p).bits = (pool.object p).bits := by
  refine ⟨_, if_pos empty, ?_⟩
  obtain ⟨settled', same, content⟩ := settled.give isHeld empty junk _ rfl
  exact ⟨settled', same, content, rfl, by simp [PacketPool.modify]⟩

theorem setdata (settled : pool.Settled slots held) (isHeld : p ∈ held) (content : Option D) :
    ∃ pool', pool.setdata p content = some pool' ∧ pool'.Settled slots held ∧
      SameBut held p pool pool' ∧ pool'.content p = content ∧
      pool'.size = pool.size ∧ (pool'.object p).bits = (pool.object p).bits := by
  obtain ⟨data, deleted, settled', same⟩ := settled.take isHeld
  cases content with
  | none =>
      refine ⟨_, by simp [PacketPool.setdata, deleted], settled', same, ?_, rfl, ?_⟩
      · simp [PacketPool.content, PacketPool.modify]
      · simp [PacketPool.modify]
  | some value =>
      obtain ⟨settled'', same', found⟩ := settled'.give isHeld
        (by simp [PacketPool.modify]) value _ (newData_modify _ _ _).symm
      refine ⟨_, ?_, settled'', same.trans same', found, rfl, ?_⟩
      · simp [PacketPool.setdata, deleted, newData]
        rfl
      · simp [PacketPool.modify, newData]

/-- A reference is given back; with the last one the packet goes to the free list. -/
theorem freePacket (settled : pool.Settled slots held) (isHeld : p ∈ held)
    (descheduled : held.count p = 1 → (pool.object p).uid ≤ 0) :
    ∃ pool', pool.freePacket slots p = some pool' ∧ pool'.Settled slots (held.erase p) ∧
      SameBut held p pool pool' ∧ pool'.size = pool.size ∧
      (p ∈ held.erase p →
        pool'.object p = { pool.object p with refCount := (pool.object p).refCount - 1 } ∧
          pool'.content p = pool.content p) := by
  obtain ⟨⟨idle, stocked⟩, owned⟩ := id settled
  obtain ⟨flag, count⟩ := stocked.counted p isHeld
  have held_pos := Multiset.count_pos.mpr isHeld
  by_cases last : held.count p = 1
  · have none : (pool.object p).refCount = 0 := by omega
    obtain ⟨data, deleted, ⟨_, owned'⟩, same⟩ := settled.take isHeld
    have gone : p ∉ held.erase p := by
      rw [← Multiset.count_eq_zero, Multiset.count_erase_self, last]
    refine ⟨_, freePacket_eq_last flag none (descheduled last) deleted, ⟨⟨p :: idle, ?_⟩, ?_⟩, ?_,
      rfl, fun stays => absurd stays gone⟩
    · exact stocked.putBack last rfl rfl rfl rfl ⟨rfl, rfl, none, rfl⟩
    · refine Eq.mpr (congrArg (fun owned => Custody owned _ _) ?_) owned'
      funext q
      by_cases own : q = p
      · subst own
        simp [ownData, gone, PacketPool.modify]
      · simp [ownData, own, PacketPool.modify, Multiset.mem_erase_of_ne own]
    · exact same.trans (.of_data (fun q other => by simp [PacketPool.modify, other]) rfl)
  · have more : (pool.object p).refCount ≠ 0 := by omega
    refine ⟨_, freePacket_eq_more flag more, ⟨⟨idle, ?_⟩, ?_⟩,
      .of_data (fun q other => modify_object_of_ne pool other _) rfl, rfl, fun _ => ?_⟩
    · refine stocked.rehold isHeld rfl rfl rfl
        (fun q other => Multiset.count_erase_of_ne other held) ?_ flag ?_
      · rw [← Multiset.count_pos, Multiset.count_erase_self]
        omega
      · rw [Multiset.count_erase_self]
        change (pool.object p).refCount - 1 = _
        omega
    · refine owned.modify rfl rfl (fun q => ?_) rfl rfl
      by_cases own : q = p
      · subst own
        exact iff_of_true (Multiset.count_pos.mp (by rw [Multiset.count_erase_self]; omega)) isHeld
      · exact Multiset.mem_erase_of_ne own
    · simp [content, PacketPool.modify]

/-- A packet that nobody holds is handed out; an object is made only when all are held. -/
theorem alloc (settled : pool.Settled slots held) :
    ∃ p pool', pool.alloc slots = some (p, pool') ∧ p ∉ held ∧
      pool'.Settled slots (p ::ₘ held) ∧ SameBut held p pool pool' ∧
      pool'.object p = freshObject slots ∧
      pool'.size = max pool.size (p ::ₘ held).toFinset.card := by
  obtain ⟨⟨idle, stocked⟩, owned⟩ := settled
  obtain ⟨p, pool', idle', returned, new, objects, data, count, size, stocked'⟩ := stocked.alloc
  have others : ∀ q, q ≠ p → pool'.object q = pool.object q := by
    intro q other
    rw [objects, Function.update_of_ne other]
  refine ⟨p, pool', returned, new, ⟨⟨idle', stocked'⟩, owned.alloc new objects data count⟩,
    .of_data others data, ?_, size⟩
  rw [objects, Function.update_self]

theorem allocWith (settled : pool.Settled slots held) (junk : D) :
    ∃ p pool', pool.allocWith slots junk = some (p, pool') ∧ p ∉ held ∧
      pool'.Settled slots (p ::ₘ held) ∧ SameBut held p pool pool' ∧
      (pool'.object p).bits = Packet.alloc slots ∧ pool'.content p = some junk ∧
      pool'.size = max pool.size (p ::ₘ held).toFinset.card := by
  obtain ⟨p, made, returned, new, settled', same, fresh, size⟩ := settled.alloc
  have isHeld : p ∈ p ::ₘ held := Multiset.mem_cons_self p held
  obtain ⟨pool', filled, settled'', same', content, size', bits⟩ :=
    settled'.allocdata isHeld (by rw [fresh]; rfl) junk
  refine ⟨p, pool', by simp [PacketPool.allocWith, returned, filled], new, settled'',
    same.trans (same'.mono (Multiset.mem_cons_of_mem)), ?_, content, size'.trans size⟩
  rw [bits, fresh]
  rfl

/-- A copy is a packet of its own, with the header and the content of the other. -/
theorem copy (settled : pool.Settled slots held) (isHeld : p ∈ held) :
    ∃ q pool', pool.copy slots p = some (q, pool') ∧ q ∉ held ∧
      pool'.Settled slots (q ::ₘ held) ∧ SameBut held q pool pool' ∧
      (pool'.object q).bits = (pool.object p).bits ∧ pool'.content q = pool.content p ∧
      pool'.size = max pool.size (q ::ₘ held).toFinset.card := by
  obtain ⟨q, made, returned, new, settled', same, fresh, size⟩ := settled.alloc
  have isNew : q ∈ q ::ₘ held := Multiset.mem_cons_self q held
  have apart : p ≠ q := by
    rintro rfl
    exact new isHeld
  obtain ⟨object, sameContent⟩ := same p isHeld apart
  obtain ⟨marked, write⟩ : ∃ marked, marked = made.modify q fun o =>
    { o with bits := (made.object p).bits } := ⟨_, rfl⟩
  obtain ⟨settled'', same'⟩ : marked.Settled slots (q ::ₘ held) ∧
      SameBut (q ::ₘ held) q made marked := by
    rw [write]
    exact settled'.modify isNew rfl rfl rfl
  have same'' := same.trans (same'.mono Multiset.mem_cons_of_mem)
  obtain ⟨object', sameContent'⟩ := same'' p isHeld apart
  have bits : (marked.object q).bits = (pool.object p).bits := by
    simp [write, PacketPool.modify, object]
  have empty : (marked.object q).data = none := by
    simp [write, PacketPool.modify, fresh, freshObject]
  have size' : marked.size = max pool.size (q ::ₘ held).toFinset.card := by
    rw [← size, write]
    rfl
  cases data : (pool.object p).data with
  | none =>
      refine ⟨q, marked, ?_, new, settled'', same'', bits, ?_, size'⟩
      · simp [PacketPool.copy, returned, ← write, object', data]
      · simp [content, empty, data]
  | some d =>
      obtain ⟨value, found⟩ : ∃ value, marked.data d = some value := by
        have own : marked.ownData (q ::ₘ held) p = some d := by
          rw [ownData, if_pos (Multiset.mem_cons_of_mem isHeld), object', data]
        exact Option.isSome_iff_exists.mp (Custody.live settled''.2 own)
      obtain ⟨settled₃, same₃, content₃⟩ := settled''.give isNew empty value _ rfl
      refine ⟨q, _, ?_, new, settled₃, same''.trans (same₃.mono Multiset.mem_cons_of_mem), ?_, ?_,
        size'⟩
      · simp [PacketPool.copy, returned, ← write, object', data, found, newData]
      · rw [← bits]
        simp [PacketPool.modify, newData]
      · rw [content₃, ← sameContent', content, object', data]
        exact found.symm

end Settled

end PacketPool

/-- The packet that a command may change; a copied one stays as it is. -/
def PoolCommand.changed {K D : Type} : PoolCommand K D → Option ℕ
  | .copy _ => none
  | command => command.packet

namespace PoolUsers

/-- Objects and data are where they belong, and no object was made without need. -/
structure Sound (slots : ℕ) (state : PoolUsers K D) : Prop where
  settled : state.pool.Settled slots state.held
  size : state.pool.size = state.peak

/-- What a command is for. -/
def Returned (slots : ℕ) (state state' : PoolUsers K D) : PoolCommand K D → Prop
  | .alloc => ∃ p ∉ state.held, state'.held = p ::ₘ state.held ∧
      state'.pool.object p = freshObject slots
  | .allocWith junk => ∃ p ∉ state.held, state'.held = p ::ₘ state.held ∧
      (state'.pool.object p).bits = Packet.alloc slots ∧ state'.pool.content p = some junk
  | .allocdata p junk => state'.held = state.held ∧
      (state'.pool.object p).bits = (state.pool.object p).bits ∧ state'.pool.content p = some junk
  | .setdata p content => state'.held = state.held ∧
      (state'.pool.object p).bits = (state.pool.object p).bits ∧ state'.pool.content p = content
  | .free p => state'.held = state.held.erase p ∧ (p ∈ state'.held →
      state'.pool.object p =
        { state.pool.object p with refCount := (state.pool.object p).refCount - 1 } ∧
          state'.pool.content p = state.pool.content p)
  | .refcopy p => state'.held = p ::ₘ state.held ∧
      state'.pool.object p =
        { state.pool.object p with refCount := (state.pool.object p).refCount + 1 } ∧
          state'.pool.content p = state.pool.content p
  | .copy p => ∃ q ∉ state.held, state'.held = q ::ₘ state.held ∧
      (state'.pool.object q).bits = (state.pool.object p).bits ∧
      state'.pool.content q = state.pool.content p
  | .write p bits => state'.held = state.held ∧
      state'.pool.object p = { state.pool.object p with bits := bits } ∧
      state'.pool.content p = state.pool.content p
  | .link p next => state'.held = state.held ∧
      state'.pool.object p = { state.pool.object p with next := next } ∧
      state'.pool.content p = state.pool.content p
  | .event p uid time => state'.held = state.held ∧
      state'.pool.object p = { state.pool.object p with uid := uid, time := time } ∧
      state'.pool.content p = state.pool.content p

/-- The packets that a command does not change. -/
def Untouched (state state' : PoolUsers K D) (command : PoolCommand K D) : Prop :=
  ∀ q ∈ state.held, command.changed ≠ some q →
    state'.pool.object q = state.pool.object q ∧ state'.pool.content q = state.pool.content q

variable {slots : ℕ} {state state' : PoolUsers K D} {command : PoolCommand K D}
  {pool : PacketPool K D} {held : Multiset ℕ}

theorem exec_peak (executed : state.exec slots command = some state') :
    state'.peak = max state.peak state'.held.toFinset.card := by
  cases command <;> simp only [exec, Option.map_eq_some_iff, Option.some.injEq] at executed
  case refcopy | write | link | event =>
    subst executed
    rfl
  all_goals
    obtain ⟨_, _, rfl⟩ := executed
    rfl

theorem Sound.hold (sound : state.Sound slots) (settled : pool.Settled slots held)
    (size : pool.size = max state.pool.size held.toFinset.card) :
    (state.hold held pool).Sound slots :=
  ⟨settled, by rw [PoolUsers.hold, size, sound.size]⟩

theorem Sound.hold_of_size (sound : state.Sound slots) (settled : pool.Settled slots held)
    (size : pool.size = state.pool.size) : (state.hold held pool).Sound slots := by
  refine sound.hold settled ?_
  obtain ⟨idle, stocked⟩ := settled.1
  rw [← size]
  exact (max_eq_left stocked.card_le).symm

omit [Zero K] in
theorem Untouched.of_changed {p : ℕ}
    (same : PacketPool.SameBut state.held p state.pool state'.pool)
    (changed : command.changed = some p) : state.Untouched state' command := by
  intro q inHeld other
  refine same q inHeld ?_
  rintro rfl
  exact other changed

omit [Zero K] in
theorem Untouched.of_new {p : ℕ}
    (same : PacketPool.SameBut state.held p state.pool state'.pool) (new : p ∉ state.held) :
    state.Untouched state' command := by
  intro q inHeld _
  refine same q inHeld ?_
  rintro rfl
  exact new inHeld

/-- A user changes what it may of a packet. -/
theorem Sound.modify (sound : state.Sound slots) {p : ℕ} (isHeld : p ∈ state.held)
    (change : PacketObject K → PacketObject K)
    (flag : (change (state.pool.object p)).fflag = (state.pool.object p).fflag)
    (count : (change (state.pool.object p)).refCount = (state.pool.object p).refCount)
    (data : (change (state.pool.object p)).data = (state.pool.object p).data) :
    (state.hold state.held (state.pool.modify p change)).Sound slots ∧
      (state.pool.modify p change).object p = change (state.pool.object p) ∧
      (state.pool.modify p change).content p = state.pool.content p ∧
      PacketPool.SameBut state.held p state.pool (state.pool.modify p change) := by
  obtain ⟨settled, same⟩ := sound.settled.modify isHeld flag count data
  refine ⟨sound.hold_of_size settled rfl, Function.update_self .., ?_, same⟩
  simp [PacketPool.content, PacketPool.modify, data]

/-- What one command does. -/
theorem Sound.exec (sound : state.Sound slots) (enabled : state.Enabled command) :
    ∃ state', state.exec slots command = some state' ∧ state'.Sound slots ∧
      state.Returned slots state' command ∧ state.Untouched state' command := by
  obtain ⟨isHeld, empty, descheduled⟩ := enabled
  have settled := sound.settled
  cases command with
  | alloc =>
      obtain ⟨p, pool, returned, new, settled', same, fresh, size⟩ := settled.alloc
      refine ⟨_, by rw [PoolUsers.exec, returned]; rfl, sound.hold settled' size,
        ⟨p, new, rfl, fresh⟩, .of_new same new⟩
  | allocWith junk =>
      obtain ⟨p, pool, returned, new, settled', same, bits, content, size⟩ :=
        settled.allocWith junk
      refine ⟨_, by rw [PoolUsers.exec, returned]; rfl, sound.hold settled' size,
        ⟨p, new, rfl, bits, content⟩, .of_new same new⟩
  | allocdata p junk =>
      obtain ⟨pool, returned, settled', same, content, size, bits⟩ :=
        settled.allocdata (isHeld p rfl) (empty p junk rfl) junk
      refine ⟨_, by rw [PoolUsers.exec, returned]; rfl, sound.hold_of_size settled' size,
        ⟨rfl, bits, content⟩, .of_changed same rfl⟩
  | setdata p content =>
      obtain ⟨pool, returned, settled', same, content, size, bits⟩ :=
        settled.setdata (isHeld p rfl) content
      refine ⟨_, by rw [PoolUsers.exec, returned]; rfl, sound.hold_of_size settled' size,
        ⟨rfl, bits, content⟩, .of_changed same rfl⟩
  | free p =>
      obtain ⟨pool, returned, settled', same, size, kept⟩ :=
        settled.freePacket (isHeld p rfl) (descheduled p rfl)
      refine ⟨_, by rw [PoolUsers.exec, returned]; rfl, sound.hold_of_size settled' size,
        ⟨rfl, kept⟩, .of_changed same rfl⟩
  | refcopy p =>
      obtain ⟨settled', same⟩ := settled.refcopy (isHeld p rfl)
      refine ⟨_, rfl, sound.hold_of_size settled' rfl, ⟨rfl, Function.update_self .., ?_⟩,
        .of_changed same rfl⟩
      simp [PoolUsers.hold, PacketPool.content, PacketPool.refcopy, PacketPool.modify]
  | copy p =>
      obtain ⟨q, pool, returned, new, settled', same, bits, content, size⟩ :=
        settled.copy (isHeld p rfl)
      refine ⟨_, by rw [PoolUsers.exec, returned]; rfl, sound.hold settled' size,
        ⟨q, new, rfl, bits, content⟩, .of_new same new⟩
  | write p bits =>
      obtain ⟨sound', object, content, same⟩ := sound.modify (isHeld p rfl)
        (fun o => { o with bits := bits }) rfl rfl rfl
      refine ⟨_, rfl, sound', ⟨rfl, object, content⟩, .of_changed same rfl⟩
  | link p next =>
      obtain ⟨sound', object, content, same⟩ := sound.modify (isHeld p rfl)
        (fun o => { o with next := next }) rfl rfl rfl
      refine ⟨_, rfl, sound', ⟨rfl, object, content⟩, .of_changed same rfl⟩
  | event p uid time =>
      obtain ⟨sound', object, content, same⟩ := sound.modify (isHeld p rfl)
        (fun o => { o with uid := uid, time := time }) rfl rfl rfl
      refine ⟨_, rfl, sound', ⟨rfl, object, content⟩, .of_changed same rfl⟩

theorem Sound.of_reachable (reachable : (packetPool K D slots).Reachable state) :
    state.Sound slots := by
  refine reachable.invariant (Sound slots) ?_ ?_
  · rintro state ⟨size, free, data, held, peak⟩
    refine ⟨⟨⟨[], ?_⟩, ?_⟩, size.trans peak.symm⟩
    · refine ⟨?_, List.nodup_nil, ?_, ?_, ?_, ?_⟩
      · rw [free]
        exact .nil
      · simp [size, held]
      · simp
      · simp
      · simp [held]
    · have nobody : state.pool.ownData state.held = fun _ => none := by
        funext p
        simp [PacketPool.ownData, held]
      rw [PacketPool.DataOwned, nobody]
      refine ⟨?_, ?_, ?_, fun _ => data _⟩
      · rintro _ _ owns
        cases owns
      · rintro _ _ _ owns
        cases owns
      · intro _ living
        simp [data] at living
  · rintro first command last sound ⟨enabled, executed⟩
    obtain ⟨_, executed', sound', _⟩ := sound.exec enabled
    obtain rfl := Option.some.inj (executed.symm.trans executed')
    exact sound'

/-- A pool that has not made any object yet. -/
def initial : PoolUsers ℕ ℕ := ⟨⟨0, fun _ => freshObject 0, none, fun _ => none, 0⟩, 0, 0⟩

/-- Whether a user may do this with the packets it holds. -/
def allows (state : PoolUsers K D) (command : PoolCommand K D) : Bool :=
  (∀ p ∈ command.packet, p ∈ state.held) &&
    match command with
    | .allocdata p _ => (state.pool.object p).data = none
    | .free p => state.held.count p = 1 → (state.pool.object p).uid ≤ 0
    | _ => true

omit [Zero K] in
theorem allows_iff {state : PoolUsers K D} {command : PoolCommand K D} :
    state.allows command = true ↔ state.Enabled command := by
  unfold allows
  rw [Bool.and_eq_true, decide_eq_true_iff]
  refine and_congr_right fun _ => ?_
  cases command with
  | free p =>
      rw [decide_eq_true_iff]
      refine ⟨fun scheduled => ⟨nofun, ?_⟩, fun allowed => allowed.2 p rfl⟩
      rintro _ ⟨⟩
      exact scheduled
  | _ => simp

/-- The pool after a command that its users may give. -/
def next (slots : ℕ) (state : PoolUsers K D) (command : PoolCommand K D) :
    Option (PoolUsers K D) :=
  if state.allows command then state.exec slots command else none

theorem reachable_of_follow {first last : PoolUsers K D} {commands : List (PoolCommand K D)}
    {trace : List (PoolUsers K D × PoolCommand K D)} (empty : (packetPool K D slots).init first)
    (followed : TransitionSystem.follow (next slots) first (commands.map fun command _ =>
      some command) = some (trace, last)) : (packetPool K D slots).Reachable last := by
  refine ⟨first, trace, empty, (TransitionSystem.run_of_follow (fun _ => True) ?_ trivial
    followed).1⟩
  intro state command state' _ computed
  unfold next at computed
  split at computed
  next allowed => exact ⟨⟨allows_iff.mp allowed, computed⟩, trivial⟩
  next => cases computed

/-- A packet with data is copied, the copy gets a second user, and the first packet is freed. -/
def copied : List (PoolCommand ℕ ℕ) := [.allocWith 7, .copy 0, .refcopy 1, .alloc, .free 0]

/-- The free packet is left, two references to the copy, and one to a packet without data. -/
theorem exists_copied : ∃ state : PoolUsers ℕ ℕ, (packetPool ℕ ℕ 0).Reachable state ∧
    state.held = {1, 1, 2} ∧ state.pool.free = some 0 ∧ state.pool.content 1 = some 7 ∧
    ∀ p ∈ state.held, (state.pool.object p).uid ≤ 0 := by
  have observed : (TransitionSystem.follow (next 0) initial (copied.map fun command _ =>
      some command)).map (fun outcome => decide (outcome.2.held = {1, 1, 2} ∧
        outcome.2.pool.free = some 0 ∧ outcome.2.pool.content 1 = some 7 ∧
        ∀ p ∈ outcome.2.held, (outcome.2.pool.object p).uid ≤ 0)) = some true := by
    decide +kernel
  obtain ⟨⟨trace, state⟩, followed, facts⟩ := Option.map_eq_some_iff.mp observed
  exact ⟨state, reachable_of_follow ⟨rfl, rfl, fun _ => rfl, rfl, rfl⟩ followed,
    of_decide_eq_true facts⟩

/-- No command ends in an assertion or deletes data twice.  A packet that is handed out is
held by nobody else, and the packets that a command is not given stay as they are. -/
theorem pool_serves (reachable : (packetPool K D slots).Reachable state)
    (enabled : state.Enabled command) :
    ∃ state', state.exec slots command = some state' ∧ state.Returned slots state' command ∧
      state.Untouched state' command := by
  obtain ⟨state', executed, _, returned, untouched⟩ := (Sound.of_reachable reachable).exec enabled
  exact ⟨state', executed, returned, untouched⟩

/-- The copy is copied once more, into the packet on the free list. -/
theorem pool_serves_copy : ∃ state state' : PoolUsers ℕ ℕ, (packetPool ℕ ℕ 0).Reachable state ∧
    state.exec 0 (.copy 1) = some state' ∧ state.Returned 0 state' (.copy 1) ∧
      state.Untouched state' (.copy 1) := by
  obtain ⟨state, reachable, held, _⟩ := exists_copied
  have enabled : state.Enabled (.copy 1) := by
    refine ⟨?_, nofun, nofun⟩
    rintro p ⟨⟩
    rw [held]
    decide
  obtain ⟨state', executed, returned, untouched⟩ := pool_serves reachable enabled
  exact ⟨state, state', reachable, executed, returned, untouched⟩

/-- Every object is held or on the free list, no data are shared or lost, and there are as
many objects as packets were ever held at once. -/
theorem pool_accounts (reachable : (packetPool K D slots).Reachable state) :
    (∃ idle, state.pool.Stocked slots state.held idle) ∧ state.pool.DataOwned state.held ∧
      state.pool.size = state.peak := by
  have sound := Sound.of_reachable reachable
  exact ⟨sound.settled.1, sound.settled.2, sound.size⟩

theorem pool_accounts_first : ∃ state : PoolUsers ℕ ℕ, (packetPool ℕ ℕ 0).Reachable state ∧
    state.held = {1, 1, 2} ∧ (∃ idle, state.pool.Stocked 0 state.held idle) ∧
      state.pool.DataOwned state.held ∧ state.pool.size = state.peak := by
  obtain ⟨state, reachable, held, _⟩ := exists_copied
  exact ⟨state, reachable, held, pool_accounts reachable⟩

/-- References are given back in any order. -/
theorem Sound.release (order : List ℕ) (sound : state.Sound slots)
    (all : (order : Multiset ℕ) = state.held)
    (descheduled : ∀ p ∈ state.held, (state.pool.object p).uid ≤ 0) :
    ∃ trace last, (packetPool K D slots).Run state trace last ∧
      trace.map Prod.snd = order.map .free ∧ last.Sound slots ∧ last.held = 0 ∧
      last.peak = state.peak := by
  induction order generalizing state with
  | nil => exact ⟨[], state, .refl state, rfl, sound, all.symm, rfl⟩
  | cons p order inductionHypothesis =>
      have isHeld : p ∈ state.held := all ▸ List.mem_cons_self
      have enabled : state.Enabled (.free p) := by
        refine ⟨?_, nofun, ?_⟩
        · rintro q ⟨⟩
          exact isHeld
        · rintro q ⟨⟩ _
          exact descheduled p isHeld
      obtain ⟨next, executed, sound', ⟨erased, kept⟩, untouched⟩ := sound.exec enabled
      have fewer : (order : Multiset ℕ) = next.held := by
        rw [erased, ← all]
        simp
      have descheduled' : ∀ q ∈ next.held, (next.pool.object q).uid ≤ 0 := by
        intro q inHeld
        have before : q ∈ state.held := Multiset.mem_of_mem_erase (erased ▸ inHeld)
        by_cases own : q = p
        · subst own
          rw [(kept inHeld).1]
          exact descheduled q before
        · rw [(untouched q before fun same => own (Option.some.inj same).symm).1]
          exact descheduled q before
      obtain ⟨trace, last, run, labels, finished⟩ :=
        inductionHypothesis sound' fewer descheduled'
      have peak : next.peak = state.peak := by
        obtain ⟨idle, stocked⟩ := sound.settled.1
        have card : next.held.toFinset.card ≤ state.held.toFinset.card := by
          rw [erased]
          exact Finset.card_le_card (Multiset.toFinset_subset.mpr (Multiset.erase_subset p _))
        rw [exec_peak executed]
        exact max_eq_left ((card.trans stocked.card_le).trans sound.size.le)
      have step : (packetPool K D slots).step state (.free p) next := ⟨enabled, executed⟩
      refine ⟨(state, .free p) :: trace, last,
        (TransitionSystem.Run.single step).trans run, ?_, ?_⟩
      · simp [labels]
      · rw [← peak]
        exact finished

/-- When all references are given back, in any order, every object is on the free list
again and no data are left. -/
theorem pool_drains (reachable : (packetPool K D slots).Reachable state) {order : List ℕ}
    (all : (order : Multiset ℕ) = state.held)
    (descheduled : ∀ p ∈ state.held, (state.pool.object p).uid ≤ 0) :
    ∃ trace last, (packetPool K D slots).Run state trace last ∧
      trace.map Prod.snd = order.map .free ∧ (∀ d, last.pool.data d = none) ∧
      ∃ idle, last.pool.Stocked slots 0 idle ∧ idle.Perm (List.range state.pool.size) := by
  have sound := Sound.of_reachable reachable
  obtain ⟨trace, last, run, labels, sound', none, peak⟩ := sound.release order all descheduled
  obtain ⟨⟨idle, stocked⟩, owned⟩ := sound'.settled
  have size : last.pool.size = state.pool.size := sound'.size.trans (peak.trans sound.size.symm)
  rw [none] at stocked owned
  refine ⟨trace, last, run, labels, fun d => ?_, idle, stocked, ?_⟩
  · by_contra living
    obtain ⟨p, owns⟩ := Custody.kept owned (Option.isSome_iff_ne_none.mpr living)
    simp [PacketPool.ownData] at owns
  · refine (List.perm_ext_iff_of_nodup stocked.distinct List.nodup_range).mpr fun p => ?_
    rw [List.mem_range, ← size, stocked.places p]
    simp

/-- The references to the copy are given back before and after the other packet. -/
theorem pool_drains_first : ∃ state : PoolUsers ℕ ℕ, state.pool.content 1 = some 7 ∧
    ∃ trace last, (packetPool ℕ ℕ 0).Run state trace last ∧
      trace.map Prod.snd = [.free 1, .free 2, .free 1] ∧ (∀ d, last.pool.data d = none) ∧
      ∃ idle, last.pool.Stocked 0 0 idle ∧ idle.Perm (List.range state.pool.size) := by
  obtain ⟨state, reachable, held, _, content, descheduled⟩ := exists_copied
  have all : (([1, 2, 1] : List ℕ) : Multiset ℕ) = state.held := by
    rw [held]
    decide
  exact ⟨state, content, pool_drains reachable all descheduled⟩

end PoolUsers

end AntAodv
