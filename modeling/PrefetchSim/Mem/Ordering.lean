import PrefetchSim.Mem.Targets

/- The order of misses and older writes to the same addresses (`getNextMSHR`).

   A write waits in the write buffer until its time has come, and a miss that is
   younger may be ready at the same time. What keeps them in order is that both
   queues are stamped by one clock: a demand miss that is younger than a write is
   ready no earlier (`Behind`), the write buffer is sorted by age, and when both
   are ready `getNextMSHR` searches for a conflict. A prefetch that becomes a miss
   is ready at once, and no search is made for it. So a run is in order exactly if
   in none of its states a prefetch is taken off the queue while the write buffer
   holds an entry that overlaps its block (`in_order_iff`).

   The search does not see a write that has been sent and waits for its response in
   the buffer (an uncached one), nor ranges at the end of the address space, where the
   sums of the test wrap round. So this is about runs in which no request is put
   into the miss queue next to such a write in its way (`Follows`). -/
namespace PrefetchSim

/-! ## Ranges and stamps -/

/-- The range of an entry, and when it was made and is ready. -/
structure Slot where
  addr : Addr
  size : Nat
  order : Nat
  readyTime : Tick

/-- The two ranges have an address in common. -/
def Slot.Overlaps (w m : Slot) : Prop :=
  w.addr.toNat < m.addr.toNat + m.size ∧ m.addr.toNat < w.addr.toNat + w.size

instance (w m : Slot) : Decidable (w.Overlaps m) := inferInstanceAs (Decidable (_ ∧ _))

def Mshr.slot (m : Mshr) : Slot := ⟨m.addr, m.size, m.order, m.readyTime⟩

/-- The entries that wait to be sent, in the order of the ready list. -/
def MshrQueue.waiting (q : MshrQueue) : List Slot := q.readyList.map fun i => (q.registers i).slot

/-- A miss and its deferred targets are ready no earlier than the older writes
among `ws` that are in their way. -/
structure Mshr.Behind (ws : List Slot) (order : Nat) (m : Mshr) : Prop where
  order_lt : m.order < order
  ready : ∀ w ∈ ws, w.Overlaps m.slot → w.order < m.order → w.readyTime ≤ m.readyTime
  deferred : ∀ t ∈ m.deferredTargets.list, t.order < order ∧
    ∀ w ∈ ws, w.order < t.order → w.readyTime ≤ t.readyTime

/-- What is new is stamped with the present order, and is ready no earlier than the
writes unless it is a prefetch that none of them is in the way of. -/
structure Entering.Late (new : Entering) (ws : List Slot) (order : Nat) : Prop where
  entry : ∀ addr size pkt time o, new.entry addr size pkt time o → o < order ∧
    ∀ w ∈ ws, w.Overlaps ⟨addr, size, o, time⟩ → w.readyTime ≤ time
  target : ∀ addr size time o, new.target addr size time o → o < order ∧ ∀ w ∈ ws, w.readyTime ≤ time

theorem replaceIf_stamps {b : Bool} {tl : TargetList} {t : Target} (h : t ∈ (Mshr.replaceIf b tl).list) :
    ∃ t' ∈ tl.list, t.order = t'.order ∧ t.readyTime = t'.readyTime := by
  obtain ⟨t', ht', rfl | rfl⟩ := Mshr.mem_replaceIf h
  · exact ⟨t, ht', rfl, rfl⟩
  · refine ⟨t', ht', ?_⟩
    unfold TargetList.replaceUpgrade
    split
    · exact ⟨rfl, rfl⟩
    · split <;> exact ⟨rfl, rfl⟩

/-- The stamp of an entry has `E`, and those of its deferred targets have `D`. -/
structure Mshr.Stamped (E D : Slot → Prop) (m : Mshr) : Prop where
  entry : E m.slot
  deferred : ∀ t ∈ m.deferredTargets.list, D ⟨m.addr, m.size, t.order, t.readyTime⟩

/-- An entry that goes on with its deferred targets takes the stamp of the first one, and is
ready no earlier. -/
theorem stamped_invariant {new : Entering} {E D : Slot → Prop}
    (hentry : ∀ addr size pkt time o, new.entry addr size pkt time o → E ⟨addr, size, o, time⟩)
    (htarget : ∀ addr size time o, new.target addr size time o → D ⟨addr, size, o, time⟩)
    (hlater : ∀ slot now, D slot → E { slot with readyTime := max now slot.readyTime }) :
    EntryInvariant new .mshrs (Mshr.Stamped E D) where
  allocate m addr size pkt time o hm _ hok := by
    refine ⟨hentry addr size pkt time o hok, fun t ht => ?_⟩
    simp [Mshr.allocate, hm.deferred] at ht
  target _ m pkt time o _ hok h := by
    unfold Mshr.allocateTarget
    split
    · refine ⟨h.entry, fun t ht => ?_⟩
      simp only [TargetList.add, List.mem_append, List.mem_singleton] at ht
      rcases ht with ht | rfl
      · exact h.deferred t ht
      · exact htarget _ _ time o hok
    · exact ⟨h.entry, h.deferred⟩
  snoop _ m now pkt o _ h := by
    obtain ⟨-, htime, horder, haddr, hsize⟩ := handleSnoop_fields m now pkt o
    obtain ⟨-, -, -, -, hdef⟩ := m.handleSnoop_lists now pkt o
    refine ⟨?_, fun t ht => ?_⟩
    · rw [Mshr.slot, htime, horder, haddr, hsize]
      exact h.entry
    · rw [hdef] at ht
      obtain ⟨t', ht', ho, hr⟩ := replaceIf_stamps ht
      rw [haddr, hsize, ho, hr]
      exact h.deferred t' ht'
  flags m _ _ h := ⟨h.entry, h.deferred⟩
  sent m _ _ h := ⟨h.entry, h.deferred⟩
  bail m target _ _ _ h := ⟨h.entry, h.deferred⟩
  finish m r now hfill h hprom := by
    have hrange : r.addr = m.addr ∧ r.size = m.size := by
      rcases hfill with rfl | ⟨pkt, rfl⟩
      · exact ⟨rfl, rfl⟩
      · unfold Mshr.handleFill
        dsimp only
        split <;> exact ⟨rfl, rfl⟩
    unfold Mshr.promoteDeferredTargets at hprom ⊢
    cases hd : r.served.deferredTargets.list with
    | nil => simp [hd] at hprom
    | cons t ts =>
      have hmem : t ∈ m.deferredTargets.list := by
        apply filled_deferred hfill
        rw [show r.deferredTargets.list = t :: ts from hd]
        exact List.mem_cons_self ..
      refine ⟨?_, fun t' ht' => ?_⟩
      · show E ⟨r.addr, r.size, t.order, max now t.readyTime⟩
        rw [hrange.1, hrange.2]
        exact hlater _ now (h.deferred t hmem)
      · simp [Mshr.served, TargetList.resetFlags] at ht'

theorem Mshr.behind_eq (ws : List Slot) (order : Nat) : Mshr.Behind ws order = Mshr.Stamped
    (fun m => m.order < order ∧ ∀ w ∈ ws, w.Overlaps m → w.order < m.order → w.readyTime ≤ m.readyTime)
    (fun t => t.order < order ∧ ∀ w ∈ ws, w.order < t.order → w.readyTime ≤ t.readyTime) :=
  funext fun _ => propext ⟨fun h => ⟨⟨h.order_lt, h.ready⟩, h.deferred⟩, fun h => ⟨h.entry.1, h.entry.2, h.deferred⟩⟩

theorem behind_invariant {new : Entering} {ws : List Slot} {order : Nat} (hnew : new.Late ws order) :
    EntryInvariant new .mshrs (Mshr.Behind ws order) := by
  rw [Mshr.behind_eq]
  refine stamped_invariant (fun addr size pkt time o hok => ?_) (fun addr size time o hok => ?_)
    fun t now ht => ⟨ht.1, fun w hw _ hold => le_trans (ht.2 w hw hold) (le_max_right ..)⟩
  · obtain ⟨hlt, hready⟩ := hnew.entry addr size pkt time o hok
    exact ⟨hlt, fun w hw hover _ => hready w hw hover⟩
  · obtain ⟨hlt, hready⟩ := hnew.target addr size time o hok
    exact ⟨hlt, fun w hw _ => hready w hw⟩

/-! ## Writes that leave the buffer when they are sent -/

/-- The write waits in the buffer for a response. -/
def Mshr.responds (w : Mshr) : Bool := w.targets.list.any fun t => t.pkt.cmd.needsResponse

/-- A write that has the range in its way is one that leaves the buffer when it is sent, and
neither of the two reaches the end of the address space. -/
def Mshr.Yields (w : Mshr) (addr : Addr) (size : Nat) : Prop :=
  w.slot.Overlaps ⟨addr, size, 0, 0⟩ →
    w.responds = false ∧ w.addr.toNat + w.size < 2 ^ 64 ∧ addr.toNat + size < 2 ^ 64

instance (w : Mshr) (addr : Addr) (size : Nat) : Decidable (w.Yields addr size) :=
  inferInstanceAs (Decidable (_ → _))

/-- All writes in the buffer that have the range in their way. -/
def MshrQueue.Yields (q : MshrQueue) (addr : Addr) (size : Nat) : Prop :=
  ∀ j ∈ q.allocatedList, (q.registers j).Yields addr size

instance (q : MshrQueue) (addr : Addr) (size : Nat) : Decidable (q.Yields addr size) :=
  inferInstanceAs (Decidable (∀ j ∈ q.allocatedList, (q.registers j).Yields addr size))

/-- The older writes among `ws` that are in the way of a miss, or of its deferred targets,
leave the buffer when they are sent. -/
def Mshr.Heeds (ws : List Mshr) : Mshr → Prop :=
  Mshr.Stamped (fun m => ∀ w ∈ ws, w.order < m.order → w.Yields m.addr m.size)
    (fun t => ∀ w ∈ ws, w.order < t.order → w.Yields t.addr t.size)

/-- A write is one of those there were, or is new. -/
def Mshr.From (ws : List Mshr) (o : Nat) (w : Mshr) : Prop :=
  w.order = o ∨ ∃ v ∈ ws, v.slot = w.slot ∧ v.targets.list = w.targets.list

/-- What is said of the stamp and the targets of a write stays true: neither changes. -/
theorem write_invariant {new : Entering} {K : Slot → List Target → Prop}
    (hentry : ∀ addr size pkt time o, new.entry addr size pkt time o → ∀ ts, K ⟨addr, size, o, time⟩ ts) :
    EntryInvariant new .writeBuffer fun m => m.HoldsWrite ∧ K m.slot m.targets.list where
  allocate m addr size pkt time o hm hd hok :=
    ⟨(holdsWrite_invariant new).allocate m addr size pkt time o hm hd hok, hentry addr size pkt time o hok _⟩
  target h := by cases h
  snoop h := by cases h
  flags m f p h := ⟨(holdsWrite_invariant new).flags m f p h.1, h.2⟩
  sent m hb hf h := ⟨(holdsWrite_invariant new).sent m hb hf h.1, h.2⟩
  bail m t hfirst hpf hmore h := by
    -- the write buffer holds no prefetches
    obtain ⟨-, t', ht', -, -, hcmd, -⟩ := h.1
    rw [Mshr.getTarget, ht', List.head?_cons] at hfirst
    cases hfirst
    exact absurd hpf hcmd
  finish m r now hfill h hprom := by
    rw [filled_of_no_deferred h.1.1 hfill] at hprom
    simp [Mshr.served, Mshr.promoteDeferredTargets, h.1.1] at hprom

theorem Mshr.Yields.congr {v w : Mshr} {addr : Addr} {size : Nat} (h : v.Yields addr size) (hslot : v.slot = w.slot)
    (htargets : v.targets.list = w.targets.list) : w.Yields addr size := by
  have haddr : v.addr = w.addr := congrArg Slot.addr hslot
  have hsize : v.size = w.size := congrArg Slot.size hslot
  unfold Mshr.Yields Mshr.responds at h ⊢
  rwa [hslot, htargets, haddr, hsize] at h

/-- The test of the search is exact where no sum wraps round. -/
theorem Mshr.overlapsRange_of_overlaps {w m : Mshr} (hover : w.slot.Overlaps m.slot)
    (hw : w.addr.toNat + w.size < 2 ^ 64) (hm : m.addr.toNat + m.size < 2 ^ 64) :
    w.overlapsRange m.addr m.size = true := by
  obtain ⟨hleft, hright⟩ : w.addr.toNat < m.addr.toNat + m.size ∧ m.addr.toNat < w.addr.toNat + w.size := hover
  have hsum : ∀ (a : Addr) (n : Nat), a.toNat + n < 2 ^ 64 → (a + BitVec.ofNat 64 n).toNat = a.toNat + n := by
    intro a n h
    rw [BitVec.toNat_add, BitVec.toNat_ofNat, Nat.mod_eq_of_lt (show n < 2 ^ 64 by omega), Nat.mod_eq_of_lt h]
  unfold Mshr.overlapsRange
  split
  · rw [decide_eq_true_iff, BitVec.lt_def, hsum _ _ hw]
    exact hright
  · rw [decide_eq_true_iff, BitVec.lt_def, hsum _ _ hm]
    exact hleft

/-! ## The write buffer -/

theorem MshrQueue.waiting_sublist {q q' : MshrQueue} (hl : q'.readyList.Sublist q.readyList)
    (hr : ∀ k ∈ q'.readyList, (q'.registers k).slot = (q.registers k).slot) :
    q'.waiting.Sublist q.waiting := by
  unfold waiting
  rw [List.map_congr_left hr]
  exact hl.map _

theorem MshrQueue.WellFormed.waiting_deallocate {q : MshrQueue} (hq : q.WellFormed) (i : Nat) {r : Mshr}
    (hin : r.inService = (q.registers i).inService) :
    ((q.modify i fun _ => r).deallocate i).waiting.Sublist q.waiting := by
  have hself : ((q.modify i fun _ => r).registers i).inService = (q.registers i).inService := by
    simp [MshrQueue.modify, hin]
  have hne : ∀ k ∈ ((q.modify i fun _ => r).deallocate i).readyList, k ≠ i := by
    intro k hk
    simp only [MshrQueue.deallocate, hself] at hk
    rintro rfl
    split at hk
    · rename_i hs
      have := (hq.mem_ready.1 hk).2
      rw [hs] at this
      cases this
    · exact hq.nodup_ready.not_mem_erase hk
  apply MshrQueue.waiting_sublist
  · simp only [MshrQueue.deallocate]
    split
    · exact List.Sublist.refl _
    · exact List.erase_sublist
  · intro k hk
    simp [MshrQueue.deallocate, MshrQueue.modify, hne k hk]

/-- An entry that is ready no earlier than the others goes to the end of the ready list. -/
theorem MshrQueue.WellFormed.map_ready_allocate {q : MshrQueue} (hq : q.WellFormed) {α : Type} (f : Mshr → α)
    {j : Nat} {rest : List Nat} (hf : q.freeList = j :: rest) {addr : Addr} {size : Nat} {pkt : Packet}
    {time : Tick} {o : Nat} (hlate : ∀ k ∈ q.readyList, (q.registers k).readyTime ≤ time) :
    let q' := (q.allocate addr size pkt time o).1
    (q'.readyList.map fun i => f (q'.registers i)) =
      (q.readyList.map fun i => f (q.registers i)) ++ [f ((q.registers j).allocate addr size pkt time o)] := by
  have hold : ∀ k ∈ q.readyList, k ≠ j := by
    rintro k hk rfl
    exact hq.notMem_free (hq.mem_ready.1 hk).1 (hf ▸ List.mem_cons_self ..)
  have hend : Pool.enqueue (fun k => (Function.update q.registers j
      ((q.registers j).allocate addr size pkt time o) k).readyTime) j q.readyList = q.readyList ++ [j] := by
    apply Pool.enqueue_of_le
    intro k hk
    rw [Function.update_of_ne (hold k hk), Function.update_self]
    exact hlate k hk
  unfold MshrQueue.allocate
  rw [hf]
  simp only [MshrQueue.addToReadyList, MshrQueue.modify, hend, List.map_append, List.map_cons, List.map_nil,
    Function.update_self]
  congr 1
  apply List.map_congr_left
  intro k hk
  rw [Function.update_of_ne (hold k hk)]

/-- The write buffer is first in, first out: a write that is ready no earlier than
the others goes to the end. -/
theorem QueueStep.waiting {new : Entering} {q q' : MshrQueue} (h : QueueStep new .writeBuffer q q')
    (hq : q.WellFormed) (hw : ∀ i ∈ q.allocatedList, (q.registers i).HoldsWrite)
    (hlate : ∀ addr size pkt time o, new.entry addr size pkt time o → ∀ w ∈ q.waiting, w.readyTime ≤ time) :
    q'.waiting.Sublist q.waiting ∨ ∃ addr size pkt time o, new.entry addr size pkt time o ∧
      q'.waiting = q.waiting ++ [⟨addr, size, o, time⟩] := by
  cases h with
  | same => exact .inl (List.Sublist.refl _)
  | allocate addr size pkt time o _ hok =>
    cases hf : q.freeList with
    | nil =>
      left
      unfold MshrQueue.allocate
      rw [hf]
    | cons j rest =>
      right
      refine ⟨addr, size, pkt, time, o, hok, ?_⟩
      exact hq.map_ready_allocate Mshr.slot hf fun k hk =>
        hlate addr size pkt time o hok _ (List.mem_map_of_mem hk)
  | target i pkt time o _ hidx => cases hidx
  | snoop i now pkt o _ hidx => cases hidx
  | flags i forward pending _ =>
    refine .inl (MshrQueue.waiting_sublist (List.Sublist.refl _) ?_)
    intro k _
    by_cases hk : k = i
    · subst hk
      simp [MshrQueue.modify, Mshr.slot]
    · simp [MshrQueue.modify, hk]
  | sent i hi =>
    left
    unfold MshrQueue.markInService Mshr.markInService
    by_cases hf : (q.registers i).isForwardNoResponse = true
    · simp only [hf, if_true]
      exact hq.waiting_deallocate i rfl
    · simp only [hf, Bool.false_eq_true, if_false]
      apply MshrQueue.waiting_sublist List.erase_sublist
      intro k hk
      have hne : k ≠ i := fun e => hq.nodup_ready.not_mem_erase (e ▸ hk)
      simp [MshrQueue.modify, hne]
  | bail i target hi hfirst hpf =>
    -- the write buffer holds no prefetches
    obtain ⟨-, t, ht, -, -, hcmd, -⟩ := hw i (hq.mem_ready.1 hi).1
    rw [Mshr.getTarget, ht, List.head?_cons] at hfirst
    cases hfirst
    exact absurd hpf hcmd
  | finish i now r hi hfill =>
    have hdef := (hw i hi).1
    obtain rfl := filled_of_no_deferred hdef hfill
    have hnone : ((q.registers i).served.promoteDeferredTargets now).2 = false := by
      simp [Mshr.served, Mshr.promoteDeferredTargets, hdef]
    left
    rw [MshrQueue.finish, hnone]
    exact hq.waiting_deallocate i rfl

/-! ## The invariant -/

namespace Cache

variable {σ : Type}

/-- No entry of the write buffer is in the way of a prefetch. -/
def Clear (cfg : Config) (s : Cache σ) (p : Packet) : Prop :=
  ∀ j ∈ s.writeBuffer.allocatedList, ¬(s.writeBuffer.registers j).slot.Overlaps
    ⟨cfg.geom.blockAlign p.addr, cfg.geom.blkSize, s.order, s.curTick⟩

instance (cfg : Config) (s : Cache σ) (p : Packet) : Decidable (s.Clear cfg p) :=
  inferInstanceAs (Decidable (∀ j ∈ s.writeBuffer.allocatedList, _))

/-- Misses are behind the older writes in their way, and writes are sent in order. -/
structure Ordered (cfg : Config) (s : Cache σ) : Prop where
  sound : s.Sound cfg
  behind : ∀ i ∈ s.mshrQueue.allocatedList,
    (s.mshrQueue.registers i).Behind s.writeBuffer.waiting s.order
  writes : ∀ j ∈ s.writeBuffer.allocatedList,
    (s.writeBuffer.registers j).HoldsWrite ∧ (s.writeBuffer.registers j).order < s.order
  sorted : s.writeBuffer.waiting.Pairwise fun v w => v.order < w.order
  timely : ∀ w ∈ s.writeBuffer.waiting, w.readyTime ≤ s.curTick + cfg.geom.hitLatency

theorem initial_ordered (cfg : Config) (policy : σ) : (initial cfg policy).Ordered cfg where
  sound := initial_sound cfg policy
  behind i hi := by simp [initial, MshrQueue.create] at hi
  writes j hj := by simp [initial, MshrQueue.create] at hj
  sorted := List.Pairwise.nil
  timely w hw := by simp [initial, MshrQueue.create, MshrQueue.waiting] at hw

/-- A write that waits is an entry of the write buffer. -/
theorem Ordered.mem_waiting {cfg : Config} {s : Cache σ} (hs : s.Ordered cfg) {w : Slot}
    (hw : w ∈ s.writeBuffer.waiting) :
    ∃ j ∈ s.writeBuffer.allocatedList, (s.writeBuffer.registers j).slot = w := by
  obtain ⟨j, hj, rfl⟩ := List.mem_map.1 hw
  exact ⟨j, ((hs.sound.queues .writeBuffer).mem_ready.1 hj).1, rfl⟩

section

variable {cfg : Config} {P : Policy σ} {ok : Allowed σ} {bail : Cache σ → MshrRef → Prop}
  {demand : MshrQueue → Addr → Nat → Prop} {s s' : Cache σ}

theorem freed_order (s : Cache σ) (idx : QueueIdx) (q : MshrQueue) : (s.freed idx q).order = s.order := by
  unfold freed
  split <;> cases idx <;> rfl

/-- Time and order do not go back, and at most one order number is given out. -/
theorem Micro.clock (h : Micro cfg P ok s s') :
    s.curTick ≤ s'.curTick ∧ s.order ≤ s'.order ∧ s'.order ≤ s.order + 1 := by
  have hbuffer : ∀ (s : Cache σ) idx addr size pkt time,
      (s.allocateBuffer idx addr size pkt time).1.order = s.order + 1 := by
    intro s idx addr size pkt time
    unfold allocateBuffer
    dsimp only
    split <;> cases idx <;> rfl
  cases h with
  | others core =>
    rw [core.curTick, core.order]
    exact ⟨le_refl _, le_refl _, Nat.le_succ _⟩
  | time n => exact ⟨Nat.le_add_right .., le_refl _, Nat.le_succ _⟩
  | miss addr size pkt _ _ =>
    rw [allocateBuffer_curTick, hbuffer]
    exact ⟨le_refl _, Nat.le_succ _, le_refl _⟩
  | write pkt _ =>
    rw [allocateWriteBuffer, allocateBuffer_curTick, hbuffer]
    exact ⟨le_refl _, Nat.le_succ _, le_refl _⟩
  | target i pkt _ _ => exact ⟨le_refl _, Nat.le_succ _, le_refl _⟩
  | snoop i pkt _ _ => exact ⟨le_refl _, Nat.le_succ _, le_refl _⟩
  | flags m _ _ _ =>
    obtain ⟨_ | _, i⟩ := m <;> exact ⟨le_refl _, le_refl _, Nat.le_succ _⟩
  | popMiss p rest _ _ _ =>
    rw [allocateMissBuffer, allocateBuffer_curTick, hbuffer]
    exact ⟨le_refl _, Nat.le_succ _, le_refl _⟩
  | sent m _ =>
    rw [markInService, freed_curTick, freed_order]
    exact ⟨le_refl _, le_refl _, Nat.le_succ _⟩
  | bail m target _ _ _ _ =>
    unfold bailOut
    dsimp only
    obtain ⟨_ | _, i⟩ := m <;> split <;> exact ⟨le_refl _, le_refl _, Nat.le_succ _⟩
  | answered m r hasBlk _ _ =>
    have hsettle : (s.settle m r).order = s.order := by
      unfold settle
      split
      · cases m.1 <;> rfl
      · exact freed_order ..
    exact ⟨le_of_eq (settle_curTick m r s).symm, le_of_eq hsettle.symm,
      le_trans (le_of_eq hsettle) (Nat.le_succ _)⟩
  | _ => exact ⟨le_refl _, le_refl _, Nat.le_succ _⟩

/-- What an elementary operation enters is late enough. -/
theorem Ordered.late (hs : s.Ordered cfg) (s' : Cache σ) (idx : QueueIdx) :
    (entering cfg ⟨bail, Clear cfg, demand⟩ s s' idx).Late s.writeBuffer.waiting s'.order where
  entry addr size pkt time o h := by
    obtain ⟨rfl, hlt, ⟨htime, -⟩ | ⟨-, hclear, rfl, rfl, rfl⟩⟩ := h
    · rw [htime]
      exact ⟨hlt, fun w hw _ => hs.timely w hw⟩
    · refine ⟨hlt, fun w hw hover => ?_⟩
      obtain ⟨j, hj, rfl⟩ := hs.mem_waiting hw
      exact absurd hover (hclear j hj)
  target addr size time o h := by
    obtain ⟨rfl, rfl, hlt, -⟩ := h
    exact ⟨hlt, hs.timely⟩

theorem Micro.ordered (h : Micro cfg P ⟨bail, Clear cfg, demand⟩ s s') (hs : s.Ordered cfg) : s'.Ordered cfg := by
  obtain ⟨htick, horder, hnext⟩ := h.clock
  have hbehind := (h.queueStep .mshrs).entries (behind_invariant (hs.late s' .mshrs))
    (hs.sound.queues .mshrs) (fun i hi => by
      have hb := hs.behind i hi
      exact ⟨lt_of_lt_of_le hb.order_lt horder, hb.ready,
        fun t ht => ⟨lt_of_lt_of_le (hb.deferred t ht).1 horder, (hb.deferred t ht).2⟩⟩)
  have hwrites := (h.queueStep .writeBuffer).entries (write_invariant (K := fun w _ => w.order < s'.order)
    fun addr size pkt time o hok _ => ((hs.late s' .writeBuffer).entry addr size pkt time o hok).1)
    (hs.sound.queues .writeBuffer)
    (fun j hj => ⟨(hs.writes j hj).1, lt_of_lt_of_le (hs.writes j hj).2 horder⟩)
  have hlist := (h.queueStep .writeBuffer).waiting (hs.sound.queues .writeBuffer)
    (fun j hj => (hs.writes j hj).1) (by
      rintro addr size pkt time o ⟨-, -, ⟨htime, -⟩ | ⟨hidx, -⟩⟩
      · rw [htime]
        exact hs.timely
      · cases hidx)
  -- a new write is younger than everything else
  have hnew : ∀ w ∈ s'.writeBuffer.waiting, w ∈ s.writeBuffer.waiting ∨
      (w.order = s.order ∧ w.readyTime = s.curTick + cfg.geom.hitLatency) := by
    rcases hlist with hsub | ⟨addr, size, pkt, time, o, ⟨ho, -, ⟨htime, -⟩ | ⟨hidx, -⟩⟩, heq⟩
    · exact fun w hw => .inl (hsub.subset hw)
    · intro w hw
      rw [show s'.writeBuffer.waiting = _ from heq, List.mem_append, List.mem_singleton] at hw
      exact hw.imp_right fun hw => by rw [hw]; exact ⟨ho, htime⟩
    · cases hidx
  refine ⟨h.sound hs.sound, ?_, hwrites, ?_, ?_⟩
  · intro i hi
    have hb : (s'.mshrQueue.registers i).Behind s.writeBuffer.waiting s'.order := hbehind i hi
    refine ⟨hb.order_lt, ?_, ?_⟩
    · intro w hw hover hold
      rcases hnew w hw with hw | ⟨hw, -⟩
      · exact hb.ready w hw hover hold
      · have := hb.order_lt
        omega
    · intro t ht
      refine ⟨(hb.deferred t ht).1, ?_⟩
      intro w hw hold
      rcases hnew w hw with hw | ⟨hw, -⟩
      · exact (hb.deferred t ht).2 w hw hold
      · have := (hb.deferred t ht).1
        omega
  · rcases hlist with hsub | ⟨addr, size, pkt, time, o, ⟨ho, -⟩, heq⟩
    · exact hs.sorted.sublist hsub
    · rw [show s'.writeBuffer.waiting = _ from heq]
      refine List.pairwise_append.2 ⟨hs.sorted, List.pairwise_singleton .., ?_⟩
      intro v hv w hw
      obtain ⟨j, hj, rfl⟩ := hs.mem_waiting hv
      rw [List.mem_singleton.1 hw]
      show (s.writeBuffer.registers j).order < o
      rw [ho]
      exact (hs.writes j hj).2
  · intro w hw
    rcases hnew w hw with hw | ⟨-, hw⟩
    · exact le_trans (hs.timely w hw) (Nat.add_le_add_right htick _)
    · rw [hw]
      exact Nat.add_le_add_right htick _

/-- The registers of the write buffer. -/
def writes (s : Cache σ) : List Mshr := s.writeBuffer.allocatedList.map s.writeBuffer.registers

/-- Besides, no miss is behind a write that stays in the buffer when it is sent. -/
structure Heedful (cfg : Config) (s : Cache σ) : Prop extends Ordered cfg s where
  heeds : ∀ i ∈ s.mshrQueue.allocatedList, (s.mshrQueue.registers i).Heeds s.writes

theorem initial_heedful (cfg : Config) (policy : σ) : (initial cfg policy).Heedful cfg where
  toOrdered := initial_ordered cfg policy
  heeds i hi := by simp [initial, MshrQueue.create] at hi

theorem Micro.heedful (h : Micro cfg P ⟨bail, Clear cfg, MshrQueue.Yields⟩ s s') (hs : s.Heedful cfg) :
    s'.Heedful cfg := by
  have hordered := h.ordered hs.toOrdered
  obtain ⟨-, -, hnext⟩ := h.clock
  have hin : ∀ {addr size}, s.writeBuffer.Yields addr size → ∀ w ∈ s.writes, w.Yields addr size := by
    intro addr size hyields w hw
    obtain ⟨j, hj, rfl⟩ := List.mem_map.1 hw
    exact hyields j hj
  have hheeds : ∀ i ∈ s'.mshrQueue.allocatedList, (s'.mshrQueue.registers i).Heeds s.writes := by
    refine (h.queueStep .mshrs).entries (stamped_invariant ?_ ?_ fun _ _ ht => ht) (hs.sound.queues .mshrs) hs.heeds
    · rintro addr size pkt time o ⟨-, -, ⟨-, hyields⟩ | ⟨-, hclear, rfl, rfl, -⟩⟩ w hw _
      · exact hin (hyields rfl) w hw
      · obtain ⟨j, hj, rfl⟩ := List.mem_map.1 hw
        exact fun hover => absurd hover (hclear j hj)
    · rintro addr size time o ⟨-, -, -, hyields⟩ w hw _
      exact hin hyields w hw
  have hfrom : ∀ j ∈ s'.writeBuffer.allocatedList, (s'.writeBuffer.registers j).HoldsWrite ∧
      (s'.writeBuffer.registers j).From s.writes s.order := by
    refine (h.queueStep .writeBuffer).entries (write_invariant (K := fun w ts => w.order = s.order ∨
      ∃ v ∈ s.writes, v.slot = w ∧ v.targets.list = ts) ?_) (hs.sound.queues .writeBuffer) ?_
    · rintro addr size pkt time o ⟨ho, -⟩ _
      exact .inl ho
    · exact fun j hj => ⟨hs.sound.writes j hj, .inr ⟨_, List.mem_map_of_mem hj, rfl, rfl⟩⟩
  -- a new write is younger than every miss
  have hold : ∀ w ∈ s'.writes, ∀ o, w.order < o → o < s'.order →
      ∃ v ∈ s.writes, v.slot = w.slot ∧ v.targets.list = w.targets.list := by
    intro w hw o hlt ho
    obtain ⟨j, hj, rfl⟩ := List.mem_map.1 hw
    rcases (hfrom j hj).2 with heq | hv
    · omega
    · exact hv
  refine ⟨hordered, fun i hi => ⟨fun w hw hlt => ?_, fun t ht w hw hlt => ?_⟩⟩
  · obtain ⟨v, hv, hslot, htargets⟩ := hold w hw _ hlt (hordered.behind i hi).order_lt
    have horder : v.order = w.order := congrArg Slot.order hslot
    exact ((hheeds i hi).entry v hv (by omega)).congr hslot htargets
  · obtain ⟨v, hv, hslot, htargets⟩ := hold w hw _ hlt ((hordered.behind i hi).deferred t ht).1
    have horder : v.order = w.order := congrArg Slot.order hslot
    exact ((hheeds i hi).deferred t ht v hv (by omega)).congr hslot htargets

/-! ## The choice -/

/-- A miss that `getNextMSHR` returns has no older write in its way in the buffer. -/
def InOrder (cfg : Config) (s : Cache σ) : Prop :=
  let r := s.getNextMSHR cfg
  ∀ i, r.2 = some (.mshrs, i) → ∀ j ∈ r.1.writeBuffer.allocatedList,
    ¬((r.1.writeBuffer.registers j).slot.Overlaps (r.1.mshrQueue.registers i).slot ∧
      (r.1.writeBuffer.registers j).order < (r.1.mshrQueue.registers i).order)

/-- No write is in the way of the prefetch that is about to become a miss. -/
def PrefetchClear (cfg : Config) (s : Cache σ) : Prop := ∀ p, s.nextPrefetch cfg = some p → s.Clear cfg p

instance (cfg : Config) (s : Cache σ) : Decidable (s.PrefetchClear cfg) :=
  inferInstanceAs (Decidable (∀ p ∈ s.nextPrefetch cfg, s.Clear cfg p))

/-- A write the search for conflicts does not see: it has been sent and waits for its
response, or the sums of the test wrap round. -/
def Unseen (w m : Mshr) : Prop := w.inService = true ∨ w.overlapsRange m.addr m.size = false

/-- No miss that waits has an older write in its way that is not seen. -/
def AllSeen (s : Cache σ) : Prop :=
  ∀ i ∈ s.mshrQueue.readyList, ∀ j ∈ s.writeBuffer.allocatedList,
    Unseen (s.writeBuffer.registers j) (s.mshrQueue.registers i) →
      ¬((s.writeBuffer.registers j).slot.Overlaps (s.mshrQueue.registers i).slot ∧
        (s.writeBuffer.registers j).order < (s.mshrQueue.registers i).order)

theorem Heedful.allSeen (hs : s.Heedful cfg) : s.AllSeen := by
  rintro i hi j hj hunseen ⟨hover, hlt⟩
  have hmem := ((hs.sound.queues .mshrs).mem_ready.1 hi).1
  obtain ⟨hresponds, hlow, hbelow⟩ := (hs.heeds i hmem).entry _ (List.mem_map_of_mem hj) hlt hover
  rcases hunseen with hin | hrange
  · obtain ⟨-, t, ht, -, hneeds, -, hsent⟩ := hs.sound.writes j hj
    have hneeds := hneeds.symm.trans (hsent hin)
    simp [Mshr.responds, ht, hneeds] at hresponds
  · rw [Mshr.overlapsRange_of_overlaps hover hlow hbelow] at hrange
    cases hrange

/-- The three ways in which a miss is chosen: no write is ready, a conflict with the
oldest write of a full buffer, or no conflict at all. -/
theorem pendingMSHR_miss {s : Cache σ} {i : Nat} (h : s.pendingMSHR = some (.mshrs, i)) :
    (s.mshrQueue.getNextMSHR s.curTick = some i ∧ s.writeBuffer.getNextMSHR s.curTick = none) ∨
    (∃ j, s.writeBuffer.getNextMSHR s.curTick = some j ∧ i ∈ s.mshrQueue.readyList ∧
      (s.mshrQueue.registers i).order < (s.writeBuffer.registers j).order) ∨
    (s.mshrQueue.getNextMSHR s.curTick = some i ∧
      s.writeBuffer.findPending (s.mshrQueue.registers i).addr (s.mshrQueue.registers i).size = none) := by
  unfold pendingMSHR at h
  split at h
  · rename_i hmiss hwrite
    cases h
    exact .inl ⟨hmiss, hwrite⟩
  · cases h
  · cases h
  · rename_i miss write hmiss hwrite
    dsimp only at h
    split at h
    · split at h
      · rename_i conflict hconflict
        split at h
        · rename_i hold
          cases h
          exact .inr (.inl ⟨write, hwrite, List.mem_of_find?_eq_some hconflict, hold⟩)
        · cases h
      · cases h
    · split at h
      · cases h
      · rename_i hnone
        cases h
        exact .inr (.inr ⟨hmiss, hnone⟩)

/-- An entry that waits is chosen in order. -/
theorem Ordered.pending_inOrder (hs : s.Ordered cfg) (hseen : s.AllSeen) {i j : Nat}
    (h : s.pendingMSHR = some (.mshrs, i)) (hj : j ∈ s.writeBuffer.allocatedList) :
    ¬((s.writeBuffer.registers j).slot.Overlaps (s.mshrQueue.registers i).slot ∧
      (s.writeBuffer.registers j).order < (s.mshrQueue.registers i).order) := by
  intro ⟨hover, hold⟩
  have hseen : ¬Unseen (s.writeBuffer.registers j) (s.mshrQueue.registers i) :=
    fun hu => hseen i (pendingMSHR_ready h) j hj hu ⟨hover, hold⟩
  simp only [Unseen, not_or, Bool.not_eq_true, Bool.not_eq_false] at hseen
  have hwf : s.writeBuffer.WellFormed := hs.sound.queues .writeBuffer
  have hwait : j ∈ s.writeBuffer.readyList := hwf.mem_ready.2 ⟨hj, hseen.1⟩
  have hslot : (s.writeBuffer.registers j).slot ∈ s.writeBuffer.waiting := List.mem_map_of_mem hwait
  have hmem : i ∈ s.mshrQueue.allocatedList :=
    ((hs.sound.queues .mshrs).mem_ready.1 (pendingMSHR_ready h)).1
  rcases pendingMSHR_miss h with ⟨hmiss, hwrite⟩ | ⟨k, hwrite, -, hconflict⟩ | ⟨-, hnone⟩
  · -- the write is ready no later than the miss, so the head of the buffer is ready
    have hready : (s.mshrQueue.registers i).readyTime ≤ s.curTick := by
      have := (Option.filter_eq_some_iff.1 hmiss).2
      simpa using this
    have htime : (s.writeBuffer.registers j).readyTime ≤ (s.mshrQueue.registers i).readyTime :=
      (hs.behind i hmem).ready _ hslot hover hold
    cases hl : s.writeBuffer.readyList with
    | nil => rw [hl] at hwait; cases hwait
    | cons k rest =>
      have hhead : (s.writeBuffer.registers k).readyTime ≤ (s.writeBuffer.registers j).readyTime := by
        have hsorted := hwf.sorted
        rw [hl] at hwait hsorted
        rcases List.mem_cons.1 hwait with rfl | hj'
        · exact le_refl _
        · exact (List.pairwise_cons.1 hsorted).1 j hj'
      have hnow : (s.writeBuffer.registers k).readyTime ≤ s.curTick :=
        le_trans hhead (le_trans htime hready)
      simp only [MshrQueue.getNextMSHR, hl, List.head?_cons, Option.filter_eq_none_iff,
        Option.some.injEq, forall_eq', decide_eq_true_eq] at hwrite
      exact hwrite hnow
  · -- the conflicting miss is older than the oldest write
    have hhead := List.head?_eq_some_iff.1 (Option.filter_eq_some_iff.1 hwrite).1
    obtain ⟨rest, hl⟩ := hhead
    have hsorted := hs.sorted
    rw [MshrQueue.waiting, hl, List.map_cons, List.pairwise_cons] at hsorted
    rw [hl] at hwait
    rcases List.mem_cons.1 hwait with rfl | hj'
    · omega
    · have hlt : (s.writeBuffer.registers k).order < (s.writeBuffer.registers j).order :=
        hsorted.1 _ (List.mem_map_of_mem hj')
      omega
  · have hfalse := List.find?_eq_none.1 hnone j hwait
    exact hfalse hseen.2

/-- In a state with the invariant, the choice is in order exactly if no write is in the
way of a prefetch. -/
theorem Ordered.inOrder_iff (P : Policy σ) (hs : s.Ordered cfg) (hseen : s.AllSeen) :
    s.InOrder cfg ↔ s.PrefetchClear cfg := by
  obtain ⟨c, o, hr⟩ : ∃ c o, s.getNextMSHR cfg = (c, o) := ⟨_, _, rfl⟩
  unfold InOrder PrefetchClear
  rw [hr]
  cases next P {} hs.sound.free hr with
  | waiting hm =>
    have hnone : s.nextPrefetch cfg = none := by simp [nextPrefetch, hm]
    rw [hnone]
    dsimp only
    refine iff_of_true ?_ (by simp)
    intro i hi j hj
    exact hs.pending_inOrder hseen (hm.trans hi) hj
  | nothing hp _ => simp [hp]
  | @prefetch p pf' i _ hp _ hmade _ =>
    -- a prefetch that becomes a miss now is younger than all writes
    have hslot : (c.mshrQueue.registers i).slot =
        ⟨cfg.geom.blockAlign p.addr, cfg.geom.blkSize, s.order, s.curTick⟩ := by
      rw [hmade.entry.2.2]
      rfl
    have horder : (c.mshrQueue.registers i).order = s.order := congrArg Slot.order hslot
    rw [hp]
    dsimp only
    constructor
    · intro h p' hp'
      cases hp'
      intro j hj hover
      apply h i rfl j (by rwa [hmade.writes])
      rw [hmade.writes, hslot, horder]
      exact ⟨hover, (hs.writes j hj).2⟩
    · rintro hclear i' hi' j hj ⟨hover, -⟩
      cases hi'
      rw [hmade.writes] at hj hover
      rw [hslot] at hover
      exact hclear p rfl j hj hover

theorem step_ordered (hs : s.Ordered cfg) {a : Action}
    (hclear : ∀ accept upward, a = .sendPacket accept upward → s.PrefetchClear cfg)
    (he : s.Enabled cfg a) : (s.step cfg P a).Ordered cfg := by
  have hmicros : Micros cfg P { prefetch := Clear cfg } s (s.step cfg P a) :=
    step_micros hs.sound he (fun _ _ _ _ _ _ => trivial)
      (fun accept upward p _ ha _ hp => hclear accept upward ha p hp) (fun _ _ _ _ => trivial)
  exact invariant_of_micro (fun _ _ h hs => h.ordered hs) hmicros hs

end

/-- A request of the CPU side is put into the miss queue only where the writes in its way leave
the buffer when they are sent. -/
def Follows (cfg : Config) (s : Cache σ) : Action → Prop
  | .cpuPacket pkt => ∀ range ∈ s.entersAt cfg pkt, s.writeBuffer.Yields range.1 range.2
  | _ => True

instance (cfg : Config) (s : Cache σ) : DecidablePred (s.Follows cfg) := by
  rintro ⟨⟩ <;> dsimp only [Follows] <;> infer_instance

theorem step_heedful {cfg : Config} {P : Policy σ} {s : Cache σ} (hs : s.Heedful cfg) {a : Action}
    (hclear : s.PrefetchClear cfg) (he : s.Enabled cfg a) (hf : s.Follows cfg a) : (s.step cfg P a).Heedful cfg := by
  have hmicros : Micros cfg P ⟨fun _ _ => True, Clear cfg, MshrQueue.Yields⟩ s (s.step cfg P a) := by
    refine step_micros hs.sound he (fun _ _ _ _ _ _ => trivial) (fun _ _ p _ _ _ hp => hclear p hp) ?_
    rintro pkt range rfl hrange
    exact hf range hrange
  exact invariant_of_micro (fun _ _ h hs => h.heedful hs) hmicros hs

/-- The choices of a run in which requests follow only writes that leave the buffer when they are
sent are in order exactly if in none of its states a prefetch is about to become a miss with a
write in its way. -/
theorem in_order_iff (cfg : Config) (P : Policy σ) (policy : σ) (as : List Action)
    (hen : Runs.Guarded (step cfg P) (fun s a => s.Enabled cfg a ∧ s.Follows cfg a) (initial cfg policy) as) :
    Runs.Along (step cfg P) (InOrder cfg) (initial cfg policy) as ↔
      Runs.Along (step cfg P) (PrefetchClear cfg) (initial cfg policy) as := by
  have same : ∀ s : Cache σ, s.Heedful cfg → (s.InOrder cfg ↔ s.PrefetchClear cfg) :=
    fun s hs => hs.toOrdered.inOrder_iff P hs.allSeen
  have keep : ∀ (s : Cache σ) (a : Action), s.Heedful cfg → s.PrefetchClear cfg →
      s.Enabled cfg a ∧ s.Follows cfg a → (s.step cfg P a).Heedful cfg :=
    fun s a hs hc he => step_heedful hs hc he.1 he.2
  exact Runs.along_iff_along same keep as _ (initial_heedful cfg policy) hen

/-- The prefetch of 4352 is queued when the block is written back from above and
evicted again; at tick 1 its writeback is not ready yet. -/
def overtakingRun : List Action :=
  [.cpuPacket (load 1 4096), .cpuPacket (load 1 4160), .cpuPacket (load 1 4224), .cpuPacket (load 1 4288),
    .tick 1, .sendPacket true noSnoops, .sendPacket true noSnoops, .sendPacket true noSnoops,
    .sendPacket true noSnoops, .cpuPacket (giveBack 4352 7), .cpuPacket (giveBack 8192 7),
    .cpuPacket (giveBack 8320 7)]

theorem prefetch_overtakes :
    let s₀ := initial (smallConfig 6) Dcpt.initial
    let s := Runs.exec (step (smallConfig 6) (proxy 0 dcpt)) s₀ overtakingRun
    Runs.Guarded (step (smallConfig 6) (proxy 0 dcpt)) (Enabled (smallConfig 6)) s₀ overtakingRun ∧
      ¬s.InOrder (smallConfig 6) := by
  refine ⟨by decide +kernel, ?_⟩
  intro h
  exact h 4 (by decide +kernel) 0 (by decide +kernel) (by decide +kernel)

/-- Block 4352 is given back and evicted, and its writeback waits when a load asks for the block. -/
def readBehindWrite : List Action :=
  [.cpuPacket (giveBack 4352 7), .cpuPacket (giveBack 8192 7), .cpuPacket (giveBack 8320 7),
    .cpuPacket (load 1 4352), .tick 1, .sendPacket true noSnoops, .sendPacket true noSnoops]

theorem in_order_readBehindWrite :
    let step := step (smallConfig 6) (proxy 0 dcpt)
    let s₀ := initial (smallConfig 6) Dcpt.initial
    let s := Runs.exec step s₀ (readBehindWrite.take 5)
    (s.writeBuffer.waiting ≠ [] ∧ s.mshrQueue.waiting ≠ [] ∧
        ∀ w ∈ s.writeBuffer.waiting, ∀ m ∈ s.mshrQueue.waiting, w.Overlaps m ∧ w.order < m.order) ∧
      Runs.Along step (InOrder (smallConfig 6)) s₀ readBehindWrite :=
  ⟨⟨by decide +kernel, by decide +kernel, by decide +kernel⟩,
    (in_order_iff _ _ _ _ (by decide +kernel)).2 (by decide +kernel)⟩

end Cache

end PrefetchSim
