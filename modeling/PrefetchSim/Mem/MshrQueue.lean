import PrefetchSim.Lib.Pool
import PrefetchSim.Mem.Mshr

/- The queue of miss registers (`m5/src/mem/cache/mshr_queue.{hh,cc}`); the
   cache has one for its misses and one for its writebacks.

   Correspondence (C++ ↔ Lean):
     `registers`, `allocatedList`, ...    ↔ `MshrQueue.registers`, `.allocatedList`, ...
     `findMatch`, `findMatches`           ↔ `MshrQueue.findMatch`, `MshrQueue.findMatches`
     `findPending`                        ↔ `MshrQueue.findPending` (`Mshr.overlapsRange`)
     `addToReadyList`                     ↔ `MshrQueue.addToReadyList`
     `allocate`, `deallocate`             ↔ `MshrQueue.allocate`, `MshrQueue.deallocate`
     `markInService`, `markPending`       ↔ `MshrQueue.markInService`, `MshrQueue.markPending`
     `isFull`, `getNextMSHR`              ↔ `MshrQueue.isFull`, `MshrQueue.getNextMSHR`

   An `MSHR*` is the index of the register. The representation invariant is
   `WellFormed`, and every operation keeps it. `moveToFront` has no caller, and
   `squash` only one that is never called; both are left out. -/
namespace PrefetchSim

structure MshrQueue where
  registers : Nat → Mshr := fun _ => {}
  allocatedList : List Nat := []
  readyList : List Nat := []
  freeList : List Nat
  allocated : Int := 0
  inServiceEntries : Int := 0
  numEntries : Nat
  numReserve : Nat

/-- Whether the register's range and `[addr, addr + size)` overlap, with the
wrap-around of the source's unsigned sums. -/
def Mshr.overlapsRange (m : Mshr) (addr : Addr) (size : Nat) : Bool :=
  if m.addr < addr then decide (addr < m.addr + BitVec.ofNat 64 m.size)
  else decide (m.addr < addr + BitVec.ofNat 64 size)

namespace MshrQueue

/-- `MSHRQueue(num_entries, reserve)`. -/
def create (numEntries reserve : Nat) : MshrQueue where
  freeList := List.range (numEntries + reserve - 1)
  numEntries := numEntries + reserve - 1
  numReserve := reserve

def isFull (q : MshrQueue) : Bool := decide ((q.numEntries : Int) - q.numReserve < q.allocated)

/-- A write through an `MSHR*`. -/
def modify (q : MshrQueue) (i : Nat) (f : Mshr → Mshr) : MshrQueue :=
  { q with registers := Function.update q.registers i (f (q.registers i)) }

def findMatch (q : MshrQueue) (addr : Addr) : Option Nat :=
  q.allocatedList.find? fun i => decide ((q.registers i).addr = addr)

def findMatches (q : MshrQueue) (addr : Addr) : List Nat :=
  q.allocatedList.filter fun i => decide ((q.registers i).addr = addr)

def findPending (q : MshrQueue) (addr : Addr) (size : Nat) : Option Nat :=
  q.readyList.find? fun i => (q.registers i).overlapsRange addr size

/-- The entry goes behind the entries that are ready no later than it is. -/
def addToReadyList (q : MshrQueue) (i : Nat) : MshrQueue :=
  { q with readyList := Pool.enqueue (fun j => (q.registers j).readyTime) i q.readyList }

/-- `allocate` takes the first free register. The source asserts that there is one. -/
def allocate (q : MshrQueue) (addr : Addr) (size : Nat) (pkt : Packet) (time : Tick) (order : Nat) :
    MshrQueue × Option Nat :=
  match q.freeList with
  | [] => (q, none)
  | i :: rest =>
    let q := { q.modify i fun m => m.allocate addr size pkt time order with
      freeList := rest
      allocatedList := q.allocatedList ++ [i]
      allocated := q.allocated + 1 }
    (q.addToReadyList i, some i)

def deallocate (q : MshrQueue) (i : Nat) : MshrQueue :=
  let inService := (q.registers i).inService
  { q.modify i Mshr.deallocate with
    allocatedList := q.allocatedList.erase i
    freeList := i :: q.freeList
    allocated := q.allocated - 1
    inServiceEntries := if inService then q.inServiceEntries - 1 else q.inServiceEntries
    readyList := if inService then q.readyList else q.readyList.erase i }

def markInService (q : MshrQueue) (i : Nat) : MshrQueue :=
  let r := (q.registers i).markInService
  if r.2 then (q.modify i fun _ => r.1).deallocate i
  else { q.modify i fun _ => r.1 with
    readyList := q.readyList.erase i
    inServiceEntries := q.inServiceEntries + 1 }

def markPending (q : MshrQueue) (i : Nat) : MshrQueue :=
  { q.modify i fun m => { m with inService := false } with
    inServiceEntries := q.inServiceEntries - 1 }.addToReadyList i

/-- The head of the ready list, if its time has come. -/
def getNextMSHR (q : MshrQueue) (now : Tick) : Option Nat :=
  q.readyList.head?.filter fun i => decide ((q.registers i).readyTime ≤ now)

/-- What `handleResponse` does to the queue with an entry whose register, all
targets served, is `r`: its deferred targets wait for the bus again, or it is freed. -/
def finish (q : MshrQueue) (i : Nat) (now : Tick) (r : Mshr) : MshrQueue :=
  if (r.promoteDeferredTargets now).2 then
    (q.modify i fun _ => (r.promoteDeferredTargets now).1).markPending i
  else (q.modify i fun _ => r).deallocate i

theorem modify_modify (q : MshrQueue) (i : Nat) (a b : Mshr) :
    ((q.modify i fun _ => a).modify i fun _ => b) = q.modify i fun _ => b := by
  simp [modify]

theorem allocate_isSome {q : MshrQueue} (h : q.freeList ≠ []) (addr : Addr) (size : Nat) (pkt : Packet)
    (time : Tick) (order : Nat) : ∃ i, (q.allocate addr size pkt time order).2 = some i := by
  unfold allocate
  cases hf : q.freeList with
  | nil => exact absurd hf h
  | cons i rest => exact ⟨i, rfl⟩

/-- An entry that has just been allocated. -/
theorem allocate_new {q : MshrQueue} {addr : Addr} {size : Nat} {pkt : Packet} {time : Tick}
    {order i : Nat} (h : (q.allocate addr size pkt time order).2 = some i) :
    let q' := (q.allocate addr size pkt time order).1
    i ∈ q'.allocatedList ∧ i ∈ q'.readyList ∧
      q'.registers i = (q.registers i).allocate addr size pkt time order := by
  unfold allocate at h ⊢
  cases hf : q.freeList with
  | nil =>
    rw [hf] at h
    cases h
  | cons j rest =>
    rw [hf] at h
    cases h
    simp [addToReadyList, modify]

/-! ## Representation invariant -/

structure WellFormed (q : MshrQueue) : Prop where
  partition : (q.allocatedList ++ q.freeList).Perm (List.range q.numEntries)
  ready : q.readyList.Perm (q.allocatedList.filter fun i => !(q.registers i).inService)
  sorted : q.readyList.Pairwise fun i j => (q.registers i).readyTime ≤ (q.registers j).readyTime
  allocated_eq : q.allocated = q.allocatedList.length
  inService_eq : q.inServiceEntries =
    (q.allocatedList.filter fun i => (q.registers i).inService).length
  idle : ∀ i ∈ q.freeList, (q.registers i).Idle
  busy : ∀ i ∈ q.allocatedList, (q.registers i).Busy

theorem create_wellFormed (n reserve : Nat) : (create n reserve).WellFormed where
  partition := List.Perm.refl _
  ready := List.Perm.refl _
  sorted := List.Pairwise.nil
  allocated_eq := rfl
  inService_eq := rfl
  idle _ _ := ⟨rfl, rfl⟩
  busy i hi := by simp [create] at hi

namespace WellFormed

variable {q : MshrQueue} {i : Nat}

theorem nodup (h : q.WellFormed) : (q.allocatedList ++ q.freeList).Nodup :=
  h.partition.nodup_iff.2 List.nodup_range

theorem nodup_allocated (h : q.WellFormed) : q.allocatedList.Nodup :=
  (List.nodup_append.1 h.nodup).1

theorem notMem_free (h : q.WellFormed) (hi : i ∈ q.allocatedList) : i ∉ q.freeList :=
  fun hf => (List.nodup_append.1 h.nodup).2.2 i hi i hf rfl

theorem mem_ready (h : q.WellFormed) :
    i ∈ q.readyList ↔ i ∈ q.allocatedList ∧ (q.registers i).inService = false := by
  rw [h.ready.mem_iff, List.mem_filter]
  simp

theorem nodup_ready (h : q.WellFormed) : q.readyList.Nodup :=
  h.ready.nodup_iff.2 (h.nodup_allocated.filter _)

/-- While the queue is not full there is a free register. -/
theorem free_of_not_full (h : q.WellFormed) (hr : 0 < q.numReserve) (hf : q.isFull = false) :
    q.freeList ≠ [] := by
  intro hnil
  have hlen := h.partition.length_eq
  simp only [hnil, List.append_nil, List.length_range] at hlen
  simp only [isFull, decide_eq_false_iff_not, h.allocated_eq, hlen] at hf
  omega

/-- A register in use is written without touching what the lists are about. -/
theorem modify (h : q.WellFormed) {f : Mshr → Mshr} (hi : i ∈ q.allocatedList)
    (hbusy : (f (q.registers i)).Busy)
    (hin : (f (q.registers i)).inService = (q.registers i).inService)
    (ht : (f (q.registers i)).readyTime = (q.registers i).readyTime) : (q.modify i f).WellFormed := by
  have htime : ∀ j, ((q.modify i f).registers j).readyTime = (q.registers j).readyTime := by
    intro j
    by_cases hj : j = i
    · subst hj; simp [MshrQueue.modify, ht]
    · simp [MshrQueue.modify, hj]
  refine ⟨h.partition, ?_, ?_, h.allocated_eq, ?_, ?_, ?_⟩
  · rw [show (q.modify i f).readyList = q.readyList from rfl]
    have := Pool.filter_update_same q.registers i (f (q.registers i)) q.allocatedList
      (fun m => !m.inService) (by simp [hin])
    exact this ▸ h.ready
  · simp only [htime]
    exact h.sorted
  · have := Pool.filter_update_same q.registers i (f (q.registers i)) q.allocatedList
      (fun m => m.inService) hin
    exact (congrArg (fun l : List Nat => (l.length : Int)) this) ▸ h.inService_eq
  · intro j hj
    have hne : j ≠ i := fun e => h.notMem_free hi (e ▸ hj)
    simpa [MshrQueue.modify, hne] using h.idle j hj
  · intro j hj
    by_cases hji : j = i
    · subst hji; simpa [MshrQueue.modify] using hbusy
    · simpa [MshrQueue.modify, hji] using h.busy j hj

theorem allocate (h : q.WellFormed) (addr : Addr) (size : Nat) (pkt : Packet) (time : Tick)
    (order : Nat) : (q.allocate addr size pkt time order).1.WellFormed := by
  unfold MshrQueue.allocate
  split
  · exact h
  rename_i j rest hfree
  have hj : j ∉ q.allocatedList := fun hc => h.notMem_free hc (hfree ▸ List.mem_cons_self ..)
  have hrest : j ∉ rest := by
    have := (List.nodup_append.1 h.nodup).2.1
    rw [hfree] at this
    exact (List.nodup_cons.1 this).1
  have hbusy := (h.idle j (hfree ▸ List.mem_cons_self ..)).allocate addr size pkt time order
  have hready : j ∉ q.readyList := fun hc => hj (h.mem_ready.1 hc).1
  refine ⟨?_, ?_, ?_, ?_, ?_, ?_, ?_⟩
  · have := h.partition
    rw [hfree] at this
    simpa [addToReadyList, MshrQueue.modify] using this
  · refine (Pool.enqueue_perm _ _ _).trans ?_
    simp only [addToReadyList, List.filter_append, MshrQueue.modify]
    rw [Pool.filter_update_notMem q.registers j _ q.allocatedList (fun m => !m.inService) hj]
    refine (List.Perm.cons j h.ready).trans ?_
    simpa [Mshr.allocate] using @List.perm_append_comm _ [j]
  · apply Pool.enqueue_pairwise
    refine h.sorted.imp_of_mem ?_
    intro a b ha hb hab
    have ha' : a ≠ j := fun e => hready (e ▸ ha)
    have hb' : b ≠ j := fun e => hready (e ▸ hb)
    simpa [addToReadyList, MshrQueue.modify, ha', hb'] using hab
  · simp [addToReadyList, h.allocated_eq]
  · simp only [addToReadyList, List.filter_append, MshrQueue.modify]
    rw [Pool.filter_update_notMem q.registers j _ q.allocatedList (fun m => m.inService) hj]
    simpa [Mshr.allocate] using h.inService_eq
  · intro k hk
    have hk' : k ≠ j := fun e => hrest (e ▸ hk)
    have := h.idle k (hfree ▸ List.mem_cons_of_mem _ hk)
    simpa [addToReadyList, MshrQueue.modify, hk'] using this
  · intro k hk
    simp only [addToReadyList, List.mem_append, List.mem_singleton] at hk
    by_cases hkj : k = j
    · subst hkj
      simpa [addToReadyList, MshrQueue.modify] using hbusy
    · have := h.busy k (hk.resolve_right hkj)
      simpa [addToReadyList, MshrQueue.modify, hkj] using this

/-- An entry is freed once it has no targets left. -/
theorem deallocate (h : q.WellFormed) {r : Mshr} (hi : i ∈ q.allocatedList)
    (htargets : r.targets.list = []) (hdeferred : r.deferredTargets = {})
    (hin : r.inService = (q.registers i).inService) :
    ((q.modify i fun _ => r).deallocate i).WellFormed := by
  have hnd := h.nodup_allocated
  have hni : i ∉ q.allocatedList.erase i := hnd.not_mem_erase
  have hself : ((q.modify i fun _ => r).registers i).inService = (q.registers i).inService := by
    simp [MshrQueue.modify, hin]
  have hregs : ∀ k, k ≠ i → ((q.modify i fun _ => r).deallocate i).registers k = q.registers k := by
    intro k hk
    simp [MshrQueue.deallocate, MshrQueue.modify, hk]
  have hready : ((q.modify i fun _ => r).deallocate i).readyList = q.readyList.erase i := by
    simp only [MshrQueue.deallocate, hself]
    split
    · rename_i hs
      have : i ∉ q.readyList := fun hc => by simp [(h.mem_ready.1 hc).2] at hs
      rw [List.erase_of_not_mem this]
      rfl
    · rfl
  have hfilter : ∀ p : Mshr → Bool,
      ((q.allocatedList.erase i).filter fun j => p (((q.modify i fun _ => r).deallocate i).registers j)) =
        (q.allocatedList.filter fun j => p (q.registers j)).erase i := by
    intro p
    rw [← Pool.filter_erase q.registers i q.allocatedList p hnd]
    apply List.filter_congr
    intro k hk
    rw [hregs k fun e => hni (e ▸ hk)]
  refine ⟨?_, ?_, ?_, ?_, ?_, ?_, ?_⟩
  · refine List.perm_middle.trans (List.Perm.trans ?_ h.partition)
    exact (List.perm_cons_erase hi).symm.append_right q.freeList
  · rw [hready]
    exact (h.ready.erase i).trans (List.Perm.of_eq (hfilter fun m => !m.inService).symm)
  · rw [hready]
    refine (h.sorted.sublist List.erase_sublist).imp_of_mem ?_
    intro a b ha hb hab
    have ha' : a ≠ i := fun e => h.nodup_ready.not_mem_erase (e ▸ ha)
    have hb' : b ≠ i := fun e => h.nodup_ready.not_mem_erase (e ▸ hb)
    rwa [hregs a ha', hregs b hb']
  · have hpos := List.length_pos_of_mem hi
    have hlen := List.length_erase_of_mem hi
    have halloc := h.allocated_eq
    show q.allocated - 1 = ((q.allocatedList.erase i).length : Int)
    omega
  · refine Eq.trans ?_ (congrArg (fun l : List Nat => (l.length : Int))
      (hfilter fun m => m.inService).symm)
    simp only [MshrQueue.deallocate, hself]
    have hcount := h.inService_eq
    split
    · rename_i hs
      have hmem : i ∈ q.allocatedList.filter fun j => (q.registers j).inService := by simp [hi, hs]
      have hlen := List.length_erase_of_mem hmem
      have hpos := List.length_pos_of_mem hmem
      show q.inServiceEntries - 1 = _
      omega
    · rename_i hs
      have hmem : i ∉ q.allocatedList.filter fun j => (q.registers j).inService := by simp [hs]
      rw [List.erase_of_not_mem hmem]
      exact hcount
  · intro k hk
    by_cases hki : k = i
    · subst hki
      refine ⟨?_, ?_⟩
      · simp [MshrQueue.deallocate, MshrQueue.modify, Mshr.deallocate, TargetList.resetFlags, htargets]
      · simpa [MshrQueue.deallocate, MshrQueue.modify, Mshr.deallocate] using hdeferred
    · rw [hregs k hki]
      exact h.idle k ((List.mem_cons.1 hk).resolve_left hki)
  · intro k hk
    have hki : k ≠ i := fun e => hni (e ▸ hk)
    rw [hregs k hki]
    exact h.busy k (List.mem_of_mem_erase hk)

/-- An entry that waits for the bus is sent. -/
theorem markInService (h : q.WellFormed) (hi : i ∈ q.readyList) : (q.markInService i).WellFormed := by
  obtain ⟨hmem, hs⟩ := h.mem_ready.1 hi
  have hbusy := h.busy i hmem
  unfold MshrQueue.markInService Mshr.markInService
  by_cases hf : (q.registers i).isForwardNoResponse = true
  · simp only [hf, if_true]
    obtain ⟨htail, hdef⟩ := hbusy.forwarded hf
    exact h.deallocate hmem htail hdef rfl
  · simp only [hf, if_false, Bool.false_eq_true]
    refine ⟨h.partition, ?_, ?_, h.allocated_eq, ?_, ?_, ?_⟩
    · have := Pool.filter_update_false q.registers i { q.registers i with inService := true }
        q.allocatedList (fun m => !m.inService) h.nodup_allocated rfl
      exact (h.ready.erase i).trans (List.Perm.of_eq this.symm)
    · refine (h.sorted.sublist List.erase_sublist).imp_of_mem ?_
      intro a b ha hb hab
      have ha' : a ≠ i := fun e => h.nodup_ready.not_mem_erase (e ▸ ha)
      have hb' : b ≠ i := fun e => h.nodup_ready.not_mem_erase (e ▸ hb)
      simpa [MshrQueue.modify, ha', hb'] using hab
    · have := (Pool.filter_update_true q.registers i { q.registers i with inService := true }
        q.allocatedList (fun m => m.inService) h.nodup_allocated hmem rfl hs).length_eq
      have hcount := h.inService_eq
      simp only [List.length_cons] at this
      simp only [MshrQueue.modify]
      omega
    · intro k hk
      have hki : k ≠ i := fun e => h.notMem_free hmem (e ▸ hk)
      simpa [MshrQueue.modify, hki] using h.idle k hk
    · intro k hk
      by_cases hki : k = i
      · subst hki
        simp only [MshrQueue.modify, Function.update_self]
        exact ⟨hbusy.count, hbusy.nonempty, by simp, hbusy.reset, hbusy.deferred_cpu⟩
      · simpa [MshrQueue.modify, hki] using h.busy k hk

/-- An entry in service whose register becomes `r` waits for the bus again. -/
theorem markPending (h : q.WellFormed) {r : Mshr} (hi : i ∈ q.allocatedList)
    (hs : (q.registers i).inService = true) (hbusy : { r with inService := false }.Busy) :
    ((q.modify i fun _ => r).markPending i).WellFormed := by
  have hready : i ∉ q.readyList := fun hc => by simp [(h.mem_ready.1 hc).2] at hs
  have hregs : ((q.modify i fun _ => r).markPending i).registers =
      Function.update q.registers i { r with inService := false } := by
    simp [MshrQueue.markPending, MshrQueue.modify, addToReadyList]
  refine ⟨h.partition, ?_, ?_, h.allocated_eq, ?_, ?_, ?_⟩
  · refine (Pool.enqueue_perm _ _ _).trans ?_
    rw [hregs]
    exact (List.Perm.cons i h.ready).trans (Pool.filter_update_true q.registers i
      { r with inService := false } q.allocatedList (fun m => !m.inService) h.nodup_allocated hi rfl
      (by simp [hs])).symm
  · apply Pool.enqueue_pairwise
    refine h.sorted.imp_of_mem ?_
    intro a b ha hb hab
    have ha' : a ≠ i := fun e => hready (e ▸ ha)
    have hb' : b ≠ i := fun e => hready (e ▸ hb)
    simpa [hregs, ha', hb'] using hab
  · rw [hregs]
    have hmem : i ∈ q.allocatedList.filter fun j => (q.registers j).inService := by simp [hi, hs]
    have hfilter := Pool.filter_update_false q.registers i { r with inService := false }
      q.allocatedList (fun m => m.inService) h.nodup_allocated rfl
    have hlen := List.length_erase_of_mem hmem
    have hpos := List.length_pos_of_mem hmem
    have hcount := h.inService_eq
    rw [← hfilter] at hlen
    show q.inServiceEntries - 1 = _
    simp only [MshrQueue.markPending, addToReadyList, MshrQueue.modify]
    omega
  · intro k hk
    have hki : k ≠ i := fun e => h.notMem_free hi (e ▸ hk)
    rw [hregs]
    simpa [hki] using h.idle k hk
  · intro k hk
    rw [hregs]
    by_cases hki : k = i
    · subst hki
      simpa using hbusy
    · simpa [hki] using h.busy k hk

/-- The end of a response: `m` is the register after the fill. -/
theorem finish (h : q.WellFormed) {m : Mshr} (now : Tick) (hi : i ∈ q.allocatedList)
    (hm : m.Busy) (hin : m.inService = (q.registers i).inService) :
    (q.finish i now m.served).WellFormed := by
  obtain ⟨hsome, hnone⟩ := hm.promote now
  unfold MshrQueue.finish
  split
  · rename_i hp
    -- deferred targets exist only while the entry is in service
    have hs : (q.registers i).inService = true := by
      rw [← hin]
      by_contra hc
      have hnil : m.served.deferredTargets.list = [] := hm.pending (by simpa using hc)
      simp [Mshr.promoteDeferredTargets, hnil] at hp
    exact h.markPending hi hs (hsome hp)
  · rename_i hp
    exact h.deallocate hi rfl (hnone (by simpa using hp)).2 hin

end WellFormed
end MshrQueue
end PrefetchSim
