import PrefetchSim.Mem.Misses

/- At most one outstanding miss for each block.

   An operation on the misses makes an entry only for a block that has none, and
   keeps the addresses of the entries it keeps. An uncached read takes an entry
   without looking, so the requests from the CPU side are cacheable here. -/
namespace PrefetchSim

namespace MshrQueue

variable {q q' : MshrQueue} {i : Nat} {addr : Addr}

/-- No two entries are for the same block. -/
def Distinct (q : MshrQueue) : Prop :=
  ∀ i ∈ q.allocatedList, ∀ j ∈ q.allocatedList, (q.registers i).addr = (q.registers j).addr → i = j

theorem findMatch_eq_none : q.findMatch addr = none ↔ ∀ j ∈ q.allocatedList, (q.registers j).addr ≠ addr := by
  simp [findMatch, List.find?_eq_none]

theorem Distinct.findMatch_eq_some (h : q.Distinct) :
    q.findMatch addr = some i ↔ i ∈ q.allocatedList ∧ (q.registers i).addr = addr := by
  constructor
  · intro hi
    exact ⟨List.mem_of_find?_eq_some hi, by simpa using List.find?_some hi⟩
  · rintro ⟨hi, rfl⟩
    cases hm : q.findMatch (q.registers i).addr with
    | none => exact absurd rfl (findMatch_eq_none.1 hm i hi)
    | some j =>
      have hj : (q.registers j).addr = (q.registers i).addr := by simpa using List.find?_some hm
      rw [h j (List.mem_of_find?_eq_some hm) i hi hj]

theorem Distinct.modify (h : q.Distinct) {r : Mshr} (hr : r.addr = (q.registers i).addr) :
    (q.modify i fun _ => r).Distinct := by
  have haddr : ∀ k, ((q.modify i fun _ => r).registers k).addr = (q.registers k).addr := by
    intro k
    by_cases hk : k = i
    · subst hk
      simp [MshrQueue.modify, hr]
    · simp [MshrQueue.modify, hk]
  intro j hj k hk hjk
  rw [haddr, haddr] at hjk
  exact h j hj k hk hjk

theorem Distinct.deallocate (h : q.Distinct) {r : Mshr} (hnd : q.allocatedList.Nodup) :
    ((q.modify i fun _ => r).deallocate i).Distinct := by
  intro j hj k hk hjk
  have hne : ∀ k ∈ q.allocatedList.erase i, k ≠ i := fun k hk e => hnd.not_mem_erase (e ▸ hk)
  simp only [MshrQueue.deallocate, MshrQueue.modify, Function.update_of_ne (hne j hj),
    Function.update_of_ne (hne k hk)] at hjk
  exact h j (List.mem_of_mem_erase hj) k (List.mem_of_mem_erase hk) hjk

/-- The entries after an allocation: the new one, and the others as they were. -/
theorem WellFormed.allocate_cases (hq : q.WellFormed) {size : Nat} {pkt : Packet} {time : Tick}
    {order k : Nat} (h : (q.allocate addr size pkt time order).2 = some i)
    (hk : k ∈ (q.allocate addr size pkt time order).1.allocatedList) :
    (k = i ∧ (q.registers i).Idle ∧ (q.allocate addr size pkt time order).1.registers k =
        (q.registers i).allocate addr size pkt time order) ∨
      (k ∈ q.allocatedList ∧ (q.allocate addr size pkt time order).1.registers k = q.registers k) := by
  unfold MshrQueue.allocate at h hk ⊢
  cases hf : q.freeList with
  | nil =>
    rw [hf] at h
    cases h
  | cons j rest =>
    rw [hf] at h hk
    cases h
    have hfree : i ∈ q.freeList := hf ▸ List.mem_cons_self ..
    simp only [addToReadyList, List.mem_append, List.mem_singleton] at hk
    rcases hk with hk | rfl
    · right
      have hne : k ≠ i := fun e => hq.notMem_free (e ▸ hk) hfree
      exact ⟨hk, by simp [addToReadyList, MshrQueue.modify, hne]⟩
    · left
      exact ⟨rfl, hq.idle k hfree, by simp [addToReadyList, MshrQueue.modify]⟩

/-- An allocation leaves the entries there are alone. -/
theorem WellFormed.allocate_old (hq : q.WellFormed) (hi : i ∈ q.allocatedList) (addr : Addr) (size : Nat)
    (pkt : Packet) (time : Tick) (order : Nat) :
    i ∈ (q.allocate addr size pkt time order).1.allocatedList ∧
      (q.allocate addr size pkt time order).1.registers i = q.registers i := by
  unfold MshrQueue.allocate
  cases hf : q.freeList with
  | nil => exact ⟨hi, rfl⟩
  | cons j rest =>
    have hne : i ≠ j := fun e => hq.notMem_free (e ▸ hi) (hf ▸ List.mem_cons_self ..)
    simp [addToReadyList, MshrQueue.modify, hne, hi]

theorem WellFormed.distinct_allocate (hq : q.WellFormed) (h : q.Distinct) (hnone : q.findMatch addr = none)
    (size : Nat) (pkt : Packet) (time : Tick) (order : Nat) :
    (q.allocate addr size pkt time order).1.Distinct := by
  have hother := findMatch_eq_none.1 hnone
  cases hnew : (q.allocate addr size pkt time order).2 with
  | none =>
    have hsame : (q.allocate addr size pkt time order).1 = q := by
      unfold MshrQueue.allocate at hnew ⊢
      cases hf : q.freeList with
      | nil => rfl
      | cons j rest =>
        rw [hf] at hnew
        cases hnew
    rw [hsame]
    exact h
  | some j =>
    intro k hk l hl hkl
    rcases hq.allocate_cases hnew hk with ⟨rfl, -, hk'⟩ | ⟨hk, hk'⟩ <;>
      rcases hq.allocate_cases hnew hl with ⟨rfl, -, hl'⟩ | ⟨hl, hl'⟩
    · rfl
    · rw [hk', hl'] at hkl
      exact absurd hkl.symm (hother l hl)
    · rw [hk', hl'] at hkl
      exact absurd hkl (hother k hk)
    · rw [hk', hl'] at hkl
      exact h k hk l hl hkl

end MshrQueue

/-! ## Steps of the miss queue -/

theorem filled_addr {m r : Mshr} (h : r = m ∨ ∃ pkt, r = (m.handleFill pkt).1) : r.addr = m.addr := by
  rcases h with rfl | ⟨pkt, rfl⟩
  · rfl
  · unfold Mshr.handleFill
    dsimp only
    split <;> rfl

theorem promoteDeferredTargets_addr (m : Mshr) (now : Tick) :
    (m.promoteDeferredTargets now).1.addr = m.addr := by
  unfold Mshr.promoteDeferredTargets
  split <;> rfl

/-- A step that makes an entry only for a block without one keeps the entries distinct. -/
theorem QueueStep.distinct {c : Prop} (hc : c) {q q' : MshrQueue} (h : QueueStep (.fresh c q) .mshrs q q')
    (hq : q.WellFormed) (hd : q.Distinct) : q'.Distinct := by
  cases h with
  | same => exact hd
  | allocate addr size pkt time order _ hnone => exact hq.distinct_allocate hd (hnone hc) size pkt time order
  | target i pkt time order _ _ _ _ => exact hd.modify (allocateTarget_fields ..).2.2.2.1
  | snoop i now pkt order _ _ _ => exact hd.modify (handleSnoop_fields ..).2.2.2.1
  | flags i forward pending _ => exact hd.modify rfl
  | sent i _ =>
    unfold MshrQueue.markInService Mshr.markInService
    by_cases hf : (q.registers i).isForwardNoResponse = true
    · simp only [hf, if_true]
      exact hd.deallocate hq.nodup_allocated
    · simp only [hf, Bool.false_eq_true, if_false]
      exact hd.modify (i := i) (r := { q.registers i with inService := true }) rfl
  | bail i target _ _ _ =>
    unfold MshrQueue.bailOut
    dsimp only
    split
    · exact hd.modify rfl
    · exact hd.deallocate hq.nodup_allocated
  | finish i now r _ hfill =>
    have haddr : (r.served.promoteDeferredTargets now).1.addr = (q.registers i).addr := by
      rw [promoteDeferredTargets_addr]
      show r.addr = _
      exact filled_addr hfill
    unfold MshrQueue.finish
    split
    · have hwait := hd.modify (i := i)
        (r := { (r.served.promoteDeferredTargets now).1 with inService := false }) haddr
      simpa [MshrQueue.Distinct, MshrQueue.markPending, MshrQueue.addToReadyList, MshrQueue.modify] using hwait
    · exact hd.deallocate hq.nodup_allocated

theorem MissSteps.distinct {cfg : Config} {c : Prop} (hc : c) {v v' : Misses} (h : MissSteps cfg c v v')
    (hq : v.queue.WellFormed) (hd : v.queue.Distinct) : v'.queue.Distinct := by
  have hboth : v'.queue.WellFormed ∧ v'.queue.Distinct := by
    induction h with
    | refl => exact ⟨hq, hd⟩
    | tail _ hstep ih => exact ⟨hstep.queueStep.wellFormed ih.1, hstep.queueStep.distinct hc ih.1 ih.2⟩
  exact hboth.2

namespace Cache

variable {σ : Type} {cfg : Config} {P : Policy σ} {s : Cache σ}

theorem step_distinct (hs : s.Sound cfg) (hp : s.PortExact) {a : Action} (he : s.Enabled cfg a)
    (hc : a.Cacheable) (hd : s.mshrQueue.Distinct) : (s.step cfg P a).mshrQueue.Distinct := by
  by_cases ha : a.IsSnoop
  · cases a with
    | snoop pkt answer =>
      rcases @snoopTiming_misses σ cfg s pkt answer with heq | ⟨-, i, -, heq⟩
      · have hq : (s.step cfg P (.snoop pkt answer)).mshrQueue = s.mshrQueue := congrArg Misses.queue heq
        rw [hq]
        exact hd
      · have hq : (s.step cfg P (.snoop pkt answer)).mshrQueue = _ := congrArg Misses.queue heq
        rw [hq]
        exact hd.modify (handleSnoop_fields ..).2.2.2.1
    | _ => exact ha.elim
  · exact (step_misses hs hp he ha).distinct hc (hs.queues .mshrs) hd

/-- The miss for a block is the only one, and a lookup finds it. -/
structure OneMiss (s : Cache σ) : Prop where
  distinct : s.mshrQueue.Distinct
  findMatch : ∀ b i, s.mshrQueue.findMatch b = some i ↔
    i ∈ s.mshrQueue.allocatedList ∧ (s.mshrQueue.registers i).addr = b

/-- The assertion of `MSHR::allocateTarget`, that what joins an outstanding miss is not a
prefetch, at the only place where a packet joins one; and a prefetch becomes a miss only
if there is none to join. -/
def MergeAssert (cfg : Config) (s : Cache σ) : Action → Prop
  | .cpuPacket pkt =>
    let r := access cfg.geom s.tags s.mshrQueue s.curTick pkt
    r.satisfied = false → (s.mshrQueue.findMatch (cfg.geom.blockAlign r.pkt.addr)).isSome →
      r.pkt.cmd ≠ .hardPFReq
  | .sendPacket _ _ => ∀ p, s.nextPrefetch cfg = some p →
      s.mshrQueue.findMatch (cfg.geom.blockAlign p.addr) = none
  | _ => True

theorem mergeAssert (s : Cache σ) {a : Action} (he : s.Enabled cfg a) : s.MergeAssert cfg a := by
  cases a with
  | cpuPacket pkt =>
    intro _ _
    rw [(access_pkt cfg.geom s.tags s.mshrQueue s.curTick pkt).1]
    exact he.1
  | sendPacket accept upward =>
    intro p hp
    unfold nextPrefetch at hp
    split at hp
    · cases hp
    · have hwanted := List.find?_some hp
      simp only [wanted, Bool.and_eq_true, Option.isNone_iff_eq_none] at hwanted
      exact hwanted.2
  | _ => trivial

theorem one_miss_per_block (cfg : Config) (P : Policy σ) (policy : σ) (as : List Action)
    (hen : Runs.Guarded (step cfg P) (fun s a => s.Enabled cfg a ∧ a.Cacheable) (initial cfg policy) as) :
    Runs.Along (step cfg P) OneMiss (initial cfg policy) as ∧
      Runs.Guarded (step cfg P) (MergeAssert cfg) (initial cfg policy) as := by
  have hinit : (initial cfg policy).Sound cfg ∧ (initial cfg policy).PortExact ∧
      (initial cfg policy).mshrQueue.Distinct :=
    ⟨initial_sound cfg policy, rfl, fun i hi => by cases hi⟩
  have hkeep : ∀ (s : Cache σ) a, s.Sound cfg ∧ s.PortExact ∧ s.mshrQueue.Distinct →
      s.Enabled cfg a ∧ a.Cacheable →
      (s.step cfg P a).Sound cfg ∧ (s.step cfg P a).PortExact ∧ (s.step cfg P a).mshrQueue.Distinct :=
    fun s a hs ha => ⟨step_sound hs.1 ha.1, step_portExact hs.1 ha.1 hs.2.1,
      step_distinct hs.1 hs.2.1 ha.1 ha.2 hs.2.2⟩
  refine ⟨?_, Runs.guarded_mono (fun s a h => s.mergeAssert h.1) as _ hen⟩
  exact Runs.along_mono (fun s hs => ⟨hs.2.2, fun _ _ => hs.2.2.findMatch_eq_some⟩) as _
    (Runs.along_of_guarded hkeep as _ hinit hen)

/-- Two loads of one block: the second joins the miss of the first. -/
theorem one_miss_two_loads :
    let cfg := smallConfig 6
    let as := [Action.cpuPacket (load 1 4096), .tick 1, .sendPacket true noSnoops, .cpuPacket (load 1 4104)]
    Runs.Along (step cfg (proxy 0 dcpt)) OneMiss (initial cfg Dcpt.initial) as ∧
      Runs.Guarded (step cfg (proxy 0 dcpt)) (MergeAssert cfg) (initial cfg Dcpt.initial) as :=
  one_miss_per_block (smallConfig 6) (proxy 0 dcpt) Dcpt.initial _ (by decide +kernel)

end Cache

end PrefetchSim
