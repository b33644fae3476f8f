import PrefetchSim.Dcpt.Filter
import PrefetchSim.Mem.Sound

/- The targets of the prefetcher among those of the outstanding misses.

   A miss of the prefetcher has its packet as the target of an entry of `mshrQueue`, marked
   `fromPrefetcher`. Here is what each operation on an entry, and on the queue, does to the
   addresses the prefetcher waits for (`Mshr.pfTargets`, `MshrQueue.pfTargets`): they come with
   the allocation for a hardware prefetch, and go when the entry is served or bailed out of. -/
namespace PrefetchSim

/-! ## Targets of the prefetcher -/

/-- The addresses of the prefetches among some targets. -/
def pfAddrs (ts : List Target) : List Addr :=
  (ts.filter fun t => t.source == .fromPrefetcher).map fun t : Target => t.pkt.addr

/-- The addresses the prefetcher waits for in an entry. -/
def Mshr.pfTargets (m : Mshr) : List Addr := pfAddrs m.targets.list

def MshrQueue.pfTargets (q : MshrQueue) : List Addr :=
  q.allocatedList.flatMap fun i => (q.registers i).pfTargets

/-- The targets that are hardware prefetches are those of the prefetcher. -/
def Mshr.Sourced (m : Mshr) : Prop :=
  ∀ t ∈ m.targets.list ++ m.deferredTargets.list, t.source = .fromPrefetcher ↔ t.pkt.cmd = .hardPFReq

theorem replaceUpgrade_pkt (t : Target) :
    (TargetList.replaceUpgrade t).pkt.addr = t.pkt.addr ∧
      ((TargetList.replaceUpgrade t).pkt.cmd = .hardPFReq ↔ t.pkt.cmd = .hardPFReq) := by
  unfold TargetList.replaceUpgrade
  split
  · rename_i h
    simp [h]
  · split
    · rename_i h
      simp [h]
    · simp

namespace Mshr

theorem Replaced.isPrefetch_iff {t t' : Target} (h : Replaced t t') :
    t.pkt.cmd = .hardPFReq ↔ t'.pkt.cmd = .hardPFReq := by
  rcases h with rfl | rfl
  · exact Iff.rfl
  · exact (replaceUpgrade_pkt t').2

theorem Sourced.of_targets {m r : Mshr} (h : m.Sourced)
    (hr : ∀ t ∈ r.targets.list ++ r.deferredTargets.list,
      (∃ t' ∈ m.targets.list ++ m.deferredTargets.list, Replaced t t') ∨
      (t.source ≠ .fromPrefetcher ∧ t.pkt.cmd ≠ .hardPFReq)) : r.Sourced := by
  intro t ht
  rcases hr t ht with ⟨t', ht', hsame⟩ | ⟨hs, hc⟩
  · rw [hsame.source, hsame.isPrefetch_iff]
    exact h t' ht'
  · exact iff_of_false hs hc

end Mshr

theorem sourced_invariant (new : Entering) : EntryInvariant new .mshrs Mshr.Sourced where
  allocate m addr size pkt time order hm _ _ := by
    intro t ht
    simp only [Mshr.allocate, TargetList.add, hm.targets, hm.deferred, List.nil_append, List.append_nil,
      List.mem_singleton] at ht
    subst ht
    by_cases hc : pkt.cmd = .hardPFReq <;> simp [hc]
  target _ m pkt time order hc _ h := by
    apply h.of_targets
    intro t ht
    rcases Mshr.mem_allocateTarget ht with hmem | ⟨hs, hp⟩
    · exact .inl ⟨t, hmem, .inl rfl⟩
    · exact .inr ⟨by simp [hs], by rwa [hp]⟩
  snoop _ m now pkt order hc h := by
    apply h.of_targets
    intro t ht
    refine (Mshr.mem_handleSnoop ht).imp_right ?_
    rintro ⟨hs, hcmd⟩
    exact ⟨by simp [hs], by rwa [hcmd]⟩
  flags m _ _ h := h
  sent m _ _ h := h
  bail m target _ _ _ h := by
    intro t ht
    apply h t
    simp only [Mshr.popTarget, List.mem_append] at ht ⊢
    exact ht.imp_left List.mem_of_mem_tail
  finish m r now hfill h hprom t ht := h t (List.mem_append_right _ (mem_promoted hfill hprom ht))

/-! ## The prefetcher's targets under the operations on an entry -/

namespace Mshr

theorem Idle.pfTargets_allocate {m : Mshr} (hm : m.Idle) (addr : Addr) (size : Nat) (pkt : Packet)
    (time : Tick) (order : Nat) : (m.allocate addr size pkt time order).pfTargets =
      if pkt.cmd = .hardPFReq then [pkt.addr] else [] := by
  by_cases hc : pkt.cmd = .hardPFReq <;>
    simp [pfTargets, pfAddrs, Mshr.allocate, TargetList.add, hm.targets, hc]

theorem pfTargets_allocateTarget (m : Mshr) (pkt : Packet) (time : Tick) (order : Nat) :
    (m.allocateTarget pkt time order).pfTargets = m.pfTargets := by
  unfold allocateTarget
  split <;> simp [pfTargets, pfAddrs, TargetList.add]

theorem pfTargets_handleSnoop (m : Mshr) (now : Tick) (pkt : Packet) (order : Nat) :
    (m.handleSnoop now pkt order).1.pfTargets = m.pfTargets := by
  obtain ⟨b, extra, ht, he, -⟩ := m.handleSnoop_lists now pkt order
  have hextra : extra.filter (fun t : Target => t.source == .fromPrefetcher) = [] := by
    rw [List.filter_eq_nil_iff]
    intro t hmem
    simp [(he t hmem).1]
  unfold pfTargets pfAddrs
  rw [ht, List.filter_append, hextra, List.append_nil]
  rcases replaceIf_list b m.targets with hl | hl
  · rw [hl]
  · rw [hl, List.filter_map, List.map_map]
    have hfilter : (fun t : Target => t.source == Source.fromPrefetcher) ∘ TargetList.replaceUpgrade =
        fun t : Target => t.source == Source.fromPrefetcher := by
      funext t
      simp [TargetList.replaceUpgrade_source]
    rw [hfilter]
    exact List.map_congr_left fun t _ => (replaceUpgrade_pkt t).1

/-- Deferred targets are not the prefetcher's, so a fill changes nothing. -/
theorem Busy.pfTargets_filled {m r : Mshr} (h : m.Busy) (hr : r = m ∨ ∃ pkt, r = (m.handleFill pkt).1) :
    r.pfTargets = m.pfTargets := by
  rcases hr with rfl | ⟨pkt, rfl⟩
  · rfl
  · unfold Mshr.handleFill
    dsimp only
    split
    · have hdef : m.deferredTargets.list.filter (fun t : Target => t.source == .fromPrefetcher) = [] := by
        rw [List.filter_eq_nil_iff]
        intro t hmem
        simp [h.deferred_cpu t hmem]
      simp [pfTargets, pfAddrs, List.filter_append, hdef]
    · rfl

theorem Busy.pfTargets_forwarded {m : Mshr} (h : m.Busy) (hf : m.isForwardNoResponse = true) :
    m.pfTargets = [] := by
  have htail := (h.forwarded hf).1
  simp only [isForwardNoResponse, getTarget, Bool.and_eq_true] at hf
  cases hl : m.targets.list with
  | nil => simp [pfTargets, pfAddrs, hl]
  | cons t ts =>
    rw [hl] at htail hf
    simp only [List.tail_cons] at htail
    subst htail
    have hs : t.source = .fromCPU := by
      have := hf.2
      simp only [List.head?_cons, Option.any_some, Bool.and_eq_true, beq_iff_eq] at this
      exact this.1
    simp [pfTargets, pfAddrs, hl, hs]

theorem Sourced.pfTargets_pop {m : Mshr} (h : m.Sourced) {target : Target}
    (hfirst : m.getTarget = some target) (hc : target.pkt.cmd = .hardPFReq) :
    m.pfTargets = target.pkt.addr :: m.popTarget.pfTargets := by
  obtain ⟨rest, hl⟩ := List.head?_eq_some_iff.1 hfirst
  have hs : target.source = .fromPrefetcher := (h target (by simp [hl])).2 hc
  simp [pfTargets, pfAddrs, popTarget, hl, hs]

/-- Once its targets have been served, an entry holds none of the prefetcher's. -/
theorem Busy.pfTargets_promoted {m : Mshr} (h : m.Busy) (now : Tick)
    (hp : (m.served.promoteDeferredTargets now).2 = true) :
    (m.served.promoteDeferredTargets now).1.pfTargets = [] := by
  have hlist : (m.served.promoteDeferredTargets now).1.targets.list = m.deferredTargets.list :=
    (promoteDeferredTargets_lists hp).1
  rw [pfTargets, pfAddrs, hlist, List.map_eq_nil_iff, List.filter_eq_nil_iff]
  intro t ht
  simp [h.deferred_cpu t ht]

end Mshr

/-! ## The prefetcher's targets of a queue -/

namespace MshrQueue

variable {q : MshrQueue} {i : Nat}

theorem pfTargets_split (hi : i ∈ q.allocatedList) : q.pfTargets.Perm ((q.registers i).pfTargets ++
    (q.allocatedList.erase i).flatMap fun j => (q.registers j).pfTargets) :=
  Pool.flatMap_split q.registers i q.allocatedList Mshr.pfTargets hi

theorem pfTargets_modify {r : Mshr} (h : r.pfTargets = (q.registers i).pfTargets) :
    (q.modify i fun _ => r).pfTargets = q.pfTargets := by
  apply List.flatMap_congr
  intro j _
  by_cases hj : j = i
  · subst hj; simp [modify, h]
  · simp [modify, hj]

theorem pfTargets_deallocate (hq : q.WellFormed) (f : Mshr → Mshr) :
    ((q.modify i f).deallocate i).pfTargets =
      (q.allocatedList.erase i).flatMap fun j => (q.registers j).pfTargets := by
  apply List.flatMap_congr
  intro j hj
  have : j ≠ i := fun e => hq.nodup_allocated.not_mem_erase (e ▸ hj)
  simp [deallocate, modify, this]

theorem pfTargets_allocate (hq : q.WellFormed) (addr : Addr) (size : Nat) (pkt : Packet) (time : Tick)
    (order : Nat) : (q.allocate addr size pkt time order).1.pfTargets = q.pfTargets ++
      if q.freeList ≠ [] ∧ pkt.cmd = .hardPFReq then [pkt.addr] else [] := by
  unfold allocate
  cases hf : q.freeList with
  | nil => simp
  | cons j rest =>
    have hj : j ∈ q.freeList := hf ▸ List.mem_cons_self ..
    have hnot : j ∉ q.allocatedList := fun h => hq.notMem_free h hj
    have hold : (q.allocatedList.flatMap fun k =>
        (Function.update q.registers j ((q.registers j).allocate addr size pkt time order) k).pfTargets) =
        q.pfTargets := by
      apply List.flatMap_congr
      intro k hk
      have : k ≠ j := fun e => hnot (e ▸ hk)
      simp [this]
    have hnew := (hq.idle j hj).pfTargets_allocate addr size pkt time order
    simp only [MshrQueue.pfTargets, addToReadyList, modify, List.flatMap_append, List.flatMap_singleton,
      Function.update_self, hnew]
    simp only [MshrQueue.pfTargets] at hold
    rw [hold]
    simp

theorem pfTargets_markInService (hq : q.WellFormed) (hi : i ∈ q.readyList) :
    q.pfTargets.Perm (q.markInService i).pfTargets := by
  have hmem := (hq.mem_ready.1 hi).1
  unfold markInService Mshr.markInService
  by_cases hf : (q.registers i).isForwardNoResponse = true
  · simp only [hf, if_true, pfTargets_deallocate hq]
    have := pfTargets_split hmem
    rwa [(hq.busy i hmem).pfTargets_forwarded hf, List.nil_append] at this
  · simp only [hf, Bool.false_eq_true, if_false]
    exact List.Perm.of_eq (@pfTargets_modify q i { q.registers i with inService := true } rfl).symm

/-- The bail-out takes the first target away. -/
theorem pfTargets_bailOut (hq : q.WellFormed) (hs : ∀ i ∈ q.allocatedList, (q.registers i).Sourced)
    (hi : i ∈ q.readyList) {target : Target} (hfirst : (q.registers i).getTarget = some target)
    (hc : target.pkt.cmd = .hardPFReq) :
    q.pfTargets.Perm (target.pkt.addr :: (q.bailOut i).pfTargets) := by
  have hmem := (hq.mem_ready.1 hi).1
  have hpop := (hs i hmem).pfTargets_pop hfirst hc
  have hself : (q.modify i Mshr.popTarget).registers i = (q.registers i).popTarget := by simp [modify]
  have hsplit := pfTargets_split hmem
  rw [hpop, List.cons_append] at hsplit
  refine hsplit.trans (List.Perm.cons _ ?_)
  unfold bailOut
  dsimp only
  rw [hself]
  split
  · have hkept := @pfTargets_split (q.modify i Mshr.popTarget) i hmem
    rw [hself] at hkept
    have hrest : ((q.modify i Mshr.popTarget).allocatedList.erase i).flatMap
        (fun j => ((q.modify i Mshr.popTarget).registers j).pfTargets) =
        (q.allocatedList.erase i).flatMap fun j => (q.registers j).pfTargets :=
      Pool.flatMap_erase_update q.registers i _ q.allocatedList Mshr.pfTargets hq.nodup_allocated
    rw [hrest] at hkept
    exact hkept.symm
  · rename_i hnone
    have hnil : (q.registers i).popTarget.pfTargets = [] := by
      have : (q.registers i).popTarget.targets.list = [] := by simpa [Mshr.hasTargets] using hnone
      simp [Mshr.pfTargets, pfAddrs, this]
    rw [pfTargets_deallocate hq, hnil, List.nil_append]

/-- A response takes all targets of the entry away. -/
theorem pfTargets_finish (hq : q.WellFormed) (hi : i ∈ q.allocatedList) (now : Tick) {r : Mshr}
    (hr : r = q.registers i ∨ ∃ pkt, r = ((q.registers i).handleFill pkt).1) :
    q.pfTargets.Perm (r.pfTargets ++ (q.finish i now r.served).pfTargets) := by
  have hb := (hq.busy i hi).filled hr
  rw [(hq.busy i hi).pfTargets_filled hr]
  refine (pfTargets_split hi).trans (List.Perm.append_left _ ?_)
  unfold finish
  split
  · rename_i hp
    have hnone := hb.1.pfTargets_promoted now hp
    have hkept := @pfTargets_split
      ((q.modify i fun _ => (r.served.promoteDeferredTargets now).1).markPending i) i hi
    have hself : (((q.modify i fun _ => (r.served.promoteDeferredTargets now).1).markPending i).registers
        i).pfTargets = [] := by
      rw [← hnone]
      simp [markPending, addToReadyList, modify, Mshr.pfTargets]
    rw [hself, List.nil_append] at hkept
    refine (List.Perm.of_eq ?_).trans hkept.symm
    apply List.flatMap_congr
    intro j hj
    have : j ≠ i := fun e => hq.nodup_allocated.not_mem_erase (e ▸ hj)
    simp [markPending, addToReadyList, modify, this]
  · rw [pfTargets_deallocate hq]

end MshrQueue

end PrefetchSim
