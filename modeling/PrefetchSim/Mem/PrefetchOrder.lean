import PrefetchSim.Lib.Window
import PrefetchSim.Mem.PrefetchQueue

/- The order and the bound of the prefetch queue.

   The cache asks its prefetcher for the time of the next prefetch and gets the time of the
   packet at the head (`nextPrefetchReadyTime`, and the result of `notify`). For this to be the
   earliest one the queue has to be sorted. It is, as the delay of a policy is always the same:
   what one call appends is not earlier than what is there, and nothing is ever put elsewhere.

   Proved here, for every policy with one delay, every size from one on, with and without
   `serialSquash`: over every run in which the times of the calls of `notify` do not decrease,
   the queue is within its size and sorted, the head is the earliest, and each call takes
   packets out only at the places `QueueMoves` names (`prefetch_queue_ordered`). -/
namespace PrefetchSim

/-- `MaxTick`. -/
def maxTick : Tick := 0x7fffffffffffffff

/-- All candidates come with the same delay. -/
def Policy.FixedLatency {σ : Type} (P : Policy σ) (latency : Tick) : Prop :=
  ∀ v pkt s, ∀ c ∈ (P.calculatePrefetch v pkt s).2, c.2 = latency

/-- Within the size, and no packet before an earlier one. -/
structure TimeOrdered (cfg : PfConfig) (pf : List Packet) : Prop where
  bounded : pf.length ≤ cfg.size
  sorted : pf.Pairwise fun p q => p.time ≤ q.time

/-- `t` is the least time of a queued packet. -/
def Earliest (pf : List Packet) (t : Tick) : Prop := (∃ p ∈ pf, p.time = t) ∧ ∀ p ∈ pf, t ≤ p.time

theorem earliest_head {p : Packet} {pf : List Packet}
    (h : (p :: pf).Pairwise fun p q => p.time ≤ q.time) : Earliest (p :: pf) p.time := by
  refine ⟨⟨p, List.mem_cons_self, rfl⟩, ?_⟩
  intro q hq
  rcases List.mem_cons.1 hq with rfl | hq
  · exact Nat.le_refl _
  · exact List.rel_of_pairwise_cons h hq

/-- What `serialSquash` leaves of the queue. -/
def squashed (cfg : PfConfig) (time : Tick) (pf : List Packet) : List Packet :=
  if cfg.serialSquash then pf.rdropWhile (fun p => decide (time ≤ p.time)) else pf

/-- How a call changes the queue. `notify` takes out the packet that is demanded, squashes from
the end, appends packets, and drops from the head what is beyond the size; `getPacket` takes
the head. -/
def QueueMoves (g : Geometry) (cfg : PfConfig) (latency : Tick) (pf pf' : List Packet) : PfAction → Prop
  | .notify _ _ _ pkt time =>
    if heeded cfg pkt then
      ∃ fresh : List Packet, (∀ p ∈ fresh, p.time = time + latency) ∧
        pf' = (squashed cfg time (pf.eraseP (inPrefetch g (g.blockAlign pkt.addr))) ++ fresh).rtake cfg.size
    else pf' = pf
  | .getPacket => pf' = pf.tail
  | .complete _ => pf' = pf

/-- The times of the calls of `notify`. -/
def notifyTimes (as : List PfAction) : List Tick :=
  as.filterMap fun
    | .notify _ _ _ _ time => some time
    | _ => none

theorem notifyTimes_cons (a : PfAction) (as : List PfAction) :
    notifyTimes (a :: as) = notifyTimes [a] ++ notifyTimes as := by
  rw [← List.singleton_append, notifyTimes, List.filterMap_append]
  rfl

namespace Prefetcher

variable {σ : Type} {P : Policy σ} {g : Geometry} {cfg : PfConfig} {latency : Tick}

def nextPrefetchReadyTime (s : Prefetcher σ) : Tick := (s.pf.head?.map (·.time)).getD maxTick

/-- What a call returns, if it is `notify`. -/
def returned (P : Policy σ) (g : Geometry) (cfg : PfConfig) (s : Prefetcher σ) : PfAction → Option Tick
  | .notify inCache inMissQueue now pkt time =>
    some (s.notify P g cfg inCache inMissQueue now pkt time).2
  | _ => none

/-! ## One call -/

/-- A candidate not yet queued is pushed into a window of the queue's size. -/
theorem enqueue_pf (hsize : 1 ≤ cfg.size) {s : Prefetcher σ} (h : s.pf.length ≤ cfg.size) (pkt : Packet)
    (time now : Tick) (c : Addr × Tick) :
    (enqueue g cfg pkt time now s c).pf =
      if s.pf.any (inPrefetch g c.1) then s.pf
      else Window.push cfg.size s.pf (prefetchPacket g pkt time now c) := by
  unfold enqueue
  dsimp only [record]
  split
  · rfl
  · cases hpf : s.pf with
    | nil =>
      have hroom : ¬ cfg.size < 1 := by omega
      simp [Window.push, hroom]
    | cons old rest =>
      rw [hpf] at h
      dsimp only
      rw [Window.push]
      split
      · rename_i hfull
        rw [if_pos (by rw [List.length_append, hfull]; exact Nat.lt_succ_self _)]
        rfl
      · rename_i hroom
        rw [if_neg (by rw [List.length_append, List.length_singleton]; omega)]

/-- The loop over the candidates appends packets of one time and keeps the newest. -/
theorem enqueueAll_pf (hsize : 1 ≤ cfg.size) (pkt : Packet) (time now : Tick) {cs : List (Addr × Tick)}
    (hcs : ∀ c ∈ cs, c.2 = latency) {s : Prefetcher σ} (h : s.pf.length ≤ cfg.size) :
    ∃ fresh : List Packet, (∀ p ∈ fresh, p.time = time + latency) ∧
      (cs.foldl (enqueue g cfg pkt time now) s).pf = fresh.foldl (Window.push cfg.size) s.pf := by
  induction cs generalizing s with
  | nil => exact ⟨[], by simp, rfl⟩
  | cons c cs ih =>
    obtain ⟨hc, hcs⟩ := List.forall_mem_cons.1 hcs
    have hpf := @enqueue_pf σ g cfg hsize s h pkt time now c
    rw [List.foldl_cons]
    by_cases hany : s.pf.any (inPrefetch g c.1)
    · rw [if_pos hany] at hpf
      obtain ⟨fresh, hfresh, heq⟩ := ih hcs (hpf ▸ h)
      exact ⟨fresh, hfresh, by rw [heq, hpf]⟩
    · rw [if_neg hany] at hpf
      obtain ⟨fresh, hfresh, heq⟩ := ih hcs (by rw [hpf]; exact Window.push_length h _)
      refine ⟨prefetchPacket g pkt time now c :: fresh, ?_, by rw [heq, hpf, List.foldl_cons]⟩
      exact List.forall_mem_cons.2 ⟨by rw [← hc]; rfl, hfresh⟩

theorem squashed_sublist (cfg : PfConfig) (time : Tick) (pf : List Packet) :
    (squashed cfg time pf).Sublist pf := by
  rw [squashed]
  split
  · exact (List.rdropWhile_prefix _ _).sublist
  · exact List.Sublist.refl _

theorem moves_act (hsize : 1 ≤ cfg.size) (hP : P.FixedLatency latency) {s : Prefetcher σ}
    (h : s.pf.length ≤ cfg.size) (a : PfAction) :
    QueueMoves g cfg latency s.pf (s.act P g cfg a).pf a := by
  cases a with
  | getPacket => rfl
  | complete pkt => rfl
  | notify inCache inMissQueue now pkt time =>
    simp only [QueueMoves]
    split
    · rename_i hheeded
      have hleft := ((squashed_sublist cfg time _).trans
        (@List.eraseP_sublist _ (inPrefetch g (g.blockAlign pkt.addr)) s.pf)).length_le
      obtain ⟨s₁, hs₁, hpf⟩ : ∃ s₁ : Prefetcher σ,
          (if cfg.serialSquash = true then (s.removeDemanded g pkt.addr).squash time
            else s.removeDemanded g pkt.addr) = s₁ ∧
          s₁.pf = squashed cfg time (s.pf.eraseP (inPrefetch g (g.blockAlign pkt.addr))) := by
        refine ⟨_, rfl, ?_⟩
        rw [squashed]
        split <;> rfl
      obtain ⟨fresh, hfresh, heq⟩ := @enqueueAll_pf σ g cfg latency hsize pkt time now _
        (hP ⟨inCache, inMissQueue, s₁.pf.length⟩ pkt s₁.policy)
        { s₁ with policy := (P.calculatePrefetch ⟨inCache, inMissQueue, s₁.pf.length⟩ pkt s₁.policy).1 }
        (by rw [hpf]; omega)
      refine ⟨fresh, hfresh, ?_⟩
      rw [← hpf, ← Window.pushAll_append (by rw [hpf]; omega), act, notify]
      dsimp only
      rw [heeded] at hheeded
      rw [if_pos hheeded, hs₁]
      exact heq
    · rename_i hheeded
      rw [heeded] at hheeded
      rw [act, notify]
      dsimp only
      rw [if_neg hheeded]

/-- The queue after a call: still in order, and no packet later than the call's own. -/
theorem ordered_moves {pf pf' : List Packet} {a : PfAction} (h : TimeOrdered cfg pf)
    (hlate : ∀ t ∈ notifyTimes [a], ∀ p ∈ pf, p.time ≤ t + latency) (hm : QueueMoves g cfg latency pf pf' a) :
    TimeOrdered cfg pf' ∧ ∀ p ∈ pf', p ∈ pf ∨ ∃ t ∈ notifyTimes [a], p.time = t + latency := by
  cases a with
  | getPacket =>
    rw [show pf' = pf.tail from hm]
    have hsub := List.tail_sublist pf
    exact ⟨⟨hsub.length_le.trans h.bounded, h.sorted.sublist hsub⟩, fun p hp => Or.inl (hsub.subset hp)⟩
  | complete pkt =>
    rw [show pf' = pf from hm]
    exact ⟨h, fun p hp => Or.inl hp⟩
  | notify inCache inMissQueue now pkt time =>
    simp only [QueueMoves] at hm
    split at hm
    · obtain ⟨fresh, hfresh, rfl⟩ := hm
      have hsub := (squashed_sublist cfg time _).trans
        (@List.eraseP_sublist _ (inPrefetch g (g.blockAlign pkt.addr)) pf)
      set old := squashed cfg time (pf.eraseP (inPrefetch g (g.blockAlign pkt.addr)))
      have htake : ((old ++ fresh).rtake cfg.size).Sublist (old ++ fresh) := List.drop_sublist _ _
      have hsorted : (old ++ fresh).Pairwise fun p q => p.time ≤ q.time := by
        refine List.pairwise_append.2 ⟨h.sorted.sublist hsub, ?_, ?_⟩
        · refine List.pairwise_of_forall_mem_list ?_
          intro p hp q hq
          rw [hfresh p hp, hfresh q hq]
        · intro p hp q hq
          rw [hfresh q hq]
          exact hlate time (by simp [notifyTimes]) p (hsub.subset hp)
      refine ⟨⟨?_, hsorted.sublist htake⟩, ?_⟩
      · rw [List.rtake, List.length_drop]
        omega
      · intro p hp
        rcases List.mem_append.1 (htake.subset hp) with hp | hp
        · exact Or.inl (hsub.subset hp)
        · exact Or.inr ⟨time, by simp [notifyTimes], hfresh p hp⟩
    · rw [hm]
      exact ⟨h, fun p hp => Or.inl hp⟩

/-- A queue in order, with its head the earliest. -/
structure InOrder (cfg : PfConfig) (s : Prefetcher σ) : Prop extends TimeOrdered cfg s.pf where
  empty : s.pf = [] → s.nextPrefetchReadyTime = maxTick
  next : s.pf ≠ [] → Earliest s.pf s.nextPrefetchReadyTime

theorem inOrder_of_ordered {s : Prefetcher σ} (h : TimeOrdered cfg s.pf) : InOrder cfg s := by
  refine ⟨h, ?_, ?_⟩
  · intro hnil
    rw [nextPrefetchReadyTime, hnil]
    rfl
  · intro hne
    obtain ⟨p, pf, hpf⟩ := List.exists_cons_of_ne_nil hne
    have hsorted := h.sorted
    rw [nextPrefetchReadyTime, hpf] at *
    exact earliest_head hsorted

/-- What a call does: it moves packets as `QueueMoves` says, and `notify` returns the earliest time
of the queue it leaves. -/
structure Orderly (P : Policy σ) (g : Geometry) (cfg : PfConfig) (latency : Tick) (s : Prefetcher σ)
    (a : PfAction) : Prop where
  moves : QueueMoves g cfg latency s.pf (s.act P g cfg a).pf a
  returned : ∀ t ∈ s.returned P g cfg a,
    if (s.act P g cfg a).pf = [] then t = 0 else Earliest (s.act P g cfg a).pf t

theorem orderly {s : Prefetcher σ} {a : PfAction} (hm : QueueMoves g cfg latency s.pf (s.act P g cfg a).pf a)
    (h : TimeOrdered cfg (s.act P g cfg a).pf) : Orderly P g cfg latency s a := by
  refine ⟨hm, ?_⟩
  intro t ht
  cases a with
  | getPacket => cases ht
  | complete pkt => cases ht
  | notify inCache inMissQueue now pkt time =>
    have hval : ((s.act P g cfg (.notify inCache inMissQueue now pkt time)).pf.head?.map (·.time)).getD 0 = t :=
      Option.some.inj ht
    split
    · rename_i hnil
      rw [← hval, hnil]
      rfl
    · rename_i hne
      obtain ⟨p, pf, hpf⟩ := List.exists_cons_of_ne_nil hne
      have hsorted := h.sorted
      rw [hpf] at hval hsorted ⊢
      exact hval ▸ earliest_head hsorted

/-! ## Runs -/

/-- The invariant that carries the run: the queue is in order, and no packet is later than the
delay after any call that is still to come. -/
theorem run_ordered (hsize : 1 ≤ cfg.size) (hP : P.FixedLatency latency) (as : List PfAction) :
    ∀ s : Prefetcher σ, TimeOrdered cfg s.pf → (∀ t ∈ notifyTimes as, ∀ p ∈ s.pf, p.time ≤ t + latency) →
      (notifyTimes as).Pairwise (· ≤ ·) →
      Runs.Along (act P g cfg) (InOrder cfg) s as ∧ Runs.Guarded (act P g cfg) (Orderly P g cfg latency) s as := by
  induction as with
  | nil => exact fun s hs _ _ => ⟨inOrder_of_ordered hs, trivial⟩
  | cons a as ih =>
    intro s hs hlate htimes
    rw [notifyTimes_cons] at hlate htimes
    obtain ⟨-, hlater, hcross⟩ := List.pairwise_append.1 htimes
    have hm := @moves_act σ P g cfg latency hsize hP s hs.bounded a
    obtain ⟨hs', hnew⟩ := ordered_moves hs (fun t ht => hlate t (List.mem_append_left _ ht)) hm
    have hlate' : ∀ t ∈ notifyTimes as, ∀ p ∈ (s.act P g cfg a).pf, p.time ≤ t + latency := by
      intro t ht p hp
      rcases hnew p hp with hold | ⟨t', ht', heq⟩
      · exact hlate t (List.mem_append_right _ ht) p hold
      · rw [heq]
        exact Nat.add_le_add_right (hcross t' ht' t ht) latency
    obtain ⟨halong, hguarded⟩ := ih _ hs' hlate' hlater
    exact ⟨⟨inOrder_of_ordered hs, halong⟩, orderly hm hs', hguarded⟩

end Prefetcher

theorem prefetch_queue_ordered {σ : Type} (P : Policy σ) (g : Geometry) (cfg : PfConfig) (latency : Tick)
    (hsize : 1 ≤ cfg.size) (hP : P.FixedLatency latency) (s₀ : σ) (as : List PfAction)
    (htimes : (notifyTimes as).Pairwise (· ≤ ·)) :
    Runs.Along (Prefetcher.act P g cfg) (Prefetcher.InOrder cfg) { policy := s₀ } as ∧
      Runs.Guarded (Prefetcher.act P g cfg) (Prefetcher.Orderly P g cfg latency) { policy := s₀ } as :=
  Prefetcher.run_ordered hsize hP as { policy := s₀ } ⟨Nat.zero_le _, List.Pairwise.nil⟩
    (fun _ _ _ hp => absurd hp List.not_mem_nil) htimes

/-! ## The policies -/

theorem spread_latency {prm : PolicyParams} {a : Addr} {stride : BitVec 32} :
    ∀ c ∈ spread prm a stride, c.2 = prm.latency := by
  intro c hc
  obtain ⟨b, -, rfl⟩ := List.mem_map.1 hc
  rfl

/-- Each of the policies has one delay, the proxy whatever its user does. -/
theorem PolicyKind.fixedLatency {τ : Type} (g : Geometry) (prm : PolicyParams) (u : User τ) (k : PolicyKind) :
    (k.policy g prm u).FixedLatency prm.latency := by
  intro v pkt s c hc
  cases k with
  | proxy =>
    simp only [policy, PrefetchSim.proxy] at hc
    split at hc
    · cases hc
    · obtain ⟨a, -, ha⟩ := List.mem_flatMap.1 hc
      unfold issuePrefetch at ha
      split at ha
      · rw [List.mem_singleton.1 ha]
      · cases ha
  | interface =>
    simp only [policy, PrefetchSim.interface] at hc
    split at hc
    · cases hc
    · obtain ⟨a, -, rfl⟩ := List.mem_map.1 hc
      rfl
  | stride =>
    simp only [policy, PrefetchSim.stride] at hc
    split at hc
    · cases hc
    · split at hc
      · cases hc
      · split at hc
        · split at hc
          · cases hc
          · exact spread_latency c hc
        · cases hc
  | ghb =>
    simp only [policy, PrefetchSim.ghb] at hc
    split at hc
    · cases hc
    · dsimp only at hc
      split at hc
      · exact spread_latency c hc
      · cases hc
  | tagged =>
    simp only [policy, PrefetchSim.tagged] at hc
    split at hc
    · cases hc
    · exact spread_latency c hc
  | sequential =>
    simp only [policy, PrefetchSim.sequential] at hc
    split at hc
    · cases hc
    · rw [List.mem_singleton.1 hc]

/-- A queue of two, with `serialSquash`. -/
def smallQueue : PfConfig := { size := 2, serialSquash := true }

theorem prefetch_queue_ordered_tagged :
    let P := PolicyKind.tagged.policy smallGeometry (pfParams 2) issuesPair
    let as : List PfAction := [heard 4096, heard 4352, .getPacket, heard 4160]
    1 ≤ smallQueue.size ∧ P.FixedLatency 1 ∧ (notifyTimes as).Pairwise (· ≤ ·) ∧
      Runs.Along (Prefetcher.act P smallGeometry smallQueue) (Prefetcher.InOrder smallQueue) { policy := () } as ∧
      Runs.Guarded (Prefetcher.act P smallGeometry smallQueue)
        (Prefetcher.Orderly P smallGeometry smallQueue 1) { policy := () } as := by
  have hP := PolicyKind.fixedLatency smallGeometry (pfParams 2) issuesPair .tagged
  have htimes : (notifyTimes [heard 4096, heard 4352, .getPacket, heard 4160]).Pairwise (· ≤ ·) := by decide
  exact ⟨by decide, hP, htimes, prefetch_queue_ordered _ smallGeometry smallQueue 1 (by decide) hP () _ htimes⟩

end PrefetchSim
