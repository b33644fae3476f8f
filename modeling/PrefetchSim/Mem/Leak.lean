import PrefetchSim.Mem.Outstanding

/- What the DCPT prefetcher loses, it loses for good.

   A block stays in `in_flight` when its prefetch is dropped, or was never issued. It is
   taken out again only by `prefetch_complete`, which needs an outstanding prefetch for the
   block, and `prefetch_filter` lets no prefetch pass for a block that is in there. So such
   a block is never prefetched again, and the place it takes among the `MAX_QUEUE_SIZE`
   that `in_flight` has is never free again (`lost_for_good`). -/
namespace PrefetchSim

open Ledger (Extends)

variable {σ : Type} {π : σ → Dcpt.State} {P : Policy σ} {latency : Tick} {clean : σ → Prop} {cfg : Config}

/-! ## What is accepted -/

namespace Prefetcher

/-- An event that is not an acceptance. -/
theorem not_accepted {keys : Addr → Prop} {es : List PfEvent} (h : ∀ e ∈ es, ∀ a, e ≠ .accepted a) :
    ∀ a, keys a → .accepted a ∉ es :=
  fun a _ hmem => h _ hmem a rfl

theorem enqueue_extends {keys : Addr → Prop} {c : Addr × Tick} (hc : ¬keys c.1) (g : Geometry) (pf : PfConfig)
    (pkt : Packet) (time now : Tick) (s : Prefetcher σ) :
    Extends keys s.log (s.enqueue g pf pkt time now c).log := by
  have hfirst : Extends keys s.log (s.log ++ [.accepted c.1]) := by
    refine (Extends.refl keys s.log).append fun a ha hmem => hc ?_
    cases List.mem_singleton.1 hmem
    exact ha
  unfold enqueue
  dsimp only
  split
  · exact hfirst.append (not_accepted (by simp))
  · split
    · exact hfirst
    · split
      · exact hfirst.append (not_accepted (by simp))
      · exact hfirst

theorem enqueueAll_extends {keys : Addr → Prop} (g : Geometry) (pf : PfConfig) (pkt : Packet) (time now : Tick)
    (cs : List (Addr × Tick)) (hcs : ∀ c ∈ cs, ¬keys c.1) (s : Prefetcher σ) :
    Extends keys s.log (cs.foldl (enqueue g pf pkt time now) s).log := by
  induction cs generalizing s with
  | nil => exact .refl keys _
  | cons c cs ih =>
    exact (enqueue_extends (hcs c List.mem_cons_self) g pf pkt time now s).trans
      (ih (fun c' hc' => hcs c' (List.mem_cons_of_mem c hc')) _)

/-- `notify` accepts no prefetch for a block in flight. -/
theorem notify_extends (hP : Tracks P latency π clean) (s : Prefetcher σ) (g : Geometry) (pf : PfConfig)
    (inCache inMissQueue : Addr → Bool) (now : Tick) (pkt : Packet) (time : Tick) :
    Extends (· ∈ (π s.policy).inFlight) s.log (s.notify P g pf inCache inMissQueue now pkt time).1.log := by
  have hremove : Extends (· ∈ (π s.policy).inFlight) s.log (s.removeDemanded g pkt.addr).log :=
    (Extends.refl _ s.log).append (not_accepted (by simp))
  unfold notify
  dsimp only
  split
  swap
  · exact .refl _ _
  split
  · have hsquash : Extends (· ∈ (π s.policy).inFlight) s.log ((s.removeDemanded g pkt.addr).squash time).log :=
      hremove.append (not_accepted (by simp))
    refine hsquash.trans (enqueueAll_extends g pf pkt time now _ (fun c hc => ?_) _)
    exact ((hP.candidates _ pkt s.policy).2.2.2.2 c hc).1
  · refine hremove.trans (enqueueAll_extends g pf pkt time now _ (fun c hc => ?_) _)
    exact ((hP.candidates _ pkt s.policy).2.2.2.2 c hc).1

theorem servePrefetches_extends (keys : Addr → Prop) (P : Policy σ) (hasBlk : Bool) (ts : List Target)
    (s : Prefetcher σ) : Extends keys s.log (servePrefetches P hasBlk ts s).log := by
  induction ts generalizing s with
  | nil => exact .refl keys _
  | cons t ts ih =>
    refine Extends.trans ?_ (ih (servePrefetch P hasBlk s t))
    unfold servePrefetch
    split
    · split
      · exact (Extends.refl keys s.log).append (not_accepted (by simp))
      · exact (Extends.refl keys s.log).append (not_accepted (by simp))
    · exact .refl keys _

end Prefetcher

/-! ## Runs -/

namespace Cache

variable {ok : Allowed σ} {s s' : Cache σ}

/-- No elementary operation accepts a prefetch for a block in flight. -/
theorem Micro.extends_log (hP : Tracks P latency π clean) (h : Micro cfg P ok s s') :
    Extends (· ∈ (π s.prefetcher.policy).inFlight) s.prefetcher.log s'.prefetcher.log := by
  have hsame : s'.prefetcher = s.prefetcher →
      Extends (· ∈ (π s.prefetcher.policy).inFlight) s.prefetcher.log s'.prefetcher.log := by
    intro h
    rw [h]
    exact .refl _ _
  cases h with
  | others core => exact hsame core.prefetcher
  | time | block | unblock | target | snoop => exact hsame rfl
  | miss | write => exact hsame (allocateBuffer_prefetcher ..)
  | flags => exact hsame (setQueue_prefetcher ..)
  | notify pkt time => exact Prefetcher.notify_extends hP s.prefetcher ..
  | popDrop p rest head => exact (Extends.refl _ _).append (Prefetcher.not_accepted (by simp))
  | popMiss p rest head =>
    rw [allocateMissBuffer, allocateBuffer_prefetcher]
    exact .refl _ _
  | sent => exact hsame (freed_prefetcher ..)
  | bail m target =>
    rw [bailOut_prefetcher]
    exact (Extends.refl _ _).append (Prefetcher.not_accepted (by simp))
  | answered m r hasBlk => exact Prefetcher.servePrefetches_extends _ P hasBlk _ _

/-- The blocks in flight without an outstanding prefetch. -/
def lost (s : Cache Dcpt.State) : Finset Addr := s.prefetcher.policy.inFlight.filter fun b => ¬s.Outstanding b

theorem mem_lost {s : Cache Dcpt.State} {b : Addr} :
    b ∈ s.lost ↔ b ∈ s.prefetcher.policy.inFlight ∧ b ∉ s.out := by
  rw [lost, Finset.mem_filter, mem_out]

/-- What becomes of the blocks of `blocks`, which were lost when the log was `log`. -/
structure Gone (cfg : Config) (blocks : Finset Addr) (log : List PfEvent) (s : Cache Dcpt.State) : Prop where
  accounts : s.Accounts cfg id fun _ => True
  lost : blocks ⊆ s.lost
  not_accepted : Extends (· ∈ blocks) log s.prefetcher.log

theorem Gone.step {blocks : Finset Addr} {log : List PfEvent} {s : Cache Dcpt.State} {a : Action}
    (h : Gone cfg blocks log s) (he : s.Enabled cfg a) : Gone cfg blocks log (s.step cfg (proxy latency dcpt) a) := by
  have hP := tracks_dcpt latency
  have hmicros : Micros cfg (proxy latency dcpt) {} s (s.step cfg _ a) := step_micros_any h.accounts.sound he
  refine invariant_of_micro ?_ hmicros h
  intro s s' hmicro hs
  have hextends := hmicro.extends_log hP
  refine ⟨hmicro.accounts hP hs.accounts, fun b hb => ?_, hs.not_accepted.trans ?_⟩
  · obtain ⟨hmark, hout⟩ := mem_lost.1 (hs.lost hb)
    exact mem_lost.2 ((hmicro.bookkeeping hP hs.accounts).1.lost_of_extends hmark hout hextends hmark)
  · obtain ⟨new, hnew, hnone⟩ := hextends
    exact ⟨new, hnew, fun b hb => hnone b (mem_lost.1 (hs.lost hb)).1⟩

/-- A block in flight for which no prefetch is outstanding stays so for the rest of the run,
no prefetch for it is accepted again, and there is room for one prefetch less. -/
theorem lost_for_good (cfg : Config) (latency : Tick) (as bs : List Action)
    (hen : Runs.Guarded (step cfg (proxy latency dcpt)) (Enabled cfg) (initial cfg Dcpt.initial) (as ++ bs)) :
    let s := Runs.exec (step cfg (proxy latency dcpt)) (initial cfg Dcpt.initial) as
    let s' := Runs.exec (step cfg (proxy latency dcpt)) (initial cfg Dcpt.initial) (as ++ bs)
    s.lost ⊆ s'.lost ∧ Extends (· ∈ s.lost) s.prefetcher.log s'.prefetcher.log ∧
      s'.prefetcher.pf.length + s'.mshrQueue.pfTargets.length + s.lost.card ≤ Dcpt.maxQueueSize := by
  intro s s'
  obtain ⟨hfirst, hrest⟩ := (Runs.guarded_append ..).1 hen
  have haccounts : s.Accounts cfg id fun _ => True :=
    Runs.along_exec as _ (run_accounts (tracks_dcpt latency) rfl trivial as hfirst)
  have hgone : Gone cfg s.lost s.prefetcher.log s' := by
    show Gone cfg s.lost s.prefetcher.log (Runs.exec _ _ (as ++ bs))
    rw [Runs.exec_append]
    exact Runs.exec_invariant (fun _ _ h he => h.step he) bs s
      ⟨haccounts, Finset.Subset.refl _, .refl _ _⟩ hrest
  refine ⟨hgone.lost, hgone.not_accepted, ?_⟩
  have hroom := hgone.accounts.good.length_add_card_le (fun b hb => (mem_lost.1 (hgone.lost hb)).1)
    fun b hb => (mem_lost.1 (hgone.lost hb)).2
  have hlen : s'.out.length = s'.prefetcher.pf.length + s'.mshrQueue.pfTargets.length := by
    simp [out, Prefetcher.queued]
  rw [← hlen]
  exact hroom

/-- The fifth load takes away the prefetch that the fourth has caused. -/
theorem lost_for_good_demanded :
    let s := Runs.exec (step (smallConfig 8) (proxy 0 dcpt)) (initial (smallConfig 8) Dcpt.initial) demandedRun
    let s' := Runs.exec (step (smallConfig 8) (proxy 0 dcpt)) (initial (smallConfig 8) Dcpt.initial)
      (demandedRun ++ [.tick 9, .cpuPacket (load 1 4416)])
    (4352 : Addr) ∈ s.lost ∧ s.lost ⊆ s'.lost ∧ Extends (· ∈ s.lost) s.prefetcher.log s'.prefetcher.log ∧
      s'.prefetcher.pf.length + s'.mshrQueue.pfTargets.length + s.lost.card ≤ Dcpt.maxQueueSize :=
  ⟨by decide +kernel, lost_for_good _ _ _ _ (by decide +kernel)⟩

end Cache

end PrefetchSim
