import PrefetchSim.Mem.Outstanding

/- The DCPT prefetcher cannot overflow the prefetch queue. `current_queue_size`
   does not change during one call, since what the prefetcher issues is queued
   after it; so the test in `issue_prefetches` does not bound the queue. What
   does is that queued blocks are distinct and in flight, and that `in_flight`
   has at most `MAX_QUEUE_SIZE` elements.

   `audited` is the DCPT prefetcher with a record of the calls in which the
   queue ended the issuing too early, or a block to be erased was absent. It
   issues what the prefetcher issues (`tracks_audited`), and the record stays
   empty (`no_overflow`). -/
namespace PrefetchSim

namespace Dcpt

/-- What the access passes to `issue_prefetches`. -/
def offered (sim : Sim) (stat : AccessStat) (s : State) : List Addr :=
  (prefetchFilter sim (s.table (slotOf stat.pc)) (candidates s stat) s.inFlight).2

/-- Whether the loop of `issue_prefetches` is left because of the queue, with
prefetches still to issue. -/
def queueExit (sim : Sim) : Nat → List Addr → Bool
  | _, [] => false
  | issued, _ :: ps =>
    if maxQueueSize ≤ sim.currentQueueSize issued then true
    else if maxDegree ≤ issued then false
    else queueExit sim (issued + 1) ps

theorem queueExit_eq_false {sim : Sim} (h : ∀ k, sim.currentQueueSize k < maxQueueSize) (ps : List Addr)
    (issued : Nat) : queueExit sim issued ps = false := by
  induction ps generalizing issued with
  | nil => rfl
  | cons p ps ih =>
    rw [queueExit, if_neg (Nat.not_le.2 (h issued))]
    split
    · rfl
    · exact ih (issued + 1)

/-- An access that has something to issue found room in `in_flight`. -/
theorem offered_room {sim : Sim} {stat : AccessStat} {s : State} (h : offered sim stat s ≠ []) :
    s.inFlight.card < maxQueueSize := by
  have hsuffix := filterLoop_suffix sim (s.table (slotOf stat.pc)).lastPrefetch (candidates s stat) 0
    s.inFlight []
  have hne : accepted sim 0 (candidates s stat) s.inFlight ≠ [] := by
    intro hnil
    rw [hnil] at hsuffix
    exact h (List.suffix_nil.1 hsuffix)
  by_contra hfull
  exact hne ((accepted_eq_nil_iff ..).2 (.inl (Nat.le_of_not_lt hfull)))

end Dcpt

/-! ## The observed prefetcher -/

/-- What must not happen in a call of the prefetcher. -/
inductive Fault where
  /-- `issue_prefetches` gave up because of the queue -/
  | queueExit (stat : Dcpt.AccessStat)
  /-- `prefetch_complete` for a block that is not in flight -/
  | absent (addr : Addr)
  deriving DecidableEq, Repr

def audited : User (Dcpt.State × List Fault) where
  prefetchAccess sim stat s :=
    let r := Dcpt.prefetchAccess sim stat s.1
    ((r.1, if Dcpt.queueExit sim 0 (Dcpt.offered sim stat s.1) then s.2 ++ [.queueExit stat] else s.2), r.2)
  prefetchComplete addr s :=
    (Dcpt.prefetchComplete addr s.1,
      if Dcpt.toBlock addr ∈ s.1.inFlight then s.2 else s.2 ++ [.absent addr])

theorem tracks_audited (latency : Tick) :
    Tracks (proxy latency audited) latency Prod.fst fun s => s.2 = [] where
  access_state v pkt s := by
    unfold proxy
    dsimp only
    cases accessStat v pkt <;> rfl
  access_issued v pkt s := by
    unfold proxy
    dsimp only
    cases accessStat v pkt <;> rfl
  complete_state _ _ := rfl
  access_clean v pkt s hclean hsize hcard := by
    unfold proxy
    dsimp only
    cases accessStat v pkt with
    | none => exact hclean
    | some stat =>
      have hexit : Dcpt.queueExit v.sim 0 (Dcpt.offered v.sim stat s.1) = false := by
        by_cases hnil : Dcpt.offered v.sim stat s.1 = []
        · rw [hnil]
          rfl
        · have hroom := Dcpt.offered_room hnil
          exact Dcpt.queueExit_eq_false (fun _ => lt_of_le_of_lt hsize hroom) _ _
      simp only [audited, hexit, Bool.false_eq_true, if_false]
      exact hclean
  complete_clean pkt s hclean hmem := by
    show (if _ then s.2 else _) = []
    rw [if_pos hmem]
    exact hclean

/-! ## Runs -/

namespace Cache

/-- The queue stays within its bounds: the blocks queued and those of the
prefetcher's targets are all distinct and in flight, at most `MAX_QUEUE_SIZE`
blocks are in flight, no packet was evicted from the queue, and no call of the
prefetcher went wrong. -/
structure WithinBounds (cfg : Config) (s : Cache (Dcpt.State × List Fault)) : Prop where
  distinct : ((s.prefetcher.pf.map fun p => cfg.geom.blockAlign p.addr) ++
    s.mshrQueue.pfTargets.map cfg.geom.blockAlign).Nodup
  queued : ∀ p ∈ s.prefetcher.pf, cfg.geom.blockAlign p.addr ∈ s.prefetcher.policy.1.inFlight
  targets : ∀ a ∈ s.mshrQueue.pfTargets, cfg.geom.blockAlign a ∈ s.prefetcher.policy.1.inFlight
  in_flight : s.prefetcher.policy.1.inFlight.card ≤ Dcpt.maxQueueSize
  not_evicted : ∀ b, .dropped .overflow b ∉ s.prefetcher.log
  no_faults : s.prefetcher.policy.2 = []

/-- With 64-byte blocks and a queue of `MAX_QUEUE_SIZE` packets, with or without
`serialSquash`, the bounds hold in every state of every run. -/
theorem no_overflow (cfg : Config) (hblocks : cfg.geom.blkBits = 6)
    (hsize : cfg.pf.size = Dcpt.maxQueueSize) (latency : Tick) (as : List Action)
    (hen : Runs.Guarded (step cfg (proxy latency audited)) (Enabled cfg)
      (initial cfg (Dcpt.initial, [])) as) :
    Runs.Along (step cfg (proxy latency audited)) (WithinBounds cfg)
      (initial cfg (Dcpt.initial, [])) as := by
  refine Runs.along_mono ?_ as _ (run_accounts (tracks_audited latency) rfl rfl as hen)
  intro s hs
  have hblock : ∀ a ∈ s.out, cfg.geom.blockAlign a = a := by
    intro a ha
    exact Geometry.blockAlign_of_block (le_of_eq hblocks) (hs.fit.aligned a (hs.good.marked a ha))
  have hmem : ∀ a ∈ s.out, cfg.geom.blockAlign a ∈ s.prefetcher.policy.1.inFlight := by
    intro a ha
    rw [hblock a ha]
    exact hs.good.marked a ha
  refine ⟨?_, ?_, ?_, hs.good.bounded, ?_, hs.fit.clean⟩
  · have hall : (s.prefetcher.pf.map fun p => cfg.geom.blockAlign p.addr) ++
        s.mshrQueue.pfTargets.map cfg.geom.blockAlign = s.out.map cfg.geom.blockAlign := by
      simp [out, Prefetcher.queued]
    rw [hall, List.map_congr_left hblock, List.map_id']
    exact hs.good.nodup
  · exact fun p hp => hmem _ (List.mem_append_left _ (List.mem_map_of_mem hp))
  · exact fun a ha => hmem _ (List.mem_append_right _ ha)
  · intro b hb
    have hsmall : cfg.pf.size < Dcpt.maxQueueSize := hs.good.causes _ b hb
    omega

theorem no_overflow_demandedRun :
    Runs.Along (step (smallConfig 8) (proxy 0 audited)) (WithinBounds (smallConfig 8))
      (initial (smallConfig 8) (Dcpt.initial, [])) demandedRun :=
  no_overflow _ rfl rfl 0 _ (by decide +kernel)

end Cache

end PrefetchSim
