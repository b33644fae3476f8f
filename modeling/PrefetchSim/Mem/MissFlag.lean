import PrefetchSim.Mem.Sound

/- The miss flag that the proxy reports to a prefetcher (`interface.hh`: "Was
   this demand access a cache hit (0) or miss (1)?").

   The proxy does not pass on whether `access` satisfied the request. It looks
   the block up again, after the access has been made, so the flag says whether
   the block is in the cache now. Proved here: the flag is right exactly when
   the block was absent, or was there with the permissions the request needs
   and is not given up to it, or the request is a writeback. -/
namespace PrefetchSim

variable {τ : Type}

/-- A user's prefetcher that keeps the statistics it is given. -/
def recording (u : User τ) : User (τ × List Dcpt.AccessStat) where
  prefetchAccess sim stat s :=
    let r := u.prefetchAccess sim stat s.1
    ((r.1, s.2 ++ [stat]), r.2)
  prefetchComplete addr s := (u.prefetchComplete addr s.1, s.2)

/-- The requests for which presence after the access and a hit are the same. -/
def flagRight (g : Geometry) (t : Tags) (pkt : Packet) : Bool :=
  match t.findBlock g pkt.addr with
  | none => true
  | some ptr => if permits pkt (t.blks ptr) then !givesUp g pkt else pkt.cmd == .writeback

/-! ## Presence after an access -/

section

variable {g : Geometry} {t : Tags} {pkt : Packet}

/-- The block an allocated writeback leaves in the cache is found there. -/
theorem findBlock_installed (ht : t.WellFormed g) {t' : Tags} {w : Nat} {addr : Addr}
    (hnone : t.findBlock g addr = none) (hw : w ∈ t.ways (g.extractSet addr))
    (inst : Tags.Installs t t' (g.extractSet addr) w (g.extractTag addr)) :
    t'.findBlock g addr = some (.frame (g.extractSet addr) w) := by
  unfold Tags.findBlock
  rw [inst.findBlk ht hnone hw, if_pos ⟨rfl, rfl⟩]

/-- A block that is absent is present afterwards exactly if the access put it
there, and only then has the request been satisfied from the cache. -/
theorem access_absent (q : MshrQueue) (now : Tick) (ht : t.WellFormed g)
    (h : t.findBlock g pkt.addr = none) :
    let r := access g t q now pkt
    (r.tags.findBlock g pkt.addr).isSome = (r.satisfied && r.blk.isSome) ∧
      (r.satisfied && r.blk.isNone) = (pkt.cmd.isLLSC && pkt.cmd.isWrite) := by
  have hfound := t.accessBlock_found g now pkt.addr
  have quiet := t.accessBlock_quiet g now pkt.addr
  unfold access
  generalize t.accessBlock g now pkt.addr = acc at hfound quiet ⊢
  obtain ⟨t₁, lat, blk⟩ := acc
  dsimp only at hfound quiet ⊢
  rw [h] at hfound
  subst hfound
  have ht₁ := quiet.wellFormed ht
  have hnone : t₁.findBlock g pkt.addr = none := (quiet.findBlk ht _ _).trans h
  dsimp only
  by_cases hwb : pkt.cmd = .writeback
  · have hllsc : pkt.cmd.isLLSC = false := by rw [hwb]; rfl
    rw [if_pos hwb]
    obtain ⟨w, hw, halloc⟩ := allocateBlock_allocation ht₁ q now pkt.addr
    generalize allocateBlock g t₁ q now pkt.addr = a at halloc ⊢
    cases halloc with
    | refused hq _ _ =>
      have : (Tags.findBlock g _ pkt.addr) = none := (hq.findBlk ht₁ _ _).trans hnone
      simp [this, hllsc]
    | granted hways other hset _ =>
      -- insertion, the valid status, and then the data with the dirty bit
      have inst := (@Tags.installs_of_insert g t₁ _ pkt.addr w pkt.req.contextId
        (fun b => { b with status := { valid := true, readable := true } }) hw hways other
        (hset.trans (ht₁.set_eq _ _)) (fun _ => rfl) (fun _ => rfl) (fun _ => rfl)).modify
        (inert_writeback pkt _ _)
      have := findBlock_installed ht₁ hnone hw inst
      simp [acceptWriteback, this, hllsc]
  · rw [if_neg hwb]
    split
    · rename_i hsc
      simp [hnone, hsc]
    · rename_i hsc
      simp [hnone, hsc]

/-- A block that is there stays there unless it is given up to the request. The
request is satisfied if the permissions allow it or if it is a writeback. -/
theorem access_found (q : MshrQueue) (now : Tick) (ht : t.WellFormed g) {ptr : BlkPtr}
    (h : t.findBlock g pkt.addr = some ptr) :
    let r := access g t q now pkt
    r.blk = some ptr ∧
      r.satisfied = (permits pkt (t.blks ptr) || pkt.cmd == .writeback) ∧
      (r.tags.findBlock g pkt.addr).isSome = !(permits pkt (t.blks ptr) && givesUp g pkt) := by
  have hfound := t.accessBlock_found g now pkt.addr
  have quiet := t.accessBlock_quiet g now pkt.addr
  unfold access
  generalize t.accessBlock g now pkt.addr = acc at hfound quiet ⊢
  obtain ⟨t₁, lat, blk⟩ := acc
  dsimp only at hfound quiet ⊢
  rw [h] at hfound
  subst hfound
  have ht₁ := quiet.wellFormed ht
  have hsome : t₁.findBlock g pkt.addr = some ptr := (quiet.findBlk ht _ _).trans h
  have hpermits : permits pkt (t₁.blks ptr) = permits pkt (t.blks ptr) := by
    simp only [permits, CacheBlk.isWritable, CacheBlk.isReadable, quiet.status]
  simp only [hpermits]
  by_cases hp : permits pkt (t.blks ptr) = true
  · obtain ⟨f, hplain, hsat⟩ := satisfy_tags g t₁ ptr pkt
    have hf := hplain.inert t₁ ptr
    have hmod : (t₁.modify ptr f).findBlock g pkt.addr = some ptr :=
      (Tags.findBlock_modify hf g pkt.addr).trans hsome
    rw [if_pos hp]
    simp only [hsat, hp, Bool.true_or, Bool.true_and, true_and]
    by_cases hg : givesUp g pkt = true
    · have : ((t₁.modify ptr f).invalidateBlk g ptr).findBlock g pkt.addr = none := by
        unfold Tags.findBlock at hmod ⊢
        rw [(ht₁.modify hf).findBlk_invalidateBlk, if_pos hmod]
      simp [hg, this]
    · simp [hg, hmod]
  · rw [if_neg hp]
    by_cases hwb : pkt.cmd = .writeback
    · have : (acceptWriteback t₁ ptr pkt).findBlock g pkt.addr = some ptr :=
        (Tags.findBlock_modify (inert_writeback pkt t₁ ptr) g pkt.addr).trans hsome
      simp [hwb, hp, this]
    · simp [hwb, hp, hsome]

end

/-! ## What the prefetcher is told -/

namespace Prefetcher

variable {σ : Type}

/-- A notification reports a request at most once, with the flag looked up at
that moment. -/
theorem notify_recorded (u : User τ) (latency : Tick) (g : Geometry) (cfg : PfConfig)
    (inCache inMissQueue : Addr → Bool) (now time : Tick) (pkt : Packet)
    (s : Prefetcher (τ × List Dcpt.AccessStat)) {stat : Dcpt.AccessStat}
    (h : (s.notify (proxy latency (recording u)) g cfg inCache inMissQueue now pkt time).1.policy.2 =
      s.policy.2 ++ [stat]) : stat.miss = !inCache pkt.addr := by
  unfold notify at h
  dsimp only at h
  split at h
  · rw [enqueueAll_policy] at h
    have hsame : (if cfg.serialSquash then (s.removeDemanded g pkt.addr).squash time
        else s.removeDemanded g pkt.addr).policy = s.policy := by
      split <;> rfl
    simp only [proxy, recording, accessStat, hsame] at h
    split at h
    · simp at h
    · rename_i hst
      simp only [List.append_cancel_left_eq, List.cons.injEq, and_true] at h
      split at hst
      · cases hst
        rw [← h]
      · cases hst
  · simp at h

end Prefetcher

namespace Cache

variable {σ : Type}

theorem findBlock_hideBlock (g : Geometry) (blk : Option BlkPtr) (s : Cache σ) (addr : Addr) :
    (s.hideBlock blk).tags.findBlock g addr = s.tags.findBlock g addr := by
  unfold hideBlock
  split
  · split
    · exact Tags.findBlock_modify
        (inert_status (fun st => { st with readable := false }) (fun _ => rfl) _ _) g addr
    · rfl
  · rfl

theorem notify_reported (cfg : Config) (u : User τ) (latency : Tick) (pkt : Packet) (time : Tick)
    (s : Cache (τ × List Dcpt.AccessStat)) {stat : Dcpt.AccessStat}
    (h : (s.notify cfg (proxy latency (recording u)) pkt time).prefetcher.policy.2 =
      s.prefetcher.policy.2 ++ [stat]) :
    stat.miss = !(s.tags.findBlock cfg.geom pkt.addr).isSome :=
  Prefetcher.notify_recorded u latency cfg.geom cfg.pf _ _ s.curTick time pkt s.prefetcher h

/-- What `timingAccess` reports, it reports after the access, with the tags as
the access has left them. -/
theorem reported_flag (cfg : Config) (u : User τ) (latency : Tick) (pkt : Packet)
    (s : Cache (τ × List Dcpt.AccessStat)) {stat : Dcpt.AccessStat}
    (h : (s.timingAccess cfg (proxy latency (recording u)) pkt).prefetcher.policy.2 =
      s.prefetcher.policy.2 ++ [stat]) :
    stat.miss = !((access cfg.geom s.tags s.mshrQueue s.curTick pkt).tags.findBlock
      cfg.geom pkt.addr).isSome := by
  have quiet : s.prefetcher.policy.2 ≠ s.prefetcher.policy.2 ++ [stat] := by simp
  unfold timingAccess at h
  dsimp only at h
  split at h
  · exact absurd h quiet
  split at h
  · exact absurd h quiet
  split at h
  · split at h <;> exact absurd h (by simp [allocateWriteBuffer, allocateUncachedReadBuffer])
  generalize hr : access cfg.geom s.tags s.mshrQueue s.curTick pkt = r at h ⊢
  have haddr : r.pkt.addr = pkt.addr := by rw [← hr]; exact (access_pkt ..).2.1
  rw [copyWritebacks_prefetcher] at h
  split at h
  · -- satisfied: the notification, if there is one, sees the tags of the access
    unfold hitPath at h
    by_cases hn : (cfg.prefetchOnAccess || prefetchHit { s with tags := r.tags } r.blk) = true
    · rw [← haddr]
      apply notify_reported cfg u latency r.pkt (s.curTick + cfg.geom.hitLatency)
        { s with tags := r.tags }
      rw [← h]
      simp only [hn, if_true]
      split <;> split <;> rfl
    · simp only [hn] at h
      exact absurd (by rw [← h]; split <;> rfl) quiet
  · -- missed: an MSHR hit is not reported, and allocating does not touch the tags
    unfold missPath at h
    dsimp only at h
    split at h
    · refine absurd ?_ quiet
      rw [← h]
      unfold addTarget
      dsimp only
      split <;> simp [ordered, setRegister]
    · rw [← haddr]
      split at h
      · rw [notify_reported cfg u latency r.pkt _ _ (h.trans (by simp [allocateWriteBuffer]))]
        simp [allocateWriteBuffer]
      · rw [notify_reported cfg u latency r.pkt _ _ (h.trans (by simp [allocateMissBuffer]))]
        simp [allocateMissBuffer, findBlock_hideBlock]

end Cache

/-- The flag is right, for a request that is reported, exactly in the cases
`flagRight` lists. A store conditional that misses completely is neither
satisfied from the cache nor sent on; read by what `access` returns, its flag
is wrong as well. -/
theorem miss_flag_iff (cfg : Config) (u : User τ) (latency : Tick)
    (s : Cache (τ × List Dcpt.AccessStat)) (hs : s.tags.WellFormed cfg.geom) (pkt : Packet)
    (stat : Dcpt.AccessStat)
    (reported : (s.timingAccess cfg (proxy latency (recording u)) pkt).prefetcher.policy.2 =
      s.prefetcher.policy.2 ++ [stat]) :
    let r := access cfg.geom s.tags s.mshrQueue s.curTick pkt
    ((stat.miss = true ↔ ¬(r.satisfied = true ∧ r.blk.isSome = true)) ↔
        flagRight cfg.geom s.tags pkt = true) ∧
      ((stat.miss = true ↔ ¬r.satisfied = true) ↔
        flagRight cfg.geom s.tags pkt = true ∧
          ¬(s.tags.findBlock cfg.geom pkt.addr = none ∧ pkt.cmd.isLLSC = true ∧
            pkt.cmd.isWrite = true)) := by
  intro r
  rw [Cache.reported_flag cfg u latency pkt s reported]
  unfold flagRight
  cases hf : s.tags.findBlock cfg.geom pkt.addr with
  | none =>
    obtain ⟨hpresent, hsc⟩ := access_absent s.mshrQueue s.curTick hs hf
    simp only [hpresent, true_and, ← Bool.and_eq_true, ← hsc]
    cases hsat : r.satisfied <;> cases hblk : r.blk <;> simp [r] at hsat hblk ⊢
  | some ptr =>
    obtain ⟨hblk, hsat, hpresent⟩ := access_found s.mshrQueue s.curTick hs hf
    simp only [r, hblk, hpresent, hsat]
    cases permits pkt (s.tags.blks ptr) <;> cases givesUp cfg.geom pkt <;>
      cases pkt.cmd == MemCmd.writeback <;> simp

/-- A load is answered with a shared copy of its block. -/
def sharedRun : List Action :=
  [.cpuPacket (load 1 4096), .tick 1, .sendPacket true noSnoops,
    .response (.mshrs, 0) { Packet.ofRequest { paddr := 4096, size := 64 } .readResp 0 with
      data := List.replicate 64 0, shared := true } noSnoops]

/-- A store of eight bytes by the instruction at `pc`. -/
def store (pc addr : Addr) : Packet :=
  { Packet.ofRequest { paddr := addr, size := 8, pc := some pc, contextId := some 0 } .writeReq 0 with
    data := List.replicate 8 1 }

/-- A store to the shared block is not satisfied, but is reported as a hit. -/
theorem miss_flag_wrong :
    let cfg := smallConfig 6
    let P := proxy 0 (recording dcpt)
    let s := Runs.exec (Cache.step cfg P) (Cache.initial cfg (Dcpt.initial, [])) sharedRun
    Runs.Guarded (Cache.step cfg P) (Cache.Enabled cfg) (Cache.initial cfg (Dcpt.initial, [])) sharedRun ∧
      (s.timingAccess cfg P (store 2 4096)).prefetcher.policy.2 = s.prefetcher.policy.2 ++
        [{ pc := 2, memAddr := 4096, time := 0, miss := false }] ∧
      (access cfg.geom s.tags s.mshrQueue s.curTick (store 2 4096)).satisfied = false := by
  decide +kernel

/-- A cache that tells the prefetcher of hits as well. -/
def tellingConfig : Config := { smallConfig 6 with prefetchOnAccess := true }

/-- The cache after the shared copy has come. -/
def sharedCache : Cache (Dcpt.State × List Dcpt.AccessStat) :=
  Runs.exec (Cache.step tellingConfig (proxy 0 (recording dcpt)))
    (Cache.initial tellingConfig (Dcpt.initial, [])) sharedRun

/-- A second load hits the shared copy, and is reported as a hit. -/
theorem miss_flag_secondLoad :
    let stat : Dcpt.AccessStat := { pc := 1, memAddr := 4096, time := 0, miss := false }
    let r := access smallGeometry sharedCache.tags sharedCache.mshrQueue sharedCache.curTick (load 1 4096)
    (r.satisfied = true ∧ r.blk.isSome = true) ∧
      (stat.miss = true ↔ ¬(r.satisfied = true ∧ r.blk.isSome = true)) := by
  have hs : sharedCache.Sound tellingConfig :=
    Runs.along_exec _ _ (Cache.run_sound tellingConfig _ _ sharedRun (by decide +kernel))
  exact ⟨by decide +kernel, (miss_flag_iff tellingConfig dcpt 0 sharedCache hs.tags (load 1 4096)
    { pc := 1, memAddr := 4096, time := 0, miss := false } (by decide +kernel)).1.2 (by decide +kernel)⟩

end PrefetchSim
