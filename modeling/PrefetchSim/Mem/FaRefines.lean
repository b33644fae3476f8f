import PrefetchSim.Mem.FaBoundaries

/- The two models of the fully associative store. In `FaLru` the list is a list and a mask a
   function; in `FaStore` they are what the code has. `Shows` ties the one to the other, so the
   stack, the blocks and the mapping are the same, and with them the masks and the boundaries
   (`Shows.masks`, `Shows.bounds`).

   Main result: every store of `FaLru` the cache gets to is shown by the pointers after some calls
   (`reachable_shown`). -/
namespace PrefetchSim

/-- The pointers show what the store of `FaLru` is. -/
structure FaStore.Shows (cfg : FaConfig) (s : FaStore) (t : FaLru) : Prop where
  accepted : s.Accepted (17 - cfg.blkBits)
  numCaches : s.numCaches = cfg.numCaches
  sound : t.Sound cfg
  tracked : s.Tracked t.order
  contents : ∀ f, (s.blks f).blk = (t.blks f).toCacheBlk
  tagHash : s.tagHash = t.tagHash

namespace FaStore

variable {cfg : FaConfig} {s : FaStore} {t : FaLru}

namespace Shows

theorem boundary_eq (h : s.Shows cfg t) (j : Nat) : s.capacity j - 1 = cfg.boundary j := by
  rw [h.accepted.capacity_eq]
  rfl

/-- The same boundaries. -/
theorem bounds (h : s.Shows cfg t) {j : Nat} (hj : j < cfg.numCaches) :
    s.cacheBoundaries j = some (t.cacheBoundaries j) := by
  obtain ⟨hmem, hidx⟩ := h.sound.bounds j hj
  rw [h.tracked.boundary_iff hmem (h.numCaches ▸ hj), hidx, h.boundary_eq]

/-- The same masks. -/
theorem masks (h : s.Shows cfg t) {f : Nat} (hf : f ∈ t.order) {j : Nat} (hj : j < cfg.numCaches) :
    (s.inCache f).getLsbD j = (t.blks f).inCache j := by
  rw [h.tracked.masks f hf, h.sound.masks f hf j hj, h.boundary_eq, h.numCaches]
  simp [hj]

theorem blkAlign (h : s.Shows cfg t) (addr : Addr) : s.blkAlign addr = cfg.blkAlign addr := by
  have hle := cfg.blkBits_le
  have hsize := h.accepted.blkSize
  have hbits : 17 - (17 - cfg.blkBits) = cfg.blkBits := by omega
  have hpos : 0 < 2 ^ cfg.blkBits := Nat.two_pow_pos _
  have hlt : 2 ^ cfg.blkBits < 2 ^ 32 := Nat.pow_lt_pow_right (by decide) (by omega)
  rw [hbits] at hsize
  unfold FaStore.blkAlign FaConfig.blkAlign FaConfig.blkSize
  generalize 2 ^ cfg.blkBits = n at *
  congr 2
  bv_omega

theorem found (h : s.Shows cfg t) (addr : Addr) : s.found addr = t.findBlock cfg addr := by
  unfold FaStore.found FaLru.findBlock hashLookup
  rw [h.tagHash, h.blkAlign]
  simp only [h.contents]

end Shows

/-! ## Calls -/

/-- A victim is touched from now on. -/
def touched (b : CacheBlk) : CacheBlk := if b.isValid then b else { b with isTouched := true }

theorem remap_contents (s : FaStore) (addr : Addr) (blk f : Nat) :
    ((s.remap addr blk).blks f).blk = if f = blk then touched (s.blks f).blk else (s.blks f).blk := by
  unfold remap touched
  dsimp only
  by_cases hvalid : (s.blks blk).blk.isValid = true
  · rw [if_pos hvalid]
    by_cases hf : f = blk
    · rw [if_pos hf, hf, if_pos hvalid]
    · rw [if_neg hf]
  · rw [if_neg hvalid]
    rw [setBlk_blk]
    by_cases hf : f = blk
    · rw [if_pos hf, if_pos hf, hf, if_neg hvalid]
    · rw [if_neg hf, if_neg hf]

theorem remap_tagHash (s : FaStore) (addr : Addr) (blk : Nat) : (s.remap addr blk).tagHash =
    Function.update (Function.update s.tagHash (s.blks blk).blk.tag none) (s.blkAlign addr) (some blk) := by
  unfold remap
  dsimp only
  split <;> rfl

end FaStore

namespace FaLru

variable {cfg : FaConfig} {t t' : FaLru} {addr : Addr} {blk : Nat}

theorem accessBlock_order (cfg : FaConfig) (t : FaLru) (addr : Addr) :
    (t.accessBlock cfg addr).order = FaStore.afterAccess t.order (t.findBlock cfg addr) := by
  unfold accessBlock
  cases t.findBlock cfg addr with
  | none => rfl
  | some f =>
    dsimp only
    split
    · rename_i hhead
      exact (Linked.cons_erase_of_head? hhead).symm
    · rfl

/-- An access only changes the order. -/
theorem accessBlock_rest (cfg : FaConfig) (t : FaLru) (addr : Addr) : (t.accessBlock cfg addr).tagHash = t.tagHash ∧
    ∀ f, ((t.accessBlock cfg addr).blks f).toCacheBlk = (t.blks f).toCacheBlk := by
  unfold accessBlock
  split
  · exact ⟨rfl, fun _ => rfl⟩
  · split <;> exact ⟨rfl, fun _ => rfl⟩

/-- What `findVictim` does. -/
theorem findVictim_eq (h : t.findVictim cfg addr = some (t', blk)) : t.order.getLast? = some blk ∧
    t'.order = blk :: t.order.erase blk ∧
    t'.tagHash = Function.update (Function.update t.tagHash (t.blks blk).tag none) (cfg.blkAlign addr) (some blk) ∧
    ∀ f, (t'.blks f).toCacheBlk =
      if f = blk then FaStore.touched (t.blks f).toCacheBlk else (t.blks f).toCacheBlk := by
  unfold findVictim at h
  cases hlast : t.order.getLast? with
  | none =>
    rw [hlast] at h
    cases h
  | some f =>
    rw [hlast] at h
    dsimp only at h
    split at h
    · cases h
    obtain ⟨rfl, rfl⟩ := Prod.mk.inj (Option.some.inj h)
    refine ⟨rfl, ?_, ?_, fun k => ?_⟩
    · split <;> rfl
    · split <;> rfl
    · by_cases hk : k = f
      · subst hk
        rw [if_pos rfl]
        split
        · rename_i hvalid
          exact (if_pos hvalid).symm
        · rename_i hvalid
          rw [modify_self]
          exact (if_neg hvalid).symm
      · rw [if_neg hk]
        split
        · rfl
        · rw [modify_of_ne _ hk]
          rfl

end FaLru

namespace FaStore

namespace Shows

variable {cfg : FaConfig} {s : FaStore} {t t' : FaLru} {addr : Addr}

theorem accessBlock (h : s.Shows cfg t) (addr : Addr) : ∃ s' mask, s.accessBlock addr =
      some (s', t.findBlock cfg addr, mask, s.hitLatency) ∧ s'.Shows cfg (t.accessBlock cfg addr) := by
  obtain ⟨s', hrun, htracked, hsame⟩ := h.tracked.accessBlock h.accepted addr
  obtain ⟨hhash, hcontents⟩ := t.accessBlock_rest cfg addr
  have hsound : (t.accessBlock cfg addr).Sound cfg := h.sound.call (c := .access addr) rfl
  rw [h.found] at hrun htracked
  refine ⟨s', _, hrun, hsame.params ▸ h.accepted, ?_, hsound, ?_, ?_, ?_⟩
  · rw [hsame.params, h.numCaches]
  · rwa [FaLru.accessBlock_order]
  · intro f
    rw [hsame.contents, hcontents, h.contents]
  · rw [hsame.tagHash, hhash, h.tagHash]

theorem findVictim (h : s.Shows cfg t) {blk : Nat} (hrun : t.findVictim cfg addr = some (t', blk)) :
    ∃ s', s.findVictim addr = some (s', blk) ∧ s'.Shows cfg t' := by
  obtain ⟨hlast, horder, hhash, hcontents⟩ := FaLru.findVictim_eq hrun
  have hsound : t'.Sound cfg := h.sound.call (c := .giveUp addr) (by rw [FaLru.call, hrun]; rfl)
  obtain ⟨s₁, blk', hrun', hlast', htracked, hsame⟩ := h.tracked.findVictim h.accepted addr
  obtain rfl := Option.some.inj (hlast'.symm.trans hlast)
  have hparams := (remap_params s₁ addr blk').trans hsame.params
  refine ⟨_, hrun', hparams ▸ h.accepted, ?_, hsound, horder ▸ htracked, ?_, ?_⟩
  · rw [hparams, h.numCaches]
  · intro f
    rw [remap_contents, hcontents, hsame.contents, h.contents]
  · have halign : s₁.blkAlign addr = cfg.blkAlign addr := by
      rw [← h.blkAlign addr, FaStore.blkAlign, FaStore.blkAlign, hsame.params]
    rw [remap_tagHash, hsame.tagHash, hsame.contents, halign, hhash, h.contents, h.tagHash]

/-- A write of the cache into one of its blocks. -/
theorem modify (h : s.Shows cfg t) (f : Nat) {g : FaBlk → FaBlk}
    (hg : ∀ b, (g b).tag = b.tag ∧ (g b).inCache = b.inCache) :
    (s.setBlk f (g (t.blks f)).toCacheBlk).Shows cfg (t.modify f g) := by
  refine ⟨h.accepted, h.numCaches, h.sound.modify f hg, h.tracked.setBlk f _, fun k => ?_, h.tagHash⟩
  rw [setBlk_blk]
  by_cases hk : k = f
  · rw [if_pos hk, hk, FaLru.modify_self]
  · rw [if_neg hk, FaLru.modify_of_ne t hk]
    exact h.contents k

theorem setStatus (h : s.Shows cfg t) (st : Status) (f : Nat) :
    (s.setBlk f { (t.blks f).toCacheBlk with status := { st with valid := true } }).Shows cfg (t.setStatus st f) :=
  h.modify f (g := fun b => { b with status := { st with valid := true } }) fun _ => ⟨rfl, rfl⟩

theorem invalidateBlk (h : s.Shows cfg t) (f : Nat) :
    (s.setBlk f { (t.blks f).toCacheBlk with status := {}, isTouched := false }).Shows cfg (t.invalidateBlk f) :=
  h.modify f (g := fun b => { b with status := {}, isTouched := false }) fun _ => ⟨rfl, rfl⟩

/-- Each call of the store of `FaLru` is a few calls of the one with pointers. -/
theorem call (h : s.Shows cfg t) {e : FaLru.Call} (hrun : t.call cfg e = some t') :
    ∃ (es : List Call) (s' : FaStore), es.foldlM FaStore.call s = some s' ∧ s'.Shows cfg t' := by
  cases e with
  | access addr =>
    obtain rfl := Option.some.inj hrun
    obtain ⟨s', mask, haccess, hshows⟩ := h.accessBlock addr
    refine ⟨[.accessBlock addr], s', ?_, hshows⟩
    rw [List.foldlM_cons, FaStore.call, haccess]
    rfl
  | fill addr =>
    obtain ⟨⟨t₁, blk⟩, hfill, rfl⟩ := Option.map_eq_some_iff.1 hrun
    obtain ⟨⟨t₂, blk₂⟩, hvictim, hrest⟩ := Option.bind_eq_some_iff.1 hfill
    obtain ⟨rfl, rfl⟩ := Prod.mk.inj (Option.some.inj hrest)
    obtain ⟨s', hs', hshows⟩ := h.findVictim hvictim
    let filled : CacheBlk := { (t₂.blks blk₂).toCacheBlk with status := { readable := true, valid := true } }
    refine ⟨[.findVictim addr, .write blk₂ filled], _, ?_, hshows.setStatus { readable := true } blk₂⟩
    rw [List.foldlM_cons, FaStore.call, hs']
    rfl
  | giveUp addr =>
    obtain ⟨⟨t₁, blk⟩, hvictim, rfl⟩ := Option.map_eq_some_iff.1 hrun
    obtain ⟨s', hs', hshows⟩ := h.findVictim hvictim
    refine ⟨[.findVictim addr], s', ?_, hshows⟩
    rw [List.foldlM_cons, FaStore.call, hs']
    rfl
  | setStatus addr st =>
    obtain rfl := Option.some.inj hrun
    cases t.findBlock cfg addr with
    | none => exact ⟨[], s, rfl, h⟩
    | some f => exact ⟨[.write f _], _, rfl, h.setStatus st f⟩
  | invalidate addr =>
    obtain rfl := Option.some.inj hrun
    cases t.findBlock cfg addr with
    | none => exact ⟨[], s, rfl, h⟩
    | some f => exact ⟨[.write f _], _, rfl, h.invalidateBlk f⟩

theorem calls (h : s.Shows cfg t) {es : List FaLru.Call} (hrun : es.foldlM (FaLru.call cfg) t = some t') :
    ∃ (es' : List Call) (s' : FaStore), es'.foldlM FaStore.call s = some s' ∧ s'.Shows cfg t' := by
  induction es generalizing s t with
  | nil =>
    obtain rfl := Option.some.inj hrun
    exact ⟨[], s, rfl, h⟩
  | cons e es ih =>
    rw [List.foldlM_cons] at hrun
    obtain ⟨t₁, hcall, hrest⟩ := Option.bind_eq_some_iff.1 hrun
    obtain ⟨es₁, s₁, hrun₁, h₁⟩ := h.call hcall
    obtain ⟨es₂, s₂, hrun₂, h₂⟩ := ih h₁ hrest
    refine ⟨es₁ ++ es₂, s₂, ?_, h₂⟩
    rw [List.foldlM_append, hrun₁]
    exact hrun₂

end Shows

/-! ## Construction -/

variable {raw : FaStore}

theorem constructRound_fresh {k k' : Construction} {i : Nat} (hfresh : ∀ f, (k.store.blks f).blk = {})
    (h : constructRound k i = some k') (f : Nat) : (k'.store.blks f).blk = {} := by
  have hlaid : ((k.store.laid i k.flags).blks f).blk = {} := by
    simp [laid, hfresh]
  unfold constructRound at h
  dsimp only at h
  split at h
  · split at h
    · obtain rfl := Option.some.inj h
      exact hlaid
    · cases h
  · obtain rfl := Option.some.inj h
    exact hlaid

/-- The blocks are as their own constructor leaves them. -/
theorem construct_fresh {blkSize size hitLatency : BitVec 32} (hfresh : ∀ f, (raw.blks f).blk = {})
    (h : construct raw blkSize size hitLatency = some s) (f : Nat) : (s.blks f).blk = {} := by
  unfold construct at h
  split at h
  · cases h
  dsimp only at h
  split at h
  · cases h
  obtain ⟨k, hloop, hend⟩ := Option.bind_eq_some_iff.1 h
  split at hend
  · obtain rfl := Option.some.inj hend
    refine Runs.foldlM_invariant (fun _ _ _ hk hround f => constructRound_fresh hk hround f) _ _ k (fun f => ?_) hloop f
    simp only [withEnds, setInCache_blk, setNext_blk, setPrev_blk]
    exact hfresh f
  · cases hend

/-- The constructor leaves the store of `FaLru`. -/
theorem construct_shows (cfg : FaConfig) (hn : cfg.numCaches ≤ 14) (hfresh : ∀ f, (raw.blks f).blk = {})
    {hitLatency : BitVec 32} (hlat : 0 < hitLatency) :
    ∃ s, construct raw (BitVec.twoPow 32 cfg.blkBits) (BitVec.twoPow 32 (17 + cfg.numCaches)) hitLatency = some s ∧
      s.Shows cfg (FaLru.initial cfg) := by
  obtain ⟨k, hrun, hbuilt, htwo, hblk, -, hcaches⟩ :=
    construct_small raw cfg.blkBits_le (Nat.le_add_right 17 cfg.numCaches) (by omega) hlat
  have hcaches' : k.store.numCaches = cfg.numCaches := by omega
  refine ⟨k.store, hrun, hbuilt.accepted, hcaches', FaLru.initial_sound cfg, ?_, construct_fresh hfresh hrun, ?_⟩
  · have hblocks : k.store.numBlocks = cfg.numBlocks := by
      rw [hbuilt.accepted.numBlocks, hcaches']
      rfl
    show k.store.Tracked (List.range cfg.numBlocks)
    exact hblocks ▸ hbuilt.tracked htwo
  · exact funext hbuilt.tagHash

/-- Whatever store of `FaLru` the cache gets to, the pointers show it. -/
theorem reachable_shown (cfg : FaConfig) (hn : cfg.numCaches ≤ 14) (hfresh : ∀ f, (raw.blks f).blk = {})
    {hitLatency : BitVec 32} (hlat : 0 < hitLatency) {t : FaLru} (ht : FaLru.Reachable cfg t) :
    ∃ (s₀ s : FaStore) (es : List Call),
      construct raw (BitVec.twoPow 32 cfg.blkBits) (BitVec.twoPow 32 (17 + cfg.numCaches)) hitLatency = some s₀ ∧
      es.foldlM call s₀ = some s ∧ s.Shows cfg t := by
  obtain ⟨calls, hcalls⟩ := ht
  obtain ⟨s₀, h₀, hshows₀⟩ := construct_shows cfg hn hfresh hlat
  obtain ⟨es, s, hrun, hshows⟩ := hshows₀.calls hcalls
  exact ⟨s₀, s, es, h₀, hrun, hshows⟩

end FaStore

end PrefetchSim
