import PrefetchSim.Mem.Misses
import PrefetchSim.Mem.Targets

/- What the bit `BlkHWPrefetched` of a block says.

   The bit is set in one place, in the target loop of `handleResponse`, for a target of
   the prefetcher; a fill and an invalidation take it away, and so does the first hit.
   But the loop also serves the requests that have joined the prefetch's entry, from the
   block it has just marked, and it marks whatever block it finds if the response is no
   fill. And the hit path asks for the bit after the request has been satisfied, when a
   block that was given up to the request has lost it.

   The copies in the frames are traced next to the cache (`Traced`): whether a hardware
   prefetch brought the copy in, and whether a demand request has been satisfied from it
   since. Proved here: in every run in which no demand request is served together with a
   prefetch, no prefetch that is answered without data finds its block, and no marked copy
   is given up to a request or written over by the acknowledgement of an upgrade, a valid
   block is marked if and only if it is a prefetched copy that has not been used, and
   `prefetchHits` counts every such copy when it is used first, and nothing else
   (`marked_iff_unused`). -/
namespace PrefetchSim

/-! ## Marked blocks -/

namespace Tags

variable {g : Geometry} {p : BlkPtr} {t t' t'' : Tags}

/-- The block in the frame keeps its mark, or is no longer valid and has none. -/
def Kept (p : BlkPtr) (t t' : Tags) : Prop :=
  ((t'.blks p).isValid = (t.blks p).isValid ∧ (t'.blks p).wasPrefetched = (t.blks p).wasPrefetched) ∨
    ((t'.blks p).isValid = false ∧ (t'.blks p).wasPrefetched = false)

theorem Kept.of_status (h : (t'.blks p).status = (t.blks p).status) : Kept p t t' :=
  .inl ⟨congrArg Status.valid h, congrArg Status.hwPrefetched h⟩

theorem Kept.of_blks (h : t'.blks = t.blks) : Kept p t t' := .of_status (by rw [h])

theorem Kept.refl (p : BlkPtr) (t : Tags) : Kept p t t := .of_blks rfl

theorem Kept.trans (h : Kept p t t') (h' : Kept p t' t'') : Kept p t t'' := by
  rcases h' with ⟨hvalid, hmark⟩ | hgone
  · rcases h with h | h
    · exact .inl ⟨hvalid.trans h.1, hmark.trans h.2⟩
    · exact .inr ⟨hvalid.trans h.1, hmark.trans h.2⟩
  · exact .inr hgone

theorem Kept.marked_before (h : Kept p t t') (hmark : (t'.blks p).wasPrefetched = true) :
    (t.blks p).wasPrefetched = true := by
  rcases h with ⟨-, hsame⟩ | ⟨-, hgone⟩
  · rw [← hsame, hmark]
  · rw [hmark] at hgone
    cases hgone

theorem Kept.unmarked (h : Kept p t t') (hclear : (t.blks p).wasPrefetched = false) :
    (t'.blks p).wasPrefetched = false := by
  rcases h with ⟨-, hsame⟩ | ⟨-, hgone⟩
  · rw [hsame, hclear]
  · exact hgone

theorem Kept.valid_before (h : Kept p t t') (hvalid : (t'.blks p).isValid = true) :
    (t.blks p).isValid = true ∧ (t'.blks p).wasPrefetched = (t.blks p).wasPrefetched := by
  rcases h with ⟨hsame, hmark⟩ | ⟨hgone, -⟩
  · exact ⟨hsame ▸ hvalid, hmark⟩
  · rw [hvalid] at hgone
    cases hgone

theorem kept_modify_of_ne (t : Tags) {ptr : BlkPtr} (f : CacheBlk → CacheBlk) (h : p ≠ ptr) :
    Kept p t (t.modify ptr f) :=
  .of_status (by rw [modify_of_ne t h])

/-- A write that neither makes a block valid nor marks it. -/
theorem kept_modify (p : BlkPtr) (t : Tags) {ptr : BlkPtr} {f : CacheBlk → CacheBlk}
    (hf : ((f (t.blks ptr)).isValid = (t.blks ptr).isValid ∧
        (f (t.blks ptr)).wasPrefetched = (t.blks ptr).wasPrefetched) ∨
      ((f (t.blks ptr)).isValid = false ∧ (f (t.blks ptr)).wasPrefetched = false)) :
    Kept p t (t.modify ptr f) := by
  by_cases h : p = ptr
  · subst h
    unfold Kept
    rwa [modify_self]
  · exact kept_modify_of_ne t f h

theorem kept_invalidateBlk (p : BlkPtr) (g : Geometry) (t : Tags) (ptr : BlkPtr) :
    Kept p t (t.invalidateBlk g ptr) :=
  (Kept.of_blks rfl : Kept p t (occupy g { t with tagsInUse := t.tagsInUse - 1 } _ _)).trans
    (kept_modify p _ (.inr ⟨rfl, rfl⟩))

theorem Quiet.kept (h : Quiet t t') (p : BlkPtr) : Kept p t t' := .of_status (h.status p)

theorem kept_insertBlock (p : BlkPtr) (g : Geometry) (t : Tags) (addr : Addr) (ptr : BlkPtr)
    (src : Option Nat) : Kept p t (t.insertBlock g addr ptr src) := by
  apply Kept.of_status
  rw [insertBlock_blks]
  by_cases h : p = ptr
  · subst h
    rw [Function.update_self]
  · rw [Function.update_of_ne h]

theorem kept_findVictim (p : BlkPtr) (g : Geometry) (t : Tags) (addr : Addr) :
    Kept p t (t.findVictim g addr).1 := by
  unfold findVictim
  dsimp only
  split
  · have hoccupy : Kept p t (occupy g t (t.blks (.frame (g.extractSet addr)
        ((t.ways (g.extractSet addr)).getLast?.getD 0))).contextSrc (-1)) := Kept.of_blks rfl
    apply hoccupy.trans
    dsimp only
    apply kept_modify
    exact .inl ⟨rfl, rfl⟩
  · exact .refl p t

end Tags

/-- A block that a request has been satisfied from keeps its mark unless it is given up. -/
theorem satisfiedBlk_kept {g : Geometry} {pkt : Packet} (hkeep : givesUp g pkt = false) (b : CacheBlk) :
    (satisfiedBlk g pkt b).isValid = b.isValid ∧ (satisfiedBlk g pkt b).wasPrefetched = b.wasPrefetched := by
  unfold satisfiedBlk CacheBlk.wasPrefetched CacheBlk.isValid
  dsimp only
  by_cases hswap : pkt.cmd = .swapReq
  · rw [if_pos hswap]
    split <;> exact ⟨rfl, rfl⟩
  rw [if_neg hswap]
  by_cases hwrite : pkt.cmd.isWrite = true
  · rw [if_pos hwrite]
    split <;> exact ⟨rfl, rfl⟩
  rw [if_neg hwrite]
  have hread : pkt.cmd.isRead = true ∧ (pkt.size = g.blkSize → pkt.cmd.needsExclusive = false) := by
    simpa [givesUp, hswap, hwrite] using hkeep
  rw [if_pos hread.1]
  by_cases hsize : pkt.size = g.blkSize
  · simp only [hsize, hread.2 hsize, if_true, Bool.false_eq_true, if_false]
    split <;> exact ⟨rfl, rfl⟩
  · rw [if_neg hsize]
    split <;> exact ⟨rfl, rfl⟩

open Tags in
theorem kept_satisfy (p : BlkPtr) (g : Geometry) (t : Tags) (ptr : BlkPtr) (pkt : Packet) :
    Kept p t (satisfyCpuSideRequest g t ptr pkt).1 := by
  unfold Kept
  rw [satisfy_blks]
  by_cases h : p = ptr
  · subst h
    rw [Function.update_self]
    cases hg : givesUp g pkt with
    | false => exact .inl (satisfiedBlk_kept hg _)
    | true =>
      rw [satisfiedBlk_gone hg]
      exact .inr ⟨rfl, rfl⟩
  · rw [Function.update_of_ne h]
    exact .inl ⟨rfl, rfl⟩

open Tags in
theorem kept_allocateBlock (p : BlkPtr) (g : Geometry) (t : Tags) (q : MshrQueue) (now : Tick) (addr : Addr) :
    Kept p t (allocateBlock g t q now addr).1 := by
  have hvictim := kept_findVictim p g t addr
  unfold allocateBlock
  dsimp only
  split
  · split
    · exact hvictim
    · split
      · refine hvictim.trans ?_
        dsimp only [writebackBlk]
        exact kept_modify p _ (.inl ⟨rfl, rfl⟩)
      · exact hvictim
  · exact hvictim

/-- What an access does to the marks. A writeback whose block is absent brings it in,
unmarked; every other block keeps its mark or goes. -/
structure AccessMarks (g : Geometry) (t : Tags) (pkt : Packet) (r : AccessResult) : Prop where
  found : ∀ ptr, t.findBlock g pkt.addr = some ptr →
    r.blk = some ptr ∧ (givesUp g pkt = false → (r.tags.blks ptr).wasPrefetched = (t.blks ptr).wasPrefetched)
  brought : t.findBlock g pkt.addr = none → ∀ ptr, r.blk = some ptr →
    r.satisfied = true ∧ (r.tags.blks ptr).wasPrefetched = false
  kept : ∀ p, (t.findBlock g pkt.addr = none → r.blk ≠ some p) → t.Kept p r.tags

open Tags in
theorem access_marks (g : Geometry) (t : Tags) (q : MshrQueue) (now : Tick) (pkt : Packet) :
    AccessMarks g t pkt (access g t q now pkt) := by
  have hquiet := t.accessBlock_quiet g now pkt.addr
  have hfound := t.accessBlock_found g now pkt.addr
  have hdata : ∀ p t₁ ptr, Kept p t₁ (acceptWriteback t₁ ptr pkt) :=
    fun p t₁ ptr => kept_modify p t₁ (.inl ⟨rfl, rfl⟩)
  unfold access
  generalize t.accessBlock g now pkt.addr = acc at hquiet hfound ⊢
  obtain ⟨t₁, lat, blk⟩ := acc
  dsimp only at hquiet hfound ⊢
  have hsame : ∀ p, (t₁.blks p).wasPrefetched = (t.blks p).wasPrefetched :=
    fun p => congrArg Status.hwPrefetched (hquiet.status p)
  cases blk with
  | some ptr =>
    have hthere : ∀ {P : Prop}, t.findBlock g pkt.addr = none → P := by
      intro P habsent
      rw [habsent] at hfound
      cases hfound
    dsimp only
    split
    · refine ⟨fun ptr' h' => ?_, fun h => hthere h, fun p _ => (hquiet.kept p).trans (kept_satisfy p g t₁ ptr pkt)⟩
      obtain rfl : ptr = ptr' := Option.some.inj (hfound.trans h')
      refine ⟨rfl, fun hkeep => ?_⟩
      dsimp only
      rw [satisfy_blks, Function.update_self, (satisfiedBlk_kept hkeep _).2, hsame]
    · split
      · refine ⟨fun ptr' h' => ?_, fun h => hthere h, fun p _ => (hquiet.kept p).trans (hdata p t₁ ptr)⟩
        obtain rfl : ptr = ptr' := Option.some.inj (hfound.trans h')
        refine ⟨rfl, fun _ => ?_⟩
        dsimp only [acceptWriteback]
        rw [modify_self]
        exact hsame ptr
      · exact ⟨fun ptr' h' => ⟨hfound.trans h', fun _ => hsame ptr'⟩, fun h => hthere h, fun p _ => hquiet.kept p⟩
  | none =>
    have habsent : ∀ {P : Prop} {ptr}, t.findBlock g pkt.addr = some ptr → P := by
      intro P ptr h
      rw [h] at hfound
      cases hfound
    dsimp only
    split
    · have halloc := fun p => (hquiet.kept p).trans (kept_allocateBlock p g t₁ q now pkt.addr)
      generalize allocateBlock g t₁ q now pkt.addr = a at halloc ⊢
      obtain ⟨t₂, _ | ptr, wbs⟩ := a
      · exact ⟨fun _ h => habsent h, fun _ _ h => absurd h (by simp), fun p _ => halloc p⟩
      · refine ⟨fun _ h => habsent h, fun _ ptr' h => ⟨rfl, ?_⟩, fun p hp => ?_⟩
        · obtain rfl : ptr = ptr' := Option.some.inj h
          dsimp only [acceptWriteback]
          rw [modify_self, modify_self]
          rfl
        · have hne : p ≠ ptr := by
            rintro rfl
            exact hp hfound.symm rfl
          exact (halloc p).trans ((kept_insertBlock p g t₂ pkt.addr ptr pkt.req.contextId).trans
            ((kept_modify_of_ne _ _ hne).trans (hdata p _ ptr)))
    · split <;> exact ⟨fun _ h => habsent h, fun _ _ h => absurd h (by simp), fun p _ => hquiet.kept p⟩

open Tags in
/-- A fill leaves the block it fills unmarked. -/
theorem handleFill_marks (g : Geometry) (t : Tags) (q : MshrQueue) (now : Tick) (pkt : Packet)
    (blk : Option BlkPtr) : let r := handleFill g t q now pkt blk
    (∀ p, p ≠ r.2.1 → Kept p t r.1) ∧ (r.1.blks r.2.1).wasPrefetched = false := by
  unfold handleFill
  cases blk with
  | some ptr =>
    dsimp only
    refine ⟨fun p hp => kept_modify_of_ne t _ hp, ?_⟩
    rw [modify_self]
    rfl
  | none =>
    have halloc := fun p => kept_allocateBlock p g t q now pkt.addr
    generalize allocateBlock g t q now pkt.addr = a at halloc ⊢
    obtain ⟨t₁, _ | ptr, wbs⟩ := a
    · dsimp only at halloc ⊢
      refine ⟨fun p hp => (halloc p).trans ((kept_modify_of_ne _ _ hp).trans (kept_modify_of_ne _ _ hp)), ?_⟩
      rw [modify_self]
      rfl
    · dsimp only at halloc ⊢
      refine ⟨fun p hp => (halloc p).trans ((kept_insertBlock p g t₁ pkt.addr ptr pkt.req.contextId).trans
        (kept_modify_of_ne _ _ hp)), ?_⟩
      rw [modify_self]
      rfl

theorem kept_stays (cfg : Config) (p : BlkPtr) (t : Tags) : Cache.Stays cfg (t.Kept p) where
  status _ _ hf h := h.trans (Tags.kept_modify p _ (.inl (hf _)))
  invalidate ptr h := h.trans (Tags.kept_invalidateBlk p cfg.geom _ ptr)

section Targets

variable {σ : Type} (cfg : Config) (P : Policy σ) (a : Answer) {p : BlkPtr}

/-- One target: only a prefetch marks, and only the block of the response. -/
theorem serviceTarget_kept (s : Service σ) {target : Target}
    (h : a.blk = some p → target.source ≠ .fromPrefetcher) :
    s.tags.Kept p (serviceTarget cfg P a s target).tags := by
  unfold serviceTarget
  cases hsrc : target.source with
  | fromCPU =>
    dsimp only
    unfold serviceCpu
    split
    · cases a.blk with
      | some ptr => exact kept_satisfy p cfg.geom s.tags ptr target.pkt
      | none => exact .refl p _
    · split <;> exact .refl p _
  | fromSnoop => exact (kept_stays cfg p _).handleSnoop (.refl p _) ..
  | fromPrefetcher =>
    dsimp only
    cases hblk : a.blk with
    | none => exact .refl p _
    | some ptr =>
      have hne : p ≠ ptr := by
        rintro rfl
        exact h hblk hsrc
      dsimp only
      exact Tags.kept_modify_of_ne s.tags _ hne

theorem serviceTargets_kept {ts : List Target} (s : Service σ)
    (h : a.blk = some p → ∀ t ∈ ts, t.source ≠ .fromPrefetcher) :
    s.tags.Kept p (ts.foldl (serviceTarget cfg P a) s).tags := by
  induction ts generalizing s with
  | nil => exact .refl p _
  | cons t ts ih =>
    have hhead := serviceTarget_kept cfg P a s fun hblk => h hblk t (List.mem_cons_self ..)
    exact hhead.trans (ih _ fun hblk t' ht' => h hblk t' (List.mem_cons_of_mem _ ht'))

/-- The block of a response that serves a prefetch is marked, if it is still valid. -/
theorem serviceTargets_marked {ts : List Target} (s : Service σ) (hblk : a.blk = some p)
    (hpf : ∃ t ∈ ts, t.source = .fromPrefetcher)
    (hvalid : ((ts.foldl (serviceTarget cfg P a) s).tags.blks p).isValid = true) :
    ((ts.foldl (serviceTarget cfg P a) s).tags.blks p).wasPrefetched = true := by
  induction ts generalizing s with
  | nil => simp at hpf
  | cons t ts ih =>
    by_cases htail : ∃ t' ∈ ts, t'.source = .fromPrefetcher
    · exact ih _ htail hvalid
    · -- the prefetch is served first, and what follows leaves the mark
      have hsrc : t.source = .fromPrefetcher := by
        obtain ⟨t', ht', hsrc⟩ := hpf
        rcases List.mem_cons.1 ht' with rfl | ht'
        · exact hsrc
        · exact absurd ⟨t', ht', hsrc⟩ htail
      have hmark : ((serviceTarget cfg P a s t).tags.blks p).wasPrefetched = true := by
        unfold serviceTarget
        simp only [hsrc, hblk]
        rw [Tags.modify_self]
        rfl
      have hnone : ∀ t' ∈ ts, t'.source ≠ .fromPrefetcher := fun t' ht' hsrc' => htail ⟨t', ht', hsrc'⟩
      have hrest := serviceTargets_kept cfg P a (serviceTarget cfg P a s t) (fun (_ : a.blk = some p) => hnone)
      exact (hrest.valid_before hvalid).2.trans hmark

end Targets

/-! ## Prefetches come first in their entries -/

/-- Only the first target can be one of the prefetcher. -/
def Mshr.PrefetchFirst (m : Mshr) : Prop :=
  ∀ t ∈ m.targets.list.tail ++ m.deferredTargets.list, t.source ≠ .fromPrefetcher

theorem mem_tail_append {α : Type} {l l' : List α} {x : α} (h : x ∈ (l ++ l').tail) : x ∈ l.tail ∨ x ∈ l' := by
  cases l with
  | nil => exact .inr (List.mem_of_mem_tail h)
  | cons y l => exact List.mem_append.1 h

theorem prefetchFirst_invariant (new : Entering) : EntryInvariant new .mshrs Mshr.PrefetchFirst where
  allocate m addr size pkt time order hm _ _ := by
    intro t ht
    simp [Mshr.allocate, TargetList.add, hm.targets, hm.deferred] at ht
  target _ m pkt time order _ _ h := by
    intro t ht
    unfold Mshr.allocateTarget at ht
    have hmem : t ∈ m.targets.list.tail ++ m.deferredTargets.list ∨ t.source = .fromCPU := by
      split at ht
      · simp only [TargetList.add, List.mem_append, List.mem_singleton] at ht ⊢
        rcases ht with ht | ht | rfl
        · exact .inl (.inl ht)
        · exact .inl (.inr ht)
        · exact .inr rfl
      · simp only [TargetList.add, List.mem_append] at ht ⊢
        rcases ht with ht | ht
        · rcases mem_tail_append ht with ht | ht
          · exact .inl (.inl ht)
          · rw [List.mem_singleton.1 ht]
            exact .inr rfl
        · exact .inl (.inr ht)
    rcases hmem with hmem | hsrc
    · exact h t hmem
    · simp [hsrc]
  snoop _ m now pkt order _ h := by
    obtain ⟨b, extra, ht, he, hd⟩ := m.handleSnoop_lists now pkt order
    have htail : ∀ t ∈ (Mshr.replaceIf b m.targets).list.tail, t.source ≠ .fromPrefetcher := by
      intro t hmem
      have hmem' : t.source ∈ (m.targets.list.map Target.source).tail := by
        rw [← Mshr.replaceIf_sources b, ← List.map_tail]
        exact List.mem_map_of_mem hmem
      rw [← List.map_tail, List.mem_map] at hmem'
      obtain ⟨t', ht', hsrc⟩ := hmem'
      rw [← hsrc]
      exact h t' (List.mem_append_left _ ht')
    intro t hmem
    rw [ht, hd, List.mem_append] at hmem
    rcases hmem with hmem | hmem
    · rcases mem_tail_append hmem with hmem | hmem
      · exact htail t hmem
      · simp [(he t hmem).1]
    · obtain ⟨t', ht', hsame⟩ := Mshr.mem_replaceIf hmem
      rw [hsame.source]
      exact h t' (List.mem_append_right _ ht')
  flags m _ _ h := h
  sent m _ _ h := h
  bail m target _ _ _ h := by
    intro t ht
    apply h t
    simp only [Mshr.popTarget, List.mem_append] at ht ⊢
    exact ht.imp_left List.mem_of_mem_tail
  finish m r now hfill h hprom t ht :=
    h t (List.mem_append_right _ (mem_promoted hfill hprom
      (List.mem_append.2 ((List.mem_append.1 ht).imp_left List.mem_of_mem_tail))))

/-! ## What a step marks -/

namespace Cache

variable {σ : Type} {cfg : Config} {P : Policy σ} {s : Cache σ}

/-- `is_fill && !is_error`. -/
def fills (s : Cache σ) (m : MshrRef) (pkt : Packet) : Bool :=
  s.isFill m pkt && !pkt.cmd.isError

/-- The block a response fills. -/
def filledBlk (cfg : Config) (s : Cache σ) (m : MshrRef) (pkt : Packet) : BlkPtr :=
  (PrefetchSim.handleFill cfg.geom s.tags s.mshrQueue s.curTick ((s.register m).handleFill pkt).2
    (s.tags.findBlock cfg.geom pkt.addr)).2.1

/-- The targets a response that is a fill serves. -/
def servedTargets (s : Cache σ) (m : MshrRef) (pkt : Packet) : List Target :=
  ((s.register m).handleFill pkt).1.targets.list

section

variable (m : MshrRef) (pkt : Packet) (s : Cache σ)

theorem clearNoTarget_register : (s.clearNoTarget m).register m = s.register m := by
  rw [register, clearNoTarget_queue, register]

theorem clearNoTarget_isFill : (s.clearNoTarget m).isFill m pkt = s.isFill m pkt := by
  rw [isFill, clearNoTarget_register, isFill]

theorem clearNoTarget_fills : (s.clearNoTarget m).fills m pkt = s.fills m pkt := by
  rw [fills, clearNoTarget_isFill, fills]

end

/-- What a response does to the mark of the block in a frame: one it fills is marked if a
prefetch is served, and another one only if the response is no fill, serves a prefetch and
finds the block. -/
structure ResponseMarks (cfg : Config) (s : Cache σ) (m : MshrRef) (pkt : Packet) (p : BlkPtr) (t' : Tags) :
    Prop where
  other : s.fills m pkt = true → p ≠ s.filledBlk cfg m pkt → s.tags.Kept p t'
  demanded : s.fills m pkt = true → p = s.filledBlk cfg m pkt →
    (∀ t ∈ s.servedTargets m pkt, t.source ≠ .fromPrefetcher) → (t'.blks p).wasPrefetched = false
  prefetched : s.fills m pkt = true → p = s.filledBlk cfg m pkt →
    (∃ t ∈ s.servedTargets m pkt, t.source = .fromPrefetcher) →
      (t'.blks p).isValid = true → (t'.blks p).wasPrefetched = true
  unfilled : s.fills m pkt = false →
    (pkt.cmd ≠ .networkNackError → s.tags.findBlock cfg.geom pkt.addr = some p →
      ∀ t ∈ (s.register m).targets.list, t.source ≠ .fromPrefetcher) → s.tags.Kept p t'

theorem ResponseMarks.trans {m : MshrRef} {pkt : Packet} {p : BlkPtr} {t t' : Tags}
    (h : s.ResponseMarks cfg m pkt p t) (hkept : t.Kept p t') : s.ResponseMarks cfg m pkt p t' where
  other hf hp := (h.other hf hp).trans hkept
  demanded hf hp hts := hkept.unmarked (h.demanded hf hp hts)
  prefetched hf hp hts hvalid := by
    obtain ⟨hvalid', hsame⟩ := hkept.valid_before hvalid
    rw [hsame, h.prefetched hf hp hts hvalid']
  unfilled hf hts := (h.unfilled hf hts).trans hkept

theorem responseMarks_stays (cfg : Config) (s : Cache σ) (m : MshrRef) (pkt : Packet) (p : BlkPtr) :
    Stays cfg (s.ResponseMarks cfg m pkt p) where
  status ptr f hf h := h.trans ((kept_stays cfg p _).status ptr f hf (.refl p _))
  invalidate ptr h := h.trans (Tags.kept_invalidateBlk p cfg.geom _ ptr)

theorem answer_marks (m : MshrRef) {pkt : Packet} (hnack : pkt.cmd ≠ .networkNackError)
    (upward : Nat → SnoopAnswer) (s : Cache σ) (p : BlkPtr) :
    s.ResponseMarks cfg m pkt p (s.answer cfg P m pkt upward).1.tags := by
  unfold answer answerOf fill
  cases hf : s.fills m pkt with
  | true =>
    have hf' : (s.isFill m pkt && !pkt.cmd.isError) = true := hf
    simp only [hf', if_true]
    obtain ⟨hother, hclear⟩ := handleFill_marks cfg.geom s.tags s.mshrQueue s.curTick
      ((s.register m).handleFill pkt).2 (s.tags.findBlock cfg.geom pkt.addr)
    refine (responseMarks_stays cfg s m pkt p).retire ?_ m _ _
    have hreg : ({ s.setRegister m ((s.register m).handleFill pkt).1 with
        tags := (PrefetchSim.handleFill cfg.geom s.tags s.mshrQueue s.curTick
          ((s.register m).handleFill pkt).2 (s.tags.findBlock cfg.geom pkt.addr)).1 } :
        Cache σ).register m = ((s.register m).handleFill pkt).1 := by
      refine Eq.trans ?_ (register_setRegister s m _)
      obtain ⟨_ | _, i⟩ := m <;> rfl
    unfold serviceTargets
    rw [hreg]
    refine ⟨fun _ hp => (hother p hp).trans (serviceTargets_kept cfg P _ _ fun hblk => ?_),
      fun _ hp hts => ?_, fun _ hp hts => ?_, fun hc => absurd (hf.symm.trans hc) (by simp)⟩
    · exact absurd (Option.some.inj hblk).symm hp
    · subst hp
      exact (serviceTargets_kept cfg P _ _ fun _ => hts).unmarked hclear
    · subst hp
      exact serviceTargets_marked cfg P _ _ rfl hts
  | false =>
    have hf' : ¬(s.isFill m pkt && !pkt.cmd.isError) = true := by
      rw [Bool.not_eq_true]
      exact hf
    simp only [hf']
    refine (responseMarks_stays cfg s m pkt p).retire ?_ m _ _
    refine ⟨fun hc => absurd (hf.symm.trans hc) (by simp), fun hc => absurd (hf.symm.trans hc) (by simp),
      fun hc => absurd (hf.symm.trans hc) (by simp), fun _ hts => ?_⟩
    exact serviceTargets_kept cfg P _ _ (hts hnack)

theorem handleResponse_marks (m : MshrRef) (pkt : Packet) (upward : Nat → SnoopAnswer) (s : Cache σ) (p : BlkPtr) :
    s.ResponseMarks cfg m pkt p (s.handleResponse cfg P m pkt upward).tags := by
  unfold handleResponse
  dsimp only
  split
  · rename_i hnack
    have hnofill : s.fills m pkt ≠ true := by
      simp [fills, hnack, MemCmd.isError, MemCmd.testCmdAttrib, MemCmd.attributes]
    exact ⟨fun hf => absurd hf hnofill, fun hf => absurd hf hnofill, fun hf => absurd hf hnofill,
      fun _ _ => .refl p _⟩
  · rename_i hnack
    refine (responseMarks_stays cfg s m pkt p).clearTemp ?_ _ _
    rw [copyWritebacks_tags]
    obtain ⟨hother, hdemanded, hprefetched, hunfilled⟩ :
        (s.clearNoTarget m).ResponseMarks cfg m pkt p ((s.clearNoTarget m).answer cfg P m pkt upward).1.tags :=
      answer_marks m hnack upward (s.clearNoTarget m) p
    -- the entry's part of a response reads nothing that `clearNoTarget` changes
    have hq : (s.clearNoTarget m).mshrQueue = s.mshrQueue := clearNoTarget_queue m s .mshrs
    have hblk : (s.clearNoTarget m).filledBlk cfg m pkt = s.filledBlk cfg m pkt := by
      rw [filledBlk, clearNoTarget_register, hq, clearNoTarget_tags, clearNoTarget_curTick, filledBlk]
    have hserved : (s.clearNoTarget m).servedTargets m pkt = s.servedTargets m pkt := by
      rw [servedTargets, clearNoTarget_register, servedTargets]
    rw [clearNoTarget_fills] at hother hdemanded hprefetched hunfilled
    rw [hblk] at hother hdemanded hprefetched
    rw [hserved] at hdemanded hprefetched
    rw [clearNoTarget_tags] at hother hunfilled
    rw [clearNoTarget_register] at hunfilled
    exact ⟨hother, hdemanded, hprefetched, hunfilled⟩

/-! ## Requests from the CPU side -/

/-- A block that satisfies a request is not marked afterwards. -/
theorem hitPath_unmarked (r : AccessResult) (time : Tick) (s : Cache σ) {ptr : BlkPtr} (h : r.blk = some ptr) :
    ((s.hitPath cfg P r time).tags.blks ptr).wasPrefetched = false := by
  rw [hitPath_tags, h]
  dsimp only
  split
  · rw [Tags.modify_self]
    rfl
  · rename_i hskip
    simpa [prefetchHit] using (Bool.or_eq_false_iff.1 (Bool.not_eq_true _ ▸ hskip)).2

theorem kept_hitPath {p : BlkPtr} {r : AccessResult} (time : Tick) (s : Cache σ) (h : r.blk ≠ some p) :
    s.tags.Kept p (s.hitPath cfg P r time).tags := by
  rw [hitPath_tags]
  cases hblk : r.blk with
  | none => exact .refl p _
  | some ptr =>
    dsimp only
    split
    · refine Tags.kept_modify_of_ne _ _ ?_
      rintro rfl
      exact h hblk
    · exact .refl p _

/-- A packet of the CPU side leaves the marks alone, but for the block that satisfies it. -/
theorem cpuRecvTiming_marks (pkt : Packet) (s : Cache σ) (p : BlkPtr) :
    (∃ r ∈ s.accessOf cfg pkt, r.satisfied = true ∧ r.blk = some p ∧
        ((s.cpuRecvTiming cfg P pkt).tags.blks p).wasPrefetched = false) ∨
      (∀ r ∈ s.accessOf cfg pkt, r.satisfied = true → r.blk ≠ some p) ∧
        s.tags.Kept p (s.cpuRecvTiming cfg P pkt).tags := by
  rw [cpuRecvTiming_tags]
  cases hmade : s.accessOf cfg pkt with
  | none => exact .inr ⟨by simp, .refl p _⟩
  | some r =>
    have hmarks := access_marks cfg.geom s.tags s.mshrQueue s.curTick pkt
    rw [← accessOf_eq hmade] at hmarks
    simp only [Option.mem_some_iff, forall_eq', exists_eq_left']
    cases hsat : r.satisfied with
    | true =>
      simp only [if_true]
      by_cases hblk : r.blk = some p
      · exact .inl ⟨trivial, hblk, hitPath_unmarked r _ _ hblk⟩
      · exact .inr ⟨fun _ => hblk, (hmarks.kept p fun _ => hblk).trans
          (kept_hitPath _ { s with tags := r.tags } hblk)⟩
    | false =>
      simp only [Bool.false_eq_true, if_false]
      refine .inr ⟨fun hc => hc.elim, ?_⟩
      have hkept : s.tags.Kept p r.tags := hmarks.kept p fun habsent hblk => by
        have hc := (hmarks.brought habsent p hblk).1
        rw [hsat] at hc
        cases hc
      exact (kept_stays cfg p _).missPath (s := { s with tags := r.tags }) hkept ..

/-! ## Sending -/

/-- The invariant behind the bit: prefetches are first in their entries. -/
structure PrefetchesFirst (cfg : Config) (s : Cache σ) : Prop where
  sound : s.Sound cfg
  sourced : ∀ i ∈ s.mshrQueue.allocatedList, (s.mshrQueue.registers i).Sourced
  first : ∀ i ∈ s.mshrQueue.allocatedList, (s.mshrQueue.registers i).PrefetchFirst

theorem Micro.prefetchesFirst {ok : Allowed σ} {s' : Cache σ}
    (h : Micro cfg P ok s s') (hs : s.PrefetchesFirst cfg) : s'.PrefetchesFirst cfg where
  sound := h.sound hs.sound
  sourced := (h.queueStep .mshrs).entries (sourced_invariant _) (hs.sound.queues .mshrs) hs.sourced
  first := (h.queueStep .mshrs).entries (prefetchFirst_invariant _) (hs.sound.queues .mshrs) hs.first

theorem step_prefetchesFirst (hs : s.PrefetchesFirst cfg) {a : Action} (he : s.Enabled cfg a) :
    (s.step cfg P a).PrefetchesFirst cfg := by
  have hmicros : Micros cfg P {} s (s.step cfg P a) := step_micros_any hs.sound he
  exact invariant_of_micro (fun _ _ h hs => h.prefetchesFirst hs) hmicros hs

/-- An entry whose first target is no prefetch serves none. -/
theorem PrefetchesFirst.none_served (hs : s.PrefetchesFirst cfg) {m : MshrRef} {target : Target}
    (hm : m.2 ∈ (s.queue m.1).allocatedList) (hfirst : (s.register m).getTarget = some target)
    (hcmd : target.pkt.cmd ≠ .hardPFReq) : ∀ t ∈ (s.register m).targets.list, t.source ≠ .fromPrefetcher := by
  intro t ht
  obtain ⟨_ | _, i⟩ := m
  · have hcons : (s.mshrQueue.registers i).targets.list =
        target :: (s.mshrQueue.registers i).targets.list.tail :=
      List.eq_cons_of_mem_head? hfirst
    have hmem : t = target ∨ t ∈ (s.mshrQueue.registers i).targets.list.tail := by
      apply List.mem_cons.1
      rw [← hcons]
      exact ht
    rcases hmem with rfl | htail
    · rw [Ne, hs.sourced i hm t (List.mem_append_left _ ht)]
      exact hcmd
    · exact hs.first i hm t (List.mem_append_left _ htail)
  · obtain ⟨-, t', ht', hsrc, -⟩ := hs.sound.writes i hm
    rw [show (s.register (.writeBuffer, i)).targets.list = [t'] from ht', List.mem_singleton] at ht
    rw [ht, hsrc]
    decide

/-- The invariant holds when the entry is chosen. -/
theorem PrefetchesFirst.next (P : Policy σ) (hs : s.PrefetchesFirst cfg) {c : Cache σ} {m : MshrRef}
    (h : s.getNextMSHR cfg = (c, some m)) : m.2 ∈ (c.queue m.1).allocatedList ∧ c.PrefetchesFirst cfg := by
  have hnext := Cache.next P {} hs.sound.free h
  have hc : c.PrefetchesFirst cfg := by
    cases hnext with
    | waiting => exact hs
    | prefetch _ _ _ hmicros =>
      exact invariant_of_micro (fun _ _ h hs => h.prefetchesFirst hs) (hmicros fun _ => trivial) hs
  exact ⟨((hc.sound.queues m.1).mem_ready.1 hnext.ready).1, hc⟩

/-- What the cache sends marks nothing: it answers no prefetch itself. -/
theorem kept_sendPacket (hs : s.PrefetchesFirst cfg) (accept : Bool) (upward : Nat → SnoopAnswer) (p : BlkPtr) :
    s.tags.Kept p (s.sendPacket cfg P accept upward).tags := by
  rcases sendPacket_tags cfg P accept upward s with hsame | ⟨c, m, target, pkt, hnext, hfirst, hcmd, hpkt, heq⟩
  · exact .of_blks (by rw [hsame])
  · have htags : (s.getNextMSHR cfg).1.tags = s.tags := getNextMSHR_tags cfg s
    obtain ⟨hmem, hfirsts⟩ := hs.next P hnext
    rw [hnext] at htags
    have hnone := hfirsts.none_served hmem hfirst (by rw [hcmd]; decide)
    -- the answer to a failed upgrade is no fill
    have hnofill : c.fills m pkt = false := by
      simp [fills, isFill, hpkt, MemCmd.isRead, MemCmd.testCmdAttrib, MemCmd.attributes]
    rw [heq, ← htags]
    exact (handleResponse_marks m pkt upward c p).unfilled hnofill fun _ _ => hnone

end Cache

/-! ## Copies -/

/-- What is known of the copy in a frame. -/
structure Copy where
  /-- a hardware prefetch that has completed brought it in -/
  prefetched : Bool := false
  /-- a demand request has been satisfied from it -/
  used : Bool := false
  deriving DecidableEq, Repr

/-- Prefetched, and not yet used. -/
def Copy.isUnused (c : Copy) : Bool := c.prefetched && !c.used

/-- What happens to the copy in a frame. -/
inductive CopyEvent where
  | brought (ptr : BlkPtr) (prefetched : Bool)
  | demand (ptr : BlkPtr)
  deriving DecidableEq

namespace CopyEvent

def blk : CopyEvent → BlkPtr
  | .brought ptr _ => ptr
  | .demand ptr => ptr

def record (c : BlkPtr → Copy) : CopyEvent → BlkPtr → Copy
  | .brought ptr prefetched => Function.update c ptr { prefetched, used := false }
  | .demand ptr => Function.update c ptr { c ptr with used := true }

/-- The frames whose prefetched copies are used for the first time, in the order of the
events. -/
def firstUses : (BlkPtr → Copy) → List CopyEvent → List BlkPtr
  | _, [] => []
  | c, .brought ptr prefetched :: es => firstUses (record c (.brought ptr prefetched)) es
  | c, .demand ptr :: es =>
    let rest := firstUses (record c (.demand ptr)) es
    if (c ptr).isUnused then ptr :: rest else rest

theorem record_of_ne {c : BlkPtr → Copy} {p : BlkPtr} {es : List CopyEvent} (h : ∀ e ∈ es, p ≠ e.blk) :
    es.foldl record c p = c p := by
  induction es generalizing c with
  | nil => rfl
  | cons e es ih =>
    rw [List.foldl_cons, ih fun e' he' => h e' (List.mem_cons_of_mem _ he')]
    have hne := h e (List.mem_cons_self ..)
    cases e <;> exact Function.update_of_ne hne ..

/-- A copy that is used, or that no prefetch has brought in, stays so while it is asked for. -/
theorem demands_of_used {c : BlkPtr → Copy} {ptr : BlkPtr} (h : (c ptr).isUnused = false)
    {es : List CopyEvent} (hes : ∀ e ∈ es, e = .demand ptr) :
    firstUses c es = [] ∧ (es.foldl record c ptr).isUnused = false := by
  induction es generalizing c with
  | nil => exact ⟨rfl, h⟩
  | cons e es ih =>
    obtain rfl := hes e (List.mem_cons_self ..)
    have hused : (record c (.demand ptr) ptr).isUnused = false := by simp [record, Copy.isUnused]
    have hrest := ih hused fun e' he' => hes e' (List.mem_cons_of_mem _ he')
    exact ⟨by simp [firstUses, h, hrest.1], hrest.2⟩

end CopyEvent

namespace Cache

variable {σ : Type} {cfg : Config} {P : Policy σ} {s : Cache σ}

/-- A request that is satisfied at once uses the copy, which a writeback may have brought in
itself; a fill brings a copy in, unless it is the acknowledgement of an upgrade, and then
serves the requests that have waited for it. -/
def copyEvents (cfg : Config) (s : Cache σ) : Action → List CopyEvent
  | .cpuPacket pkt =>
    match s.accessOf cfg pkt with
    | some { satisfied := true, blk := some ptr, .. } =>
      if (s.tags.findBlock cfg.geom pkt.addr).isSome then [.demand ptr]
      else [.brought ptr false, .demand ptr]
    | _ => []
  | .response m pkt _ =>
    if s.fills m pkt then
      let ptr := s.filledBlk cfg m pkt
      let ts := s.servedTargets m pkt
      let demands := (ts.filter fun t => t.source == .fromCPU).map fun _ => CopyEvent.demand ptr
      if pkt.cmd.isRead || (s.tags.findBlock cfg.geom pkt.addr).isNone then
        .brought ptr (ts.any fun t => t.source == .fromPrefetcher) :: demands
      else demands
    else []
  | _ => []

/-- The frame whose prefetch `prefetchHits` counts as used in this step. -/
def countedHit (cfg : Config) (s : Cache σ) : Action → Option BlkPtr
  | .cpuPacket pkt =>
    match s.accessOf cfg pkt with
    | some { satisfied := true, blk := some ptr, tags, .. } =>
      if (tags.blks ptr).wasPrefetched then some ptr else none
    | _ => none
  | _ => none

/-- No demand request is served together with a prefetch, which is answered with data; and
a prefetch that is answered otherwise does not find its block. -/
def PrefetchAlone (cfg : Config) (s : Cache σ) : Action → Prop
  | .response m pkt _ =>
    if s.fills m pkt then (∃ t ∈ s.servedTargets m pkt, t.source = .fromPrefetcher) →
      (pkt.cmd.isRead = true ∨ s.tags.findBlock cfg.geom pkt.addr = none) ∧
        ∀ t ∈ s.servedTargets m pkt, t.source ≠ .fromCPU
    else pkt.cmd ≠ .networkNackError →
      (∃ t ∈ (s.register m).targets.list, t.source = .fromPrefetcher) →
        s.tags.findBlock cfg.geom pkt.addr = none
  | _ => True

/-- No mark is lost before the hit path can ask for it: a marked block is not given up to
the request it satisfies, and the acknowledgement of an upgrade finds none. -/
def MarkAsked (cfg : Config) (s : Cache σ) : Action → Prop
  | .cpuPacket pkt => givesUp cfg.geom pkt = true → ∀ r ∈ s.accessOf cfg pkt, r.satisfied = true →
    ∀ ptr ∈ s.tags.findBlock cfg.geom pkt.addr, (s.tags.blks ptr).wasPrefetched = false
  | .response m pkt _ => s.fills m pkt = true → pkt.cmd.isRead = false →
    ∀ ptr ∈ s.tags.findBlock cfg.geom pkt.addr, (s.tags.blks ptr).wasPrefetched = false
  | _ => True

instance (cfg : Config) (s : Cache σ) : DecidablePred (s.PrefetchAlone cfg) := by
  rintro ⟨⟩ <;> dsimp only [PrefetchAlone] <;> infer_instance

instance (cfg : Config) (s : Cache σ) : DecidablePred (s.MarkAsked cfg) := by
  rintro ⟨⟩ <;> dsimp only [MarkAsked] <;> infer_instance

end Cache

/-- The cache with what is known of its copies, the counter `prefetchHits`, and the number
of prefetched copies that have been used. -/
structure Traced (σ : Type) where
  cache : Cache σ
  copies : BlkPtr → Copy
  prefetchHits : Nat := 0
  useful : Nat := 0

namespace Traced

variable {σ : Type} {cfg : Config} {P : Policy σ} {x : Traced σ}

def initial (cfg : Config) (policy : σ) : Traced σ := { cache := .initial cfg policy, copies := fun _ => {} }

def step (cfg : Config) (P : Policy σ) (x : Traced σ) (a : Action) : Traced σ where
  cache := x.cache.step cfg P a
  copies := (x.cache.copyEvents cfg a).foldl CopyEvent.record x.copies
  prefetchHits := x.prefetchHits + (x.cache.countedHit cfg a).toList.length
  useful := x.useful + (CopyEvent.firstUses x.copies (x.cache.copyEvents cfg a)).length

/-- The mark of a frame and what is known of its copy agree. -/
structure Told (t : Tags) (c : BlkPtr → Copy) (p : BlkPtr) : Prop where
  unused : (t.blks p).wasPrefetched = true → (c p).isUnused = true
  marked : (t.blks p).isValid = true → (c p).isUnused = true → (t.blks p).wasPrefetched = true

/-- A valid block is marked if and only if it is a prefetched copy that has not been used,
and as many of these have been used as `prefetchHits` says. -/
structure Faithful (x : Traced σ) : Prop where
  told : ∀ p, Told x.cache.tags x.copies p
  hits : x.prefetchHits = x.useful

/-- What `prefetchHits` counts in a step are the first uses of prefetched copies. -/
def CountsFirstUse (cfg : Config) (x : Traced σ) (a : Action) : Prop :=
  (x.cache.countedHit cfg a).toList = CopyEvent.firstUses x.copies (x.cache.copyEvents cfg a)

section Told

variable {t t' : Tags} {c c' : BlkPtr → Copy} {p : BlkPtr}

theorem Told.of_kept (h : Told t c p) (hkept : t.Kept p t') (hc : c' p = c p) : Told t' c' p where
  unused hmark := by
    rw [hc]
    exact h.unused (hkept.marked_before hmark)
  marked hvalid hunused := by
    obtain ⟨hbefore, hsame⟩ := hkept.valid_before hvalid
    rw [hc] at hunused
    rw [hsame]
    exact h.marked hbefore hunused

theorem Told.of_unmarked (hmark : (t.blks p).wasPrefetched = false) (hc : (c p).isUnused = false) : Told t c p where
  unused h := by
    rw [hmark] at h
    cases h
  marked _ h := by
    rw [hc] at h
    cases h

theorem Told.iff_of_valid (h : Told t c p) (hvalid : (t.blks p).isValid = true) :
    (c p).isUnused = (t.blks p).wasPrefetched :=
  Bool.eq_iff_iff.2 ⟨h.marked hvalid, h.unused⟩

end Told

/-! ### Requests -/

theorem copyEvents_access {s : Cache σ} {pkt : Packet} {r : AccessResult} {ptr : BlkPtr}
    (hr : s.accessOf cfg pkt = some r) (hsat : r.satisfied = true) (hblk : r.blk = some ptr) :
    s.copyEvents cfg (.cpuPacket pkt) =
      if (s.tags.findBlock cfg.geom pkt.addr).isSome then [.demand ptr] else [.brought ptr false, .demand ptr] := by
  obtain ⟨tags, pkt', blk, lat, writebacks, satisfied⟩ := r
  subst hsat hblk
  simp only [Cache.copyEvents, hr]

theorem access_events {s : Cache σ} {pkt : Packet} {e : CopyEvent} (h : e ∈ s.copyEvents cfg (.cpuPacket pkt)) :
    ∃ r ∈ s.accessOf cfg pkt, r.satisfied = true ∧ r.blk = some e.blk := by
  unfold Cache.copyEvents at h
  dsimp only at h
  split at h
  · rename_i ptr lat writebacks heq
    refine ⟨_, heq, rfl, ?_⟩
    split at h
    · rw [List.mem_singleton.1 h]
      rfl
    · rcases List.mem_cons.1 h with rfl | h
      · rfl
      · rw [List.mem_singleton.1 h]
        rfl
  · cases h

theorem told_cpuPacket (h : ∀ p, Told x.cache.tags x.copies p) (pkt : Packet) (p : BlkPtr) :
    Told (x.step cfg P (.cpuPacket pkt)).cache.tags (x.step cfg P (.cpuPacket pkt)).copies p := by
  have hmarks := @Cache.cpuRecvTiming_marks σ cfg P pkt x.cache p
  rcases hmarks with ⟨r, hr, hsat, hblk, hclear⟩ | ⟨hother, hkept⟩
  · refine .of_unmarked hclear ?_
    dsimp only [step]
    rw [copyEvents_access hr hsat hblk]
    split <;> simp [CopyEvent.record, Copy.isUnused]
  · refine (h p).of_kept hkept (CopyEvent.record_of_ne fun e he heq => ?_)
    obtain ⟨r, hr, hsat, hblk⟩ := access_events he
    exact hother r hr hsat (heq ▸ hblk)

/-- The hit path asks the block that has satisfied the request. -/
theorem countedHit_access {s : Cache σ} {pkt : Packet} {r : AccessResult} {ptr : BlkPtr}
    (hr : s.accessOf cfg pkt = some r) (hsat : r.satisfied = true) (hblk : r.blk = some ptr) :
    s.countedHit cfg (.cpuPacket pkt) = if (r.tags.blks ptr).wasPrefetched then some ptr else none := by
  obtain ⟨tags, pkt', blk, lat, writebacks, satisfied⟩ := r
  subst hsat hblk
  simp only [Cache.countedHit, hr]

theorem counts_cpuPacket (h : ∀ p, Told x.cache.tags x.copies p) {pkt : Packet}
    (hasked : x.cache.MarkAsked cfg (.cpuPacket pkt)) : x.CountsFirstUse cfg (.cpuPacket pkt) := by
  unfold CountsFirstUse
  by_cases hused : ∃ r ptr, x.cache.accessOf cfg pkt = some r ∧ r.satisfied = true ∧ r.blk = some ptr
  · obtain ⟨r, ptr, hr, hsat, hblk⟩ := hused
    have hmarks := access_marks cfg.geom x.cache.tags x.cache.mshrQueue x.cache.curTick pkt
    rw [← Cache.accessOf_eq hr] at hmarks
    rw [countedHit_access hr hsat hblk, copyEvents_access hr hsat hblk]
    cases hfound : x.cache.tags.findBlock cfg.geom pkt.addr with
    | none =>
      rw [(hmarks.brought hfound ptr hblk).2]
      simp [CopyEvent.firstUses, CopyEvent.record, Copy.isUnused]
    | some ptr' =>
      obtain ⟨hblk', hsame⟩ := hmarks.found ptr' hfound
      obtain rfl : ptr = ptr' := Option.some.inj (hblk.symm.trans hblk')
      have hmark : (r.tags.blks ptr).wasPrefetched = (x.cache.tags.blks ptr).wasPrefetched := by
        cases hgone : givesUp cfg.geom pkt with
        | false => exact hsame hgone
        | true =>
          have hclear := hasked hgone r hr hsat ptr hfound
          rw [hclear]
          exact (hmarks.kept ptr fun habsent => by rw [hfound] at habsent; cases habsent).unmarked hclear
      rw [hmark, ← (h ptr).iff_of_valid (Tags.findBlock_valid hfound)]
      cases hunused : (x.copies ptr).isUnused <;> simp [CopyEvent.firstUses, hunused]
  · -- nothing is satisfied, so nothing is counted
    have hevents : x.cache.copyEvents cfg (.cpuPacket pkt) = [] := by
      refine List.eq_nil_iff_forall_not_mem.2 fun e he => hused ?_
      obtain ⟨r, hr, hsat, hblk⟩ := access_events he
      exact ⟨r, _, hr, hsat, hblk⟩
    have hcounted : x.cache.countedHit cfg (.cpuPacket pkt) = none := by
      unfold Cache.countedHit
      dsimp only
      split
      · rename_i heq
        exact absurd ⟨_, _, heq, rfl, rfl⟩ hused
      · rfl
    rw [hevents, hcounted]
    rfl

/-! ### Responses -/

theorem response_events {s : Cache σ} {m : MshrRef} {pkt : Packet} {upward : Nat → SnoopAnswer} {e : CopyEvent}
    (h : e ∈ s.copyEvents cfg (.response m pkt upward)) : e.blk = s.filledBlk cfg m pkt := by
  have hdemand : ∀ ts : List Target, e ∈ ts.map (fun _ => CopyEvent.demand (s.filledBlk cfg m pkt)) →
      e.blk = s.filledBlk cfg m pkt := by
    intro ts he
    obtain ⟨t, -, rfl⟩ := List.mem_map.1 he
    rfl
  unfold Cache.copyEvents at h
  dsimp only at h
  split at h
  · split at h
    · rcases List.mem_cons.1 h with rfl | h
      · rfl
      · exact hdemand _ h
    · exact hdemand _ h
  · cases h

/-- What a fill does to the copy in the frame it fills: a prefetch that is served alone
brings in an unused copy, and everything else leaves one that is used or not prefetched;
in neither case is a prefetched copy used. -/
inductive FillsCopy (cfg : Config) (x : Traced σ) (m : MshrRef) (pkt : Packet) (upward : Nat → SnoopAnswer) : Prop
  | prefetch (hpf : ∃ t ∈ x.cache.servedTargets m pkt, t.source = .fromPrefetcher)
      (hevents : x.cache.copyEvents cfg (.response m pkt upward) = [.brought (x.cache.filledBlk cfg m pkt) true])
  | demand (hpf : ∀ t ∈ x.cache.servedTargets m pkt, t.source ≠ .fromPrefetcher)
      (hfirst : CopyEvent.firstUses x.copies (x.cache.copyEvents cfg (.response m pkt upward)) = [])
      (hused : ((x.cache.copyEvents cfg (.response m pkt upward)).foldl CopyEvent.record x.copies
        (x.cache.filledBlk cfg m pkt)).isUnused = false)

theorem fillsCopy (h : ∀ p, Told x.cache.tags x.copies p) {m : MshrRef} {pkt : Packet} {upward : Nat → SnoopAnswer}
    (hf : x.cache.fills m pkt = true) (halone : x.cache.PrefetchAlone cfg (.response m pkt upward))
    (hasked : x.cache.MarkAsked cfg (.response m pkt upward)) : FillsCopy cfg x m pkt upward := by
  simp only [Cache.PrefetchAlone, hf, if_true] at halone
  have hdemands : ∀ e ∈ ((x.cache.servedTargets m pkt).filter fun t => t.source == .fromCPU).map
      fun _ => CopyEvent.demand (x.cache.filledBlk cfg m pkt), e = .demand (x.cache.filledBlk cfg m pkt) := by
    intro e he
    obtain ⟨t, -, rfl⟩ := List.mem_map.1 he
    rfl
  by_cases hpf : ∃ t ∈ x.cache.servedTargets m pkt, t.source = .fromPrefetcher
  · obtain ⟨hdata, hnone⟩ := halone hpf
    have hany : ((x.cache.servedTargets m pkt).any fun t => t.source == .fromPrefetcher) = true := by
      simpa using hpf
    have hfilter : ((x.cache.servedTargets m pkt).filter fun t => t.source == .fromCPU) = [] := by
      simpa using hnone
    have hbrought : (pkt.cmd.isRead || (x.cache.tags.findBlock cfg.geom pkt.addr).isNone) = true := by
      simpa using hdata
    exact .prefetch hpf (by simp [Cache.copyEvents, hf, hbrought, hany, hfilter])
  · have hany : ((x.cache.servedTargets m pkt).any fun t => t.source == .fromPrefetcher) = false := by
      simpa using hpf
    have hnone : ∀ t ∈ x.cache.servedTargets m pkt, t.source ≠ .fromPrefetcher :=
      fun t ht hsrc => hpf ⟨t, ht, hsrc⟩
    cases hbrought : pkt.cmd.isRead || (x.cache.tags.findBlock cfg.geom pkt.addr).isNone with
    | true =>
      -- a new copy, which no prefetch has brought in
      have hnew : (CopyEvent.record x.copies (.brought (x.cache.filledBlk cfg m pkt) false)
          (x.cache.filledBlk cfg m pkt)).isUnused = false := by
        simp [CopyEvent.record, Copy.isUnused]
      obtain ⟨hfirst, hused⟩ := CopyEvent.demands_of_used hnew hdemands
      refine .demand hnone ?_ ?_
      · simpa [Cache.copyEvents, hf, hbrought, hany, CopyEvent.firstUses] using hfirst
      · simpa [Cache.copyEvents, hf, hbrought, hany] using hused
    | false =>
      -- an upgrade keeps the copy, which is not marked
      obtain ⟨hread, hsome⟩ := Bool.or_eq_false_iff.1 hbrought
      obtain ⟨ptr, hfound⟩ : ∃ ptr, x.cache.tags.findBlock cfg.geom pkt.addr = some ptr :=
        Option.isSome_iff_exists.1 (by simpa using hsome)
      have hptr : x.cache.filledBlk cfg m pkt = ptr := by
        rw [Cache.filledBlk, hfound]
        rfl
      have hold : (x.copies (x.cache.filledBlk cfg m pkt)).isUnused = false := by
        rw [hptr, (h ptr).iff_of_valid (Tags.findBlock_valid hfound)]
        exact hasked hf hread ptr hfound
      obtain ⟨hfirst, hused⟩ := CopyEvent.demands_of_used hold hdemands
      refine .demand hnone ?_ ?_
      · simpa [Cache.copyEvents, hf, hbrought] using hfirst
      · simpa [Cache.copyEvents, hf, hbrought] using hused

theorem told_response (h : ∀ p, Told x.cache.tags x.copies p) {m : MshrRef} {pkt : Packet}
    {upward : Nat → SnoopAnswer} (halone : x.cache.PrefetchAlone cfg (.response m pkt upward))
    (hasked : x.cache.MarkAsked cfg (.response m pkt upward)) (p : BlkPtr) :
    Told (x.step cfg P (.response m pkt upward)).cache.tags (x.step cfg P (.response m pkt upward)).copies p := by
  have hmarks := @Cache.handleResponse_marks σ cfg P m pkt upward x.cache p
  cases hf : x.cache.fills m pkt with
  | true =>
    by_cases hp : p = x.cache.filledBlk cfg m pkt
    · cases fillsCopy h hf halone hasked with
      | prefetch hpf hevents =>
        have hcopy : (x.step cfg P (.response m pkt upward)).copies p = { prefetched := true, used := false } := by
          dsimp only [step]
          rw [hevents, hp]
          simp [CopyEvent.record]
        refine ⟨fun _ => by rw [hcopy]; rfl, fun hvalid _ => hmarks.prefetched hf hp hpf hvalid⟩
      | demand hpf _ hused =>
        subst hp
        exact .of_unmarked (hmarks.demanded hf rfl hpf) hused
    · refine (h p).of_kept (hmarks.other hf hp) (CopyEvent.record_of_ne fun e he heq => ?_)
      exact hp (heq.trans (response_events he))
  | false =>
    simp only [Cache.PrefetchAlone, hf, Bool.false_eq_true, if_false] at halone
    refine (h p).of_kept (hmarks.unfilled hf fun hnack hfound t ht hsrc => ?_) (by simp [step, Cache.copyEvents, hf])
    rw [halone hnack ⟨t, ht, hsrc⟩] at hfound
    cases hfound

theorem counts_response (h : ∀ p, Told x.cache.tags x.copies p) {m : MshrRef} {pkt : Packet}
    {upward : Nat → SnoopAnswer} (halone : x.cache.PrefetchAlone cfg (.response m pkt upward))
    (hasked : x.cache.MarkAsked cfg (.response m pkt upward)) : x.CountsFirstUse cfg (.response m pkt upward) := by
  unfold CountsFirstUse
  cases hf : x.cache.fills m pkt with
  | true =>
    cases fillsCopy h hf halone hasked with
    | prefetch _ hevents =>
      rw [hevents]
      rfl
    | demand _ hfirst _ =>
      rw [hfirst]
      rfl
  | false =>
    have hevents : x.cache.copyEvents cfg (.response m pkt upward) = [] := by simp [Cache.copyEvents, hf]
    rw [hevents]
    rfl

/-! ### Runs -/

theorem step_told (hs : x.cache.PrefetchesFirst cfg) {a : Action} (halone : x.cache.PrefetchAlone cfg a)
    (hasked : x.cache.MarkAsked cfg a) (h : ∀ p, Told x.cache.tags x.copies p) (p : BlkPtr) :
    Told (x.step cfg P a).cache.tags (x.step cfg P a).copies p := by
  cases a with
  | cpuPacket pkt => exact told_cpuPacket h pkt p
  | response m pkt upward => exact told_response h halone hasked p
  | snoop pkt answer => exact (h p).of_kept ((kept_stays cfg p _).snoopTiming (.refl p _) pkt answer) rfl
  | sendPacket accept upward => exact (h p).of_kept (Cache.kept_sendPacket hs accept upward p) rfl
  | tick n => exact (h p).of_kept (.refl p _) rfl
  | cpuSend => exact (h p).of_kept (.refl p _) rfl
  | downstream m pending =>
    refine (h p).of_kept (.of_blks ?_) rfl
    dsimp only [step]
    rw [Cache.step, Cache.setRegister, Cache.setQueue_tags]

theorem step_counts {a : Action} (halone : x.cache.PrefetchAlone cfg a) (hasked : x.cache.MarkAsked cfg a)
    (h : ∀ p, Told x.cache.tags x.copies p) : x.CountsFirstUse cfg a := by
  cases a with
  | cpuPacket pkt => exact counts_cpuPacket h hasked
  | response m pkt upward => exact counts_response h halone hasked
  | _ => rfl

theorem step_faithful (hs : x.cache.PrefetchesFirst cfg) {a : Action} (halone : x.cache.PrefetchAlone cfg a)
    (hasked : x.cache.MarkAsked cfg a) (h : x.Faithful) : (x.step cfg P a).Faithful where
  told := step_told hs halone hasked h.told
  hits := by
    dsimp only [step]
    rw [h.hits, step_counts halone hasked h.told]

theorem marked_iff_unused (cfg : Config) (P : Policy σ) (policy : σ) (as : List Action)
    (hen : Runs.Guarded (step cfg P) (fun x a => x.cache.Enabled cfg a ∧ x.cache.PrefetchAlone cfg a ∧
      x.cache.MarkAsked cfg a) (initial cfg policy) as) :
    Runs.Along (step cfg P) Faithful (initial cfg policy) as ∧
      Runs.Guarded (step cfg P) (CountsFirstUse cfg) (initial cfg policy) as := by
  have hinit : (initial cfg policy).cache.PrefetchesFirst cfg ∧ (initial cfg policy).Faithful := by
    refine ⟨⟨Cache.initial_sound cfg policy, fun i hi => (List.not_mem_nil hi).elim,
      fun i hi => (List.not_mem_nil hi).elim⟩, fun p => .of_unmarked ?_ rfl, rfl⟩
    cases p <;> rfl
  have hkeep : ∀ (x : Traced σ) a, x.cache.PrefetchesFirst cfg ∧ x.Faithful →
      x.cache.Enabled cfg a ∧ x.cache.PrefetchAlone cfg a ∧ x.cache.MarkAsked cfg a →
      (x.step cfg P a).cache.PrefetchesFirst cfg ∧ (x.step cfg P a).Faithful :=
    fun x a hx ha => ⟨Cache.step_prefetchesFirst hx.1 ha.1, step_faithful hx.1 ha.2.1 ha.2.2 hx.2⟩
  constructor
  · exact Runs.along_mono (fun x hx => hx.2) as _ (Runs.along_of_guarded hkeep as _ hinit hen)
  · exact Runs.guarded_of_invariant hkeep (fun x a hx ha => step_counts ha.2.1 ha.2.2 hx.2.told) as _ hinit hen

/-- A response from memory. -/
def reply (cmd : MemCmd) (addr : Addr) : Packet :=
  { Packet.ofRequest { paddr := addr, size := 64 } cmd 0 with data := List.replicate 64 0 }

/-- Four misses at a stride of one block, which make DCPT prefetch 4352; all are sent. -/
def strideRun : List Action :=
  [.cpuPacket (load 1 4096), .cpuPacket (load 1 4160), .cpuPacket (load 1 4224), .cpuPacket (load 1 4288),
    .tick 1] ++ List.replicate 5 (.sendPacket true noSnoops)

/-- The prefetch completes, and then the block is used twice. -/
def usedRun : List Action :=
  strideRun ++ [.response (.mshrs, 4) (reply .readResp 4352) noSnoops, .cpuPacket (load 1 4352),
    .cpuPacket (load 1 4352)]

/-- The prefetched copy is counted at its first use, and once. -/
theorem marked_iff_unused_usedRun :
    let cfg := smallConfig 8
    let x₀ := initial cfg Dcpt.initial
    (Runs.exec (step cfg (proxy 0 dcpt)) x₀ usedRun).prefetchHits = 1 ∧
      Runs.Along (step cfg (proxy 0 dcpt)) Faithful x₀ usedRun ∧
        Runs.Guarded (step cfg (proxy 0 dcpt)) (CountsFirstUse cfg) x₀ usedRun :=
  ⟨by decide +kernel, marked_iff_unused (smallConfig 8) (proxy 0 dcpt) Dcpt.initial _ (by decide +kernel)⟩

/-- A load joins the prefetch before its response comes. -/
def mergedRun : List Action :=
  strideRun ++ [.cpuPacket (load 1 4352), .response (.mshrs, 4) (reply .readResp 4352) noSnoops]

/-- The block comes from above while the prefetch is out, and the prefetch ends in an error. -/
def failedRun : List Action :=
  strideRun ++ [.cpuPacket (giveBack 4352 7), .response (.mshrs, 4) (reply .badAddressError 4352) noSnoops]

/-- The prefetch completes, and then the upper level takes the block for itself. -/
def takenRun : List Action :=
  strideRun ++ [.response (.mshrs, 4) (reply .readResp 4352) noSnoops,
    .cpuPacket (Packet.ofRequest { paddr := 4352, size := 64, pc := some 1, contextId := some 0 } .readExReq 0)]

/-- The prefetch completes with a shared copy, which a store upgrades. -/
def upgradeRun : List Action :=
  strideRun ++ [.response (.mshrs, 4) { reply .readResp 4352 with shared := true } noSnoops,
    .cpuPacket { Packet.ofRequest { paddr := 4352, size := 8, pc := some 1, contextId := some 0 } .writeReq 0 with
      data := List.replicate 8 1 }, .tick 2, .sendPacket true noSnoops,
    .response (.mshrs, 4) (reply .upgradeResp 4352) noSnoops]

/-- The block is marked after the load has been served from it, and so is a block that no
prefetch has brought in; a copy that is given up to its first use is not counted, and neither
is one that is used when it is upgraded. -/
theorem marked_after_use :
    let cfg := smallConfig 8
    let x₀ := initial cfg Dcpt.initial
    let merged := Runs.exec (step cfg (proxy 0 dcpt)) x₀ mergedRun
    let failed := Runs.exec (step cfg (proxy 0 dcpt)) x₀ failedRun
    let taken := Runs.exec (step cfg (proxy 0 dcpt)) x₀ takenRun
    let upgraded := Runs.exec (step cfg (proxy 0 dcpt)) x₀ upgradeRun
    (Runs.Guarded (step cfg (proxy 0 dcpt)) (fun x a => x.cache.Enabled cfg a) x₀ mergedRun ∧
      ∃ ptr ∈ merged.cache.tags.findBlock cfg.geom 4352,
        (merged.cache.tags.blks ptr).isValid = true ∧ (merged.cache.tags.blks ptr).wasPrefetched = true ∧
          (merged.copies ptr).used = true) ∧
    (Runs.Guarded (step cfg (proxy 0 dcpt)) (fun x a => x.cache.Enabled cfg a) x₀ failedRun ∧
      ∃ ptr ∈ failed.cache.tags.findBlock cfg.geom 4352,
        (failed.cache.tags.blks ptr).isValid = true ∧ (failed.cache.tags.blks ptr).wasPrefetched = true ∧
          (failed.copies ptr).prefetched = false) ∧
    (Runs.Guarded (step cfg (proxy 0 dcpt)) (fun x a => x.cache.Enabled cfg a) x₀ takenRun ∧
      taken.prefetchHits = 0 ∧ taken.useful = 1) ∧
    Runs.Guarded (step cfg (proxy 0 dcpt)) (fun x a => x.cache.Enabled cfg a) x₀ upgradeRun ∧
      upgraded.prefetchHits = 0 ∧ upgraded.useful = 1 := by
  decide +kernel

end Traced

end PrefetchSim
