import PrefetchSim.Mem.Coherence
import PrefetchSim.Mem.Occupancy
import PrefetchSim.Mem.PrefetchBit

/- The occupancy accounting over whole runs.

   In timing mode two things take a block out of the accounting that is not given up: an
   allocation that is refused, for a fill, which then goes through the temporary block, or for a
   writeback; and a response that invalidates its block twice, since an exclusive read among the
   targets invalidates the block without a look at whether it is still there, and so does the end
   of an invalidating response. So the accounting is exact along a run exactly if neither happens,
   and in atomic mode, where no miss is outstanding, it always is (`accounted_iff`). -/
namespace PrefetchSim

/-! ## Snoops -/

theorem handleSnoop_write (cfg : Config) (t : Tags) (port : CachePort) (now : Tick) (answer : SnoopAnswer)
    (pkt : Packet) (ptr : BlkPtr) (isDeferred pendingInval : Bool) : ∃ f, Tags.Plain f ∧
      (handleSnoop cfg t port now answer pkt (some ptr) isDeferred pendingInval).1 =
        if (t.blks ptr).isValid && pkt.cmd.isInvalidate then (t.modify ptr f).invalidateBlk cfg.geom ptr
        else t.modify ptr f := by
  rw [handleSnoop_tags]
  by_cases hshare : ((t.blks ptr).isValid && (pkt.cmd.isRead && !pkt.cmd.isInvalidate)) = true
  · refine ⟨fun b => { b with status := { b.status with writable := false } },
      Tags.plain_status (fun st => { st with writable := false }) fun _ => rfl, ?_⟩
    simp only [Bool.and_eq_true, Bool.not_eq_true'] at hshare
    simp [hshare]
  · refine ⟨id, Tags.plain_id, ?_⟩
    rw [modify_id]
    cases hv : (t.blks ptr).isValid <;> cases hi : pkt.cmd.isInvalidate <;> simp_all

/-! ## Responses -/

namespace Target

/-- The target takes the block from the cache. -/
def takes (g : Geometry) (isFill : Bool) (t : Target) : Bool :=
  match t.source with
  | .fromCPU => isFill && givesUp g t.pkt
  | .fromPrefetcher => false
  | .fromSnoop => t.pkt.cmd.isInvalidate

/-- The block is invalidated for the target without a look at whether it is still there. -/
def takesBlindly (g : Geometry) (isFill : Bool) (t : Target) : Bool :=
  t.source == .fromCPU && isFill && givesUp g t.pkt

theorem takes_of_takesBlindly {g : Geometry} {isFill : Bool} {t : Target} (h : t.takesBlindly g isFill = true) :
    t.takes g isFill = true := by
  simp only [takesBlindly, Bool.and_eq_true, beq_iff_eq] at h
  simp [takes, h]

end Target

/-- After the block has been taken none of the later targets takes it blindly, and neither does the
end of the response. -/
def Orderly (g : Geometry) (isFill : Bool) (pkt : Packet) (ts : List Target) : Prop :=
  ts.Pairwise (fun a b => a.takes g isFill = true → b.takesBlindly g isFill = false) ∧
    (pkt.cmd.isInvalidate = true → ∀ t ∈ ts, t.takes g isFill = false)

instance (g : Geometry) (isFill : Bool) (pkt : Packet) (ts : List Target) : Decidable (Orderly g isFill pkt ts) :=
  inferInstanceAs (Decidable (_ ∧ _))

theorem serviceTarget_write {σ : Type} (cfg : Config) (P : Policy σ) {a : Answer} {ptr : BlkPtr}
    (ha : a.blk = some ptr) (s : Service σ) (target : Target) : ∃ f, Tags.Plain f ∧
      (serviceTarget cfg P a s target).tags =
        if target.takesBlindly cfg.geom a.isFill || (target.takes cfg.geom a.isFill && (s.tags.blks ptr).isValid) then
          (s.tags.modify ptr f).invalidateBlk cfg.geom ptr
        else s.tags.modify ptr f := by
  unfold serviceTarget Target.takes Target.takesBlindly
  cases hsrc : target.source with
  | fromCPU =>
    dsimp only [serviceCpu]
    cases hfill : a.isFill with
    | true =>
      obtain ⟨f, hf, hsat⟩ := satisfy_tags cfg.geom s.tags ptr target.pkt
      refine ⟨f, hf, ?_⟩
      simp only [ha, if_true, hsat]
      cases givesUp cfg.geom target.pkt <;> simp
    | false =>
      refine ⟨id, Tags.plain_id, ?_⟩
      rw [modify_id]
      simp only [Bool.false_eq_true, if_false]
      split <;> simp
  | fromPrefetcher =>
    refine ⟨fun b => { b with status := { b.status with hwPrefetched := true } },
      Tags.plain_status (fun st => { st with hwPrefetched := true }) fun _ => rfl, ?_⟩
    simp [ha]
  | fromSnoop =>
    dsimp only
    rw [ha]
    obtain ⟨f, hf, hsnoop⟩ := handleSnoop_write cfg s.tags s.memSidePort a.now (a.upward s.snoops) target.pkt ptr true
      (a.pendingInvalidate || a.pkt.cmd.isInvalidate)
    refine ⟨f, hf, ?_⟩
    rw [hsnoop, Bool.and_comm]
    rfl

section

variable {σ : Type} {cfg : Config} {P : Policy σ} {a : Answer} {ptr : BlkPtr} {s : Service σ}

theorem serviceTarget_drifted (hcpus : 0 < cfg.geom.numCpus) (ha : a.blk = some ptr) (target : Target)
    (h : s.tags.Drifted cfg.geom) : (serviceTarget cfg P a s target).tags.Drifted cfg.geom := by
  obtain ⟨f, hf, htags⟩ := serviceTarget_write cfg P ha s target
  have hmodify := (hf.still cfg.geom s.tags ptr).drifted h
  rw [htags]
  split
  · exact hmodify.invalidateBlk hcpus ptr
  · exact hmodify

theorem serviceTargets_drifted (hcpus : 0 < cfg.geom.numCpus) (ha : a.blk = some ptr) (ts : List Target)
    (h : s.tags.Drifted cfg.geom) : (ts.foldl (serviceTarget cfg P a) s).tags.Drifted cfg.geom := by
  induction ts generalizing s with
  | nil => exact h
  | cons target ts ih => exact ih (serviceTarget_drifted hcpus ha target h)

/-- One target: a block that is there may be taken, and one that is not may not be taken blindly. -/
theorem serviceTarget_counted (ha : a.blk = some ptr) (hp : ptr ∈ Tags.frames cfg.geom) {target : Target}
    (h : s.tags.Counted cfg.geom)
    (hthere : (s.tags.blks ptr).isValid = false → target.takesBlindly cfg.geom a.isFill = false) :
    (serviceTarget cfg P a s target).tags.Counted cfg.geom ∧
      ((serviceTarget cfg P a s target).tags.blks ptr).isValid =
        ((s.tags.blks ptr).isValid && !target.takes cfg.geom a.isFill) := by
  obtain ⟨f, hf, htags⟩ := serviceTarget_write cfg P ha s target
  rw [htags]
  cases hvalid : (s.tags.blks ptr).isValid with
  | true =>
    have htakes : (target.takesBlindly cfg.geom a.isFill || (target.takes cfg.geom a.isFill && true)) =
        target.takes cfg.geom a.isFill := by
      cases hb : target.takesBlindly cfg.geom a.isFill with
      | false => simp
      | true => simp [Target.takes_of_takesBlindly hb]
    rw [htakes]
    refine ⟨h.write hp hvalid hf _, ?_⟩
    split
    · rename_i htake
      simp [Tags.invalidateBlk_blks, htake, CacheBlk.isValid]
    · rename_i htake
      rw [Tags.modify_self, hf.valid, hvalid]
      simp [htake]
  | false =>
    rw [hthere hvalid, Bool.and_false, Bool.or_false, if_neg Bool.false_ne_true, Tags.modify_self, hf.valid, hvalid]
    exact ⟨(hf.still cfg.geom s.tags ptr).counted h, rfl⟩

theorem serviceTarget_blind (hcpus : 0 < cfg.geom.numCpus) (ha : a.blk = some ptr) {target : Target}
    (h : s.tags.Counted cfg.geom) (hvalid : (s.tags.blks ptr).isValid = false)
    (hblind : target.takesBlindly cfg.geom a.isFill = true) :
    (serviceTarget cfg P a s target).tags.Drifted cfg.geom := by
  obtain ⟨f, hf, htags⟩ := serviceTarget_write cfg P ha s target
  rw [htags, hblind, Bool.true_or, if_pos rfl]
  apply ((hf.still cfg.geom s.tags ptr).counted h).invalidate_invalid hcpus
  rw [Tags.modify_self, hf.valid, hvalid]

/-- Without a block nothing is done to the tags. -/
theorem serviceTargets_none (ha : a.blk = none) (ts : List Target) :
    (ts.foldl (serviceTarget cfg P a) s).tags = s.tags := by
  induction ts generalizing s with
  | nil => rfl
  | cons target ts ih =>
    rw [List.foldl_cons, ih]
    unfold serviceTarget serviceCpu
    cases target.source with
    | fromCPU =>
      simp only [ha]
      split
      · rfl
      · split <;> rfl
    | fromPrefetcher => simp only [ha]
    | fromSnoop => simp only [ha, handleSnoop]

/-- What the loop may meet, from a block that is there or not. -/
def LoopOrderly (g : Geometry) (isFill there : Bool) (ts : List Target) : Prop :=
  ts.Pairwise (fun a b => a.takes g isFill = true → b.takesBlindly g isFill = false) ∧
    (there = false → ∀ t ∈ ts, t.takesBlindly g isFill = false)

theorem loopOrderly_cons {g : Geometry} {isFill there : Bool} {target : Target} {ts : List Target} :
    LoopOrderly g isFill there (target :: ts) ↔ (there = false → target.takesBlindly g isFill = false) ∧
      LoopOrderly g isFill (there && !target.takes g isFill) ts := by
  simp only [LoopOrderly, List.pairwise_cons, List.forall_mem_cons, Bool.and_eq_false_imp, Bool.not_eq_false']
  constructor
  · rintro ⟨⟨hhead, htail⟩, hthere⟩
    refine ⟨fun h => (hthere h).1, htail, fun himp t ht => ?_⟩
    cases there with
    | false => exact (hthere rfl).2 t ht
    | true => exact hhead t ht (himp rfl)
  · rintro ⟨hfirst, htail, hrest⟩
    refine ⟨⟨fun t ht htake => hrest (fun _ => htake) t ht, htail⟩, ?_⟩
    rintro rfl
    exact ⟨hfirst rfl, hrest (fun h => absurd h Bool.false_ne_true)⟩

theorem serviceTargets_counted (ha : a.blk = some ptr) (hp : ptr ∈ Tags.frames cfg.geom) (ts : List Target)
    (h : s.tags.Counted cfg.geom) (hts : LoopOrderly cfg.geom a.isFill (s.tags.blks ptr).isValid ts) :
    (ts.foldl (serviceTarget cfg P a) s).tags.Counted cfg.geom ∧
      ((ts.foldl (serviceTarget cfg P a) s).tags.blks ptr).isValid =
        ((s.tags.blks ptr).isValid && !ts.any (·.takes cfg.geom a.isFill)) := by
  induction ts generalizing s with
  | nil => simpa using h
  | cons target ts ih =>
    obtain ⟨hfirst, hrest⟩ := loopOrderly_cons.1 hts
    obtain ⟨hcounted, hvalid⟩ := serviceTarget_counted (P := P) ha hp h hfirst
    rw [← hvalid] at hrest
    obtain ⟨hcounted', hvalid'⟩ := ih hcounted hrest
    refine ⟨hcounted', ?_⟩
    rw [List.foldl_cons, hvalid', hvalid, List.any_cons, Bool.not_or, Bool.and_assoc]

theorem serviceTargets_blind (hcpus : 0 < cfg.geom.numCpus) (ha : a.blk = some ptr)
    (hp : ptr ∈ Tags.frames cfg.geom) (ts : List Target) (h : s.tags.Counted cfg.geom)
    (hts : ¬ LoopOrderly cfg.geom a.isFill (s.tags.blks ptr).isValid ts) :
    (ts.foldl (serviceTarget cfg P a) s).tags.Drifted cfg.geom := by
  induction ts generalizing s with
  | nil => exact absurd ⟨List.Pairwise.nil, fun _ _ ht => absurd ht List.not_mem_nil⟩ hts
  | cons target ts ih =>
    rw [List.foldl_cons]
    by_cases hfirst : (s.tags.blks ptr).isValid = false → target.takesBlindly cfg.geom a.isFill = false
    · obtain ⟨hcounted, hvalid⟩ := serviceTarget_counted (P := P) ha hp h hfirst
      apply ih hcounted
      rw [hvalid]
      exact fun hrest => hts (loopOrderly_cons.2 ⟨hfirst, hrest⟩)
    · simp only [Classical.not_imp, Bool.not_eq_false] at hfirst
      exact serviceTargets_drifted hcpus ha ts (serviceTarget_blind hcpus ha h hfirst.1 hfirst.2)

end

namespace Cache

variable {σ : Type} {cfg : Config} {P : Policy σ} {s : Cache σ} {m : MshrRef} {pkt : Packet} {ptr : BlkPtr}

/-- The targets a response serves. -/
def answered (s : Cache σ) (m : MshrRef) (pkt : Packet) : List Target :=
  if s.fills m pkt then s.servedTargets m pkt else (s.register m).targets.list

/-- The new block of a fill finds no frame. -/
def FillRefused (cfg : Config) (s : Cache σ) (m : MshrRef) (pkt : Packet) : Prop :=
  s.fills m pkt = true ∧ s.tags.findBlock cfg.geom pkt.addr = none ∧ s.tags.VictimBusy cfg.geom s.mshrQueue pkt.addr

/-- The response works on a block, and counts it down twice. -/
def TakenTwice (cfg : Config) (s : Cache σ) (m : MshrRef) (pkt : Packet) : Prop :=
  (s.fills m pkt = true ∨ (s.tags.findBlock cfg.geom pkt.addr).isSome = true) ∧
    ¬ Orderly cfg.geom (s.isFill m pkt) pkt (s.answered m pkt)

instance (cfg : Config) (s : Cache σ) (m : MshrRef) (pkt : Packet) : Decidable (s.FillRefused cfg m pkt) :=
  inferInstanceAs (Decidable (_ ∧ _ ∧ _))

instance (cfg : Config) (s : Cache σ) (m : MshrRef) (pkt : Packet) : Decidable (s.TakenTwice cfg m pkt) :=
  inferInstanceAs (Decidable (_ ∧ _))

/-- The fill of a response: no block, no frame for the block, or a block in a frame. -/
inductive Filling (cfg : Config) (s : Cache σ) (m : MshrRef) (pkt : Packet) : Tags → Option BlkPtr → Prop where
  | none (hnone : s.fills m pkt = false) (habsent : s.tags.findBlock cfg.geom pkt.addr = none) :
      Filling cfg s m pkt s.tags none
  | refused {t : Tags} (hrefused : s.FillRefused cfg m pkt) (drifted : t.Drifted cfg.geom) :
      Filling cfg s m pkt t (some .temp)
  | held {t : Tags} {ptr : BlkPtr} (hfree : ¬ s.FillRefused cfg m pkt)
      (hblk : s.fills m pkt = true ∨ (s.tags.findBlock cfg.geom pkt.addr).isSome = true)
      (mem : ptr ∈ Tags.frames cfg.geom) (counted : t.Counted cfg.geom) (valid : (t.blks ptr).isValid = true) :
      Filling cfg s m pkt t (some ptr)

theorem handleFill_pkt (r : Mshr) (pkt : Packet) : (r.handleFill pkt).2.addr = pkt.addr ∧
    (r.handleFill pkt).2.cmd = pkt.cmd := by
  unfold Mshr.handleFill
  dsimp only
  split <;> exact ⟨rfl, rfl⟩

theorem fill_filling (hcpus : 0 < cfg.geom.numCpus) (h : s.tags.Counted cfg.geom) (m : MshrRef) (pkt : Packet) :
    let r := s.fill cfg m pkt (s.isFill m pkt)
    Filling cfg s m pkt r.1.tags r.2.2.1 ∧ r.2.1.cmd = pkt.cmd ∧
      (r.1.register m).targets.list = s.answered m pkt := by
  intro r
  obtain ⟨haddr, hcmd⟩ := handleFill_pkt (s.register m) pkt
  cases hf : s.fills m pkt with
  | false =>
    have hr : r = (s, pkt, s.tags.findBlock cfg.geom pkt.addr, []) := by
      rw [← Bool.not_eq_true] at hf
      exact if_neg hf
    rw [hr, answered, hf]
    refine ⟨?_, rfl, rfl⟩
    dsimp only
    cases hfind : s.tags.findBlock cfg.geom pkt.addr with
    | none => exact .none hf hfind
    | some ptr =>
      obtain ⟨hmem, hvalid⟩ := h.found hfind
      refine .held ?_ (.inr (by rw [hfind]; rfl)) hmem h hvalid
      rintro ⟨-, hnone, -⟩
      rw [hfind] at hnone
      cases hnone
  | true =>
    have hr : r = ({ s.setRegister m ((s.register m).handleFill pkt).1 with
        tags := (PrefetchSim.handleFill cfg.geom s.tags s.mshrQueue s.curTick ((s.register m).handleFill pkt).2
          (s.tags.findBlock cfg.geom pkt.addr)).1 }, ((s.register m).handleFill pkt).2, some
        (PrefetchSim.handleFill cfg.geom s.tags s.mshrQueue s.curTick ((s.register m).handleFill pkt).2
          (s.tags.findBlock cfg.geom pkt.addr)).2.1, _) := if_pos hf
    have hreg : (r.1.register m).targets.list = s.answered m pkt := by
      have hset := register_setRegister s m ((s.register m).handleFill pkt).1
      rw [hr, answered, hf, if_pos rfl, servedTargets]
      refine congrArg (·.targets.list) (Eq.trans ?_ hset)
      obtain ⟨_ | _, i⟩ := m <;> rfl
    refine ⟨?_, by rw [hr]; exact hcmd, hreg⟩
    rw [hr]
    dsimp only
    by_cases hrefused : s.FillRefused cfg m pkt
    · obtain ⟨-, hnone, hbusy⟩ := id hrefused
      rw [hnone]
      rw [← haddr] at hbusy
      obtain ⟨hdrifted, htemp⟩ := h.handleFill_refused hcpus hbusy s.curTick
      rw [htemp]
      exact .refused hrefused hdrifted
    · obtain ⟨hcounted, hmem, hvalid⟩ := @Tags.Counted.handleFill cfg.geom s.tags h s.mshrQueue
        ((s.register m).handleFill pkt).2 (s.tags.findBlock cfg.geom pkt.addr) (fun p hp => h.found hp)
        (fun hnone hbusy => hrefused ⟨hf, hnone, haddr ▸ hbusy⟩) s.curTick
      exact .held hrefused (.inl hf) hmem hcounted hvalid

theorem retire_write (m : MshrRef) (blk : Option BlkPtr) (s : Cache σ) : ∃ f, Tags.Plain f ∧
    (s.retire m blk).tags = match blk with | some ptr => s.tags.modify ptr f | none => s.tags := by
  unfold retire
  dsimp only
  split
  · refine ⟨fun b => { b with status := { b.status with readable := false } },
      Tags.plain_status (fun st => { st with readable := false }) fun _ => rfl, ?_⟩
    rw [setQueue_tags]
    cases blk <;> rfl
  · refine ⟨id, Tags.plain_id, ?_⟩
    rw [freed_tags]
    cases blk with
    | none => rfl
    | some ptr => exact (modify_id ..).symm

/-- The target loop, the invalidation and the end of a response, after its fill. -/
theorem answer_tags (cfg : Config) (P : Policy σ) (m : MshrRef) (pkt : Packet) (upward : Nat → SnoopAnswer)
    (s : Cache σ) : ∃ (a : Answer) (service : Service σ) (f : CacheBlk → CacheBlk),
      let r := s.fill cfg m pkt (s.isFill m pkt)
      let t := ((r.1.register m).targets.list.foldl (serviceTarget cfg P a) service).tags
      a.blk = r.2.2.1 ∧ a.isFill = s.isFill m pkt ∧ service.tags = r.1.tags ∧ Tags.Plain f ∧
        (s.answer cfg P m pkt upward).2.1 = r.2.2.1 ∧ (s.answer cfg P m pkt upward).1.tags = match r.2.2.1 with
          | some ptr => (if r.2.1.cmd.isInvalidate then t.invalidateBlk cfg.geom ptr else t).modify ptr f
          | none => t := by
  obtain ⟨a, hblk, hfill, heq⟩ : ∃ a : Answer, a.blk = (s.fill cfg m pkt (s.isFill m pkt)).2.2.1 ∧
      a.isFill = s.isFill m pkt ∧ s.answer cfg P m pkt upward =
        ((((s.fill cfg m pkt (s.isFill m pkt)).1.serviceTargets cfg P m a).invalidateAfter cfg
          (s.fill cfg m pkt (s.isFill m pkt)).2.1 (s.fill cfg m pkt (s.isFill m pkt)).2.2.1).retire m
            (s.fill cfg m pkt (s.isFill m pkt)).2.2.1, (s.fill cfg m pkt (s.isFill m pkt)).2.2) :=
    ⟨_, rfl, rfl, rfl⟩
  generalize s.fill cfg m pkt (s.isFill m pkt) = r at hblk heq
  obtain ⟨s₁, pkt₁, blk, wbs⟩ := r
  obtain ⟨f, hf, hretire⟩ := retire_write m blk ((s₁.serviceTargets cfg P m a).invalidateAfter cfg pkt₁ blk)
  refine ⟨a, { tags := s₁.tags, prefetcher := s₁.prefetcher, cpuSidePort := s₁.cpuSidePort
               memSidePort := s₁.memSidePort }, f, hblk, hfill, rfl, hf, by rw [heq], ?_⟩
  rw [heq]
  dsimp only
  rw [hretire]
  cases blk with
  | none => rfl
  | some ptr =>
    dsimp only [invalidateAfter]
    split <;> rfl

/-- The end of a response that has taken its block as often as it was there. -/
theorem ended_counted {t : Tags} {f : CacheBlk → CacheBlk} (hf : Tags.Plain f) (hp : ptr ∈ Tags.frames cfg.geom)
    (h : t.Counted cfg.geom) (hthere : pkt.cmd.isInvalidate = true → (t.blks ptr).isValid = true) :
    ((if pkt.cmd.isInvalidate then t.invalidateBlk cfg.geom ptr else t).modify ptr f).Counted cfg.geom := by
  apply (hf.still ..).counted
  split
  · rename_i hinvalidate
    exact h.invalidateBlk hp (hthere hinvalidate)
  · exact h

theorem ended_drifted (hcpus : 0 < cfg.geom.numCpus) {t : Tags} {f : CacheBlk → CacheBlk} (hf : Tags.Plain f)
    (h : t.Drifted cfg.geom) :
    ((if pkt.cmd.isInvalidate then t.invalidateBlk cfg.geom ptr else t).modify ptr f).Drifted cfg.geom := by
  apply (hf.still ..).drifted
  split
  · exact h.invalidateBlk hcpus ptr
  · exact h

theorem answer_counted (hcpus : 0 < cfg.geom.numCpus) (h : s.tags.Counted cfg.geom) (hfree : ¬ s.FillRefused cfg m pkt)
    (honce : ¬ s.TakenTwice cfg m pkt) (upward : Nat → SnoopAnswer) :
    (s.answer cfg P m pkt upward).1.tags.Counted cfg.geom ∧ (s.answer cfg P m pkt upward).2.1 ≠ some .temp := by
  obtain ⟨hfilling, hcmd, htargets⟩ := fill_filling hcpus h m pkt
  obtain ⟨a, service, f, hblk, hisFill, hservice, hf, hptr, htags⟩ := answer_tags cfg P m pkt upward s
  rw [hcmd, htargets] at htags
  rw [hptr, htags]
  generalize (s.fill cfg m pkt (s.isFill m pkt)).2.2.1 = blk at hfilling hblk ⊢
  generalize (s.fill cfg m pkt (s.isFill m pkt)).1.tags = t at hfilling hservice
  cases hfilling with
  | none _ _ =>
    refine ⟨?_, by simp⟩
    dsimp only
    rw [serviceTargets_none hblk, hservice]
    exact h
  | refused hrefused _ => exact absurd hrefused hfree
  | held _ hhas hmem hcounted hvalid =>
    rw [← hservice] at hcounted hvalid
    obtain ⟨hloop, hend⟩ : Orderly cfg.geom (s.isFill m pkt) pkt (s.answered m pkt) :=
      not_not.1 fun hno => honce ⟨hhas, hno⟩
    obtain ⟨hcounted', hvalid'⟩ := @serviceTargets_counted σ cfg P a _ service hblk hmem (s.answered m pkt) hcounted
      (by rw [hvalid, hisFill]; exact ⟨hloop, fun hc => absurd hc (by simp)⟩)
    refine ⟨ended_counted hf hmem hcounted' fun hinvalidate => ?_, ?_⟩
    · rw [hvalid', hvalid, hisFill]
      simpa using hend hinvalidate
    · rintro ⟨⟩
      exact Tags.temp_notMem_frames hmem

theorem answer_drifted (hcpus : 0 < cfg.geom.numCpus) (h : s.tags.Counted cfg.geom)
    (hdrifts : s.FillRefused cfg m pkt ∨ s.TakenTwice cfg m pkt) (upward : Nat → SnoopAnswer) :
    (s.answer cfg P m pkt upward).1.tags.Drifted cfg.geom := by
  obtain ⟨hfilling, hcmd, htargets⟩ := fill_filling hcpus h m pkt
  obtain ⟨a, service, f, hblk, hisFill, hservice, hf, hptr, htags⟩ := answer_tags cfg P m pkt upward s
  rw [hcmd, htargets] at htags
  rw [htags]
  generalize (s.fill cfg m pkt (s.isFill m pkt)).2.2.1 = blk at hfilling hblk ⊢
  generalize (s.fill cfg m pkt (s.isFill m pkt)).1.tags = t at hfilling hservice
  cases hfilling with
  | none hno hnone =>
    rcases hdrifts with hrefused | ⟨hhas, -⟩
    · exact absurd (hrefused.1.symm.trans hno) (by simp)
    · simp [hno, hnone] at hhas
  | refused _ hdrifted =>
    rw [← hservice] at hdrifted
    exact ended_drifted hcpus hf (serviceTargets_drifted hcpus hblk _ hdrifted)
  | @held _ ptr hfree _ hmem hcounted hvalid =>
    rw [← hservice] at hcounted hvalid
    obtain ⟨-, hno⟩ := hdrifts.resolve_left hfree
    by_cases hloop : LoopOrderly cfg.geom a.isFill (service.tags.blks ptr).isValid (s.answered m pkt)
    · -- the loop has taken the block, and the end of the response takes it again
      obtain ⟨hcounted', hvalid'⟩ := @serviceTargets_counted σ cfg P a _ service hblk hmem (s.answered m pkt) hcounted
        hloop
      rw [hisFill] at hloop hvalid'
      obtain ⟨hinvalidate, target, htarget, htakes⟩ : pkt.cmd.isInvalidate = true ∧
          ∃ target ∈ s.answered m pkt, target.takes cfg.geom (s.isFill m pkt) = true := by
        by_contra hc
        refine hno ⟨hloop.1, fun hinvalidate target htarget => ?_⟩
        rw [← Bool.not_eq_true]
        exact fun htakes => hc ⟨hinvalidate, target, htarget, htakes⟩
      dsimp only
      rw [if_pos hinvalidate]
      apply (hf.still ..).drifted
      apply hcounted'.invalidate_invalid hcpus
      rw [hvalid', List.any_eq_true.2 ⟨target, htarget, htakes⟩, Bool.not_true, Bool.and_false]
    · exact ended_drifted hcpus hf (serviceTargets_blind hcpus hblk hmem _ hcounted hloop)

theorem drifted_stays (hcpus : 0 < cfg.geom.numCpus) : Stays cfg (Tags.Drifted cfg.geom) where
  status _ f hf h := ((Tags.plain_status f fun st => (hf st).1).still ..).drifted h
  invalidate ptr h := h.invalidateBlk hcpus ptr

section

variable (m pkt)

/-- What a response reads is not changed by `clearNoTarget`. -/
theorem fillRefused_clearNoTarget : (s.clearNoTarget m).FillRefused cfg m pkt ↔ s.FillRefused cfg m pkt := by
  have hq : (s.clearNoTarget m).mshrQueue = s.mshrQueue := clearNoTarget_queue m s .mshrs
  rw [FillRefused, clearNoTarget_fills, clearNoTarget_tags, hq]
  rfl

theorem takenTwice_clearNoTarget : (s.clearNoTarget m).TakenTwice cfg m pkt ↔ s.TakenTwice cfg m pkt := by
  rw [TakenTwice, answered, clearNoTarget_isFill, clearNoTarget_fills, servedTargets, clearNoTarget_register,
    clearNoTarget_tags]
  rfl

end

theorem handleResponse_counted (hcpus : 0 < cfg.geom.numCpus) (h : s.tags.Counted cfg.geom)
    (hok : pkt.cmd ≠ .networkNackError → ¬ s.FillRefused cfg m pkt ∧ ¬ s.TakenTwice cfg m pkt)
    (upward : Nat → SnoopAnswer) : (s.handleResponse cfg P m pkt upward).tags.Counted cfg.geom := by
  unfold handleResponse
  dsimp only
  split
  · exact h
  · rename_i hnack
    obtain ⟨hfree, honce⟩ := hok hnack
    rw [← fillRefused_clearNoTarget] at hfree
    rw [← takenTwice_clearNoTarget] at honce
    rw [← clearNoTarget_tags m s] at h
    obtain ⟨hcounted, hptr⟩ := @answer_counted σ cfg P _ m pkt hcpus h hfree honce upward
    rw [clearTemp, if_neg hptr, copyWritebacks_tags]
    exact hcounted

theorem handleResponse_drifted (hcpus : 0 < cfg.geom.numCpus) (h : s.tags.Counted cfg.geom)
    (hnack : pkt.cmd ≠ .networkNackError) (hdrifts : s.FillRefused cfg m pkt ∨ s.TakenTwice cfg m pkt)
    (upward : Nat → SnoopAnswer) : (s.handleResponse cfg P m pkt upward).tags.Drifted cfg.geom := by
  unfold handleResponse
  dsimp only
  rw [if_neg hnack]
  rw [← fillRefused_clearNoTarget, ← takenTwice_clearNoTarget] at hdrifts
  rw [← clearNoTarget_tags m s] at h
  apply (drifted_stays hcpus).clearTemp
  rw [copyWritebacks_tags]
  exact answer_drifted hcpus h hdrifts upward

/-! ## Requests, snoops and sending -/

theorem hitPath_still (r : AccessResult) (time : Tick) (s : Cache σ) :
    s.tags.Still cfg.geom (s.hitPath cfg P r time).tags := by
  rw [hitPath_tags]
  split
  · split
    · exact (Tags.plain_status (fun st => { st with hwPrefetched := false }) fun _ => rfl).still ..
    · exact .refl ..
  · exact .refl ..

theorem missPath_still (r : AccessResult) (time : Tick) (s : Cache σ) :
    s.tags.Still cfg.geom (s.missPath cfg P r time).tags := by
  rcases missPath_tags cfg P r time s with heq | ⟨ptr, heq⟩
  · rw [heq]
    exact .refl ..
  · rw [heq]
    exact (Tags.plain_status (fun st => { st with readable := false }) fun _ => rfl).still ..

/-- A request counts what its access counts. -/
theorem cpuRecvTiming_still (pkt : Packet) (s : Cache σ) :
    (((s.accessOf cfg pkt).map (·.tags)).getD s.tags).Still cfg.geom (s.cpuRecvTiming cfg P pkt).tags := by
  rw [cpuRecvTiming_tags]
  cases s.accessOf cfg pkt with
  | none => exact .refl ..
  | some r =>
    dsimp only [Option.map_some, Option.getD_some]
    split
    · exact hitPath_still r _ { s with tags := r.tags }
    · exact missPath_still r _ { s with tags := r.tags }

theorem snoopTiming_counted (h : s.tags.Counted cfg.geom) (pkt : Packet) (answer : SnoopAnswer) :
    (s.snoopTiming cfg pkt answer).tags.Counted cfg.geom := by
  rcases snoopTiming_tags cfg pkt answer s with heq | ⟨port, now, pkt', heq⟩
  · rw [heq]
    exact h
  · rw [heq]
    cases hfind : s.tags.findBlock cfg.geom pkt.addr with
    | none => exact h
    | some ptr =>
      obtain ⟨hmem, hvalid⟩ := h.found hfind
      obtain ⟨f, hf, htags⟩ := handleSnoop_write cfg s.tags port now answer pkt' ptr false false
      rw [htags]
      exact h.write hmem hvalid hf _

/-- The answer the cache gives itself to a failed upgrade takes no block. -/
theorem sendPacket_counted (hcpus : 0 < cfg.geom.numCpus) (h : s.tags.Counted cfg.geom) (accept : Bool)
    (upward : Nat → SnoopAnswer) : (s.sendPacket cfg P accept upward).tags.Counted cfg.geom := by
  rcases sendPacket_tags cfg P accept upward s with hsame | ⟨c, m, target, pkt, hnext, -, -, hpkt, heq⟩
  · rw [hsame]
    exact h
  · have htags : c.tags = s.tags := by
      have hnext' := getNextMSHR_tags cfg s
      rwa [hnext] at hnext'
    rw [heq]
    rw [← htags] at h
    have hnofill : c.isFill m pkt = false := by
      simp [isFill, hpkt, MemCmd.isRead, MemCmd.testCmdAttrib, MemCmd.attributes]
    apply handleResponse_counted hcpus h
    refine fun _ => ⟨?_, ?_⟩
    · rintro ⟨hfills, -, -⟩
      have hfill : c.isFill m pkt = true := (Bool.and_eq_true_iff.1 hfills).1
      rw [hnofill] at hfill
      cases hfill
    · rintro ⟨-, hno⟩
      refine hno ⟨?_, ?_⟩
      · rw [hnofill]
        exact List.pairwise_iff_forall_sublist.2 fun _ _ => by simp [Target.takesBlindly]
      · rw [hpkt]
        intro hc
        exact absurd hc (by decide)

/-! ## Runs -/

/-- The steps that count down a block that is not given up: an allocation that is refused, and a
response that takes its block twice. -/
def Drifts (cfg : Config) (s : Cache σ) : Action → Prop
  | .cpuPacket pkt => (s.accessOf cfg pkt).isSome = true ∧ s.tags.AccessRefused cfg.geom s.mshrQueue pkt
  | .response m pkt _ => pkt.cmd ≠ .networkNackError ∧ (s.FillRefused cfg m pkt ∨ s.TakenTwice cfg m pkt)
  | _ => False

instance (cfg : Config) (s : Cache σ) : DecidablePred (s.Drifts cfg) := by
  rintro ⟨⟩ <;> dsimp only [Drifts] <;> infer_instance

theorem step_counted (hcpus : 0 < cfg.geom.numCpus) (h : s.tags.Counted cfg.geom) {a : Action}
    (ha : ¬ s.Drifts cfg a) : (s.step cfg P a).tags.Counted cfg.geom := by
  cases a with
  | tick n => exact h
  | cpuPacket pkt =>
    apply (cpuRecvTiming_still pkt s).counted
    cases hmade : s.accessOf cfg pkt with
    | none => exact h
    | some r =>
      have hfree : ¬ s.tags.AccessRefused cfg.geom s.mshrQueue pkt := fun hrefused => ha ⟨by rw [hmade]; rfl, hrefused⟩
      rw [Option.map_some, Option.getD_some, accessOf_eq hmade]
      exact h.access hfree s.curTick
  | response m pkt upward =>
    exact handleResponse_counted hcpus h (fun hnack => not_or.1 fun hd => ha ⟨hnack, hd⟩) upward
  | snoop pkt answer => exact snoopTiming_counted h pkt answer
  | sendPacket accept upward => exact sendPacket_counted hcpus h accept upward
  | cpuSend => exact h
  | downstream m pending =>
    rw [step, setRegister, setQueue_tags]
    exact h

theorem step_drifted (hcpus : 0 < cfg.geom.numCpus) (h : s.tags.Counted cfg.geom) {a : Action}
    (ha : s.Drifts cfg a) : (s.step cfg P a).tags.Drifted cfg.geom := by
  cases a with
  | cpuPacket pkt =>
    obtain ⟨hsome, hrefused⟩ := ha
    obtain ⟨r, hmade⟩ := Option.isSome_iff_exists.1 hsome
    have hstill := @cpuRecvTiming_still σ cfg P pkt s
    rw [hmade, accessOf_eq hmade] at hstill
    exact hstill.drifted (h.access_refused hcpus hrefused s.curTick)
  | response m pkt upward => exact handleResponse_drifted hcpus h ha.1 ha.2 upward
  | tick => exact ha.elim
  | snoop => exact ha.elim
  | sendPacket => exact ha.elim
  | cpuSend => exact ha.elim
  | downstream => exact ha.elim

theorem along_accounted_iff (hcpus : 0 < cfg.geom.numCpus) (P : Policy σ) (policy : σ) (acts : List Action) :
    Runs.Along (step cfg P) (fun s => s.tags.Accounted cfg.geom) (initial cfg policy) acts ↔
      Runs.Guarded (step cfg P) (fun s a => ¬ s.Drifts cfg a) (initial cfg policy) acts := by
  have hinitial : (initial cfg policy).tags.Counted cfg.geom := Tags.initial_counted cfg.geom
  refine @Runs.along_iff_guarded _ _ _ (fun s : Cache σ => s.tags.Counted cfg.geom) _ (fun _ _ => True) _ ?_ ?_ acts _
    hinitial (hinitial.accounted hcpus) (Runs.guarded_of_forall (fun _ _ => trivial) acts _)
  · intro s a hs _ _ hok
    have hnext := @step_counted σ cfg P s hcpus hs a hok
    exact ⟨hnext, hnext.accounted hcpus⟩
  · intro s a hs _ _ haccounted hdrifts
    exact (@step_drifted σ cfg P s hcpus hs a hdrifts).not_accounted haccounted

end Cache

/-! ## Atomic mode -/

theorem not_busy_noMisses (g : Geometry) (t : Tags) (addr : Addr) : ¬ t.VictimBusy g noMisses addr := by
  rintro ⟨-, hmatch⟩
  cases hmatch

namespace Tags.Counted

variable {g : Geometry} {t : Tags} {pkt : Packet}

theorem snoopAtomic (h : t.Counted g) {t' : Tags} {pkt' : Packet} {latency : Tick}
    (hsnoop : PrefetchSim.snoopAtomic g t pkt = some (t', pkt', latency)) : t'.Counted g := by
  unfold PrefetchSim.snoopAtomic at hsnoop
  split at hsnoop
  · cases hsnoop
    exact h
  · obtain ⟨r, hr, heq⟩ := Option.map_eq_some_iff.1 hsnoop
    obtain ⟨rfl, -⟩ := Prod.mk.inj heq
    unfold handleSnoopAtomic at hr
    split at hr
    · cases hr
    split at hr
    · cases hr
      exact h
    · rename_i ptr hfind
      obtain ⟨hmem, hvalid⟩ := h.found hfind
      dsimp only at hr
      rw [hvalid] at hr
      simp only [Bool.not_true, Bool.false_eq_true, if_false] at hr
      split at hr
      · cases hr
      · cases hr
        obtain ⟨f, hf, hshared⟩ : ∃ f, Tags.Plain f ∧ (if pkt.cmd.isRead && !pkt.cmd.isInvalidate then
            t.modify ptr fun b => { b with status := { b.status with writable := false } } else t) =
              t.modify ptr f := by
          split
          · exact ⟨_, Tags.plain_status (fun st => { st with writable := false }) fun _ => rfl, rfl⟩
          · exact ⟨id, Tags.plain_id, (modify_id t ptr).symm⟩
        dsimp only
        rw [hshared]
        exact h.write hmem hvalid hf _

/-- The block of a request that is not satisfied is still there. -/
theorem accessAtomic (h : t.Counted g) (now : Tick) :
    (AtomicSystem.accessAtomic g t now pkt).tags.Counted g ∧
      ((AtomicSystem.accessAtomic g t now pkt).satisfied = false → ∀ p ∈ (AtomicSystem.accessAtomic g t now pkt).blk,
        p ∈ Tags.frames g ∧ ((AtomicSystem.accessAtomic g t now pkt).tags.blks p).isValid = true) := by
  unfold AtomicSystem.accessAtomic
  split
  · exact ⟨h, fun _ p hp => absurd hp (by simp)⟩
  refine ⟨h.access (fun hrefused => not_busy_noMisses g t pkt.addr hrefused.2.2) now, ?_⟩
  cases hfind : t.findBlock g pkt.addr with
  | some ptr =>
    obtain ⟨hmem, hvalid⟩ := h.found hfind
    have hfound := t.accessBlock_found g now pkt.addr
    have hstill := t.still_accessBlock g now pkt.addr
    unfold PrefetchSim.access
    generalize t.accessBlock g now pkt.addr = acc at hfound hstill ⊢
    obtain ⟨t₁, lat, blk⟩ := acc
    dsimp only at hfound hstill ⊢
    rw [hfound, hfind]
    dsimp only
    split
    · exact fun hsat => absurd hsat (by simp)
    split
    · exact fun hsat => absurd hsat (by simp)
    · intro _ p hp
      obtain rfl := Option.some.inj hp
      exact ⟨hmem, (hstill.valid ptr hmem).trans hvalid⟩
  | none =>
    unfold PrefetchSim.access
    rw [Tags.accessBlock_of_none hfind]
    dsimp only
    split
    · obtain ⟨t₁, wbs, halloc, -⟩ := h.allocateBlock (not_busy_noMisses g t pkt.addr) now
      rw [halloc]
      exact fun hsat => absurd hsat (by simp)
    · split <;> exact fun _ p hp => absurd hp (by simp)

end Tags.Counted

namespace AtomicSystem

variable {ι : Type} [DecidableEq ι] {B : Bus ι} {s s' : AtomicSystem ι} {i : ι} {now memLatency : Tick}
  {pkt pkt' : Packet} {lat : Tick}

/-- All caches count their frames. -/
def Counted (B : Bus ι) (caches : ι → Tags) : Prop := ∀ i, (caches i).Counted (B.geom i)

theorem Counted.update {caches : ι → Tags} (h : Counted B caches) {t : Tags} (ht : t.Counted (B.geom i)) :
    Counted B (Function.update caches i t) := by
  intro j
  by_cases hj : j = i
  · subst hj
    rwa [Function.update_self]
  · rw [Function.update_of_ne hj]
    exact h j

/-- The other caches are snooped, and the sender is not. -/
theorem recvAtomic_counted (h : Counted B s.caches)
    (hrecv : B.recvAtomic s i now memLatency pkt = some (s', pkt', lat)) :
    Counted B s'.caches ∧ s'.caches i = s.caches i := by
  unfold Bus.recvAtomic at hrecv
  split at hrecv
  · cases hrecv
  obtain ⟨r, hrun, hrecv⟩ := Option.bind_eq_some_iff.1 hrecv
  obtain ⟨⟨memory, answer, latency⟩, -, hfinish⟩ := Option.bind_eq_some_iff.1 hrecv
  have hcaches : s'.caches = r.caches := by
    dsimp only [Bus.finish] at hfinish
    split at hfinish
    · cases hfinish
      rfl
    · split at hfinish
      · cases hfinish
      · cases hfinish
        rfl
  rw [hcaches]
  refine Runs.foldlM_invariant (I := fun r : Snoops ι => Counted B r.caches ∧ r.caches i = s.caches i) ?_
    B.snoopPorts { caches := s.caches, pkt } r ⟨h, rfl⟩ hrun
  rintro r j r' ⟨hr, hsrc⟩ hsnoop
  unfold Bus.snoop at hsnoop
  split at hsnoop
  · cases hsnoop
    exact ⟨hr, hsrc⟩
  · rename_i hne
    split at hsnoop
    · cases hsnoop
    · rename_i t pkt₁ latency₁ hatomic
      have hnext : Counted B (Function.update r.caches j t) ∧ Function.update r.caches j t i = s.caches i :=
        ⟨hr.update ((hr j).snoopAtomic hatomic), by rw [Function.update_of_ne (Ne.symm hne), hsrc]⟩
      dsimp only at hsnoop
      split at hsnoop
      · split at hsnoop
        · cases hsnoop
          exact hnext
        · cases hsnoop
      · cases hsnoop
        exact hnext

theorem missAtomic_counted (h : Counted B s.caches) {r : AccessResult}
    (hblk : ∀ p ∈ r.blk, p ∈ Tags.frames (B.geom i) ∧ ((s.caches i).blks p).isValid = true) {wbs : List Packet}
    (hmiss : s.missAtomic B i now memLatency r = some (s', pkt', lat, wbs)) : Counted B s'.caches := by
  unfold missAtomic at hmiss
  dsimp only at hmiss
  split at hmiss
  · obtain ⟨⟨s₁, pkt₁, lat₁⟩, hrecv, hdone⟩ := Option.bind_eq_some_iff.1 hmiss
    cases hdone
    exact (recvAtomic_counted h hrecv).1
  · obtain ⟨⟨s₁, busPkt, lat₁⟩, hrecv, hdone⟩ := Option.bind_eq_some_iff.1 hmiss
    obtain ⟨h₁, hsame⟩ := recvAtomic_counted h hrecv
    dsimp only at hdone
    split at hdone
    · cases hdone
    split at hdone
    · cases hdone
      exact h₁
    split at hdone
    · cases hdone
    split at hdone
    · cases hdone
      exact h₁
    split at hdone
    · cases hdone
      rw [← hsame] at hblk
      obtain ⟨hfill, hmem, hvalid⟩ := (h₁ i).handleFill hblk
        (fun _ => not_busy_noMisses (B.geom i) (s₁.caches i) busPkt.addr) now
      obtain ⟨f, hf, hsat⟩ := satisfy_tags (B.geom i) (PrefetchSim.handleFill (B.geom i) (s₁.caches i) noMisses now
        busPkt r.blk).1 (PrefetchSim.handleFill (B.geom i) (s₁.caches i) noMisses now busPkt r.blk).2.1 r.pkt
      apply h₁.update
      rw [hsat]
      exact hfill.write hmem hvalid hf _
    · cases hdone
      exact h₁

theorem sendWritebacks_counted (h : Counted B s.caches) {wbs : List Packet}
    (hsend : s.sendWritebacks B i now memLatency wbs = some s') : Counted B s'.caches := by
  refine Runs.foldlM_invariant (I := fun s : AtomicSystem ι => Counted B s.caches) ?_ wbs s s' h hsend
  intro s₁ wb s₂ h₁ hstep
  obtain ⟨⟨s₃, _, _⟩, hrecv, rfl⟩ := Option.map_eq_some_iff.1 hstep
  exact (recvAtomic_counted h₁ hrecv).1

theorem atomicAccess_counted (h : Counted B s.caches)
    (haccess : s.atomicAccess B i now memLatency pkt = some (s', pkt', lat)) : Counted B s'.caches := by
  unfold atomicAccess at haccess
  dsimp only at haccess
  split at haccess
  · split at haccess
    · cases haccess
    split at haccess
    · obtain ⟨⟨s₁, pkt₁, lat₁⟩, hrecv, hdone⟩ := Option.bind_eq_some_iff.1 haccess
      cases hdone
      refine (recvAtomic_counted (h.update ?_) hrecv).1
      split
      · rename_i ptr hfind
        obtain ⟨hmem, hvalid⟩ := (h i).found hfind
        exact (h i).invalidateBlk hmem hvalid
      · exact h i
    · cases haccess
      exact h
  · obtain ⟨hcounted, hblk⟩ := @Tags.Counted.accessAtomic _ _ pkt (h i) now
    have hset := h.update hcounted
    split at haccess
    · obtain ⟨s₁, hsend, hdone⟩ := Option.bind_eq_some_iff.1 ((Option.bind_some ..).symm.trans haccess)
      cases hdone
      exact sendWritebacks_counted hset hsend
    · rename_i hsat
      obtain ⟨⟨s₁, pkt₁, lat₁, wbs⟩, hmiss, hrest⟩ := Option.bind_eq_some_iff.1 haccess
      obtain ⟨s₂, hsend, hdone⟩ := Option.bind_eq_some_iff.1 hrest
      cases hdone
      refine sendWritebacks_counted (missAtomic_counted hset ?_ hmiss) hsend
      intro p hp
      rw [setTags]
      dsimp only
      rw [Function.update_self]
      exact hblk (by simpa using hsat) p hp

end AtomicSystem

/-! ## Runs in both modes -/

/-- A packet that arrives at a cache in atomic mode. -/
structure AtomicCall (ι : Type) where
  cache : ι
  now : Tick
  memLatency : Tick
  pkt : Packet

namespace AtomicSystem

variable {ι : Type} [DecidableEq ι]

def initial (B : Bus ι) (memory : PhysicalMemory) : AtomicSystem ι where
  caches i := Tags.initial (B.geom i)
  memory

def call (B : Bus ι) (s : AtomicSystem ι) (c : AtomicCall ι) : Option (AtomicSystem ι) :=
  (s.atomicAccess B c.cache c.now c.memLatency c.pkt).map (·.1)

end AtomicSystem

/-- Along a run in timing mode the accounting is exact exactly if no step drifts; in atomic mode it
always is. The source divides by the number of CPUs, so there is one. -/
theorem accounted_iff {σ ι : Type} [DecidableEq ι] (cfg : Config) (P : Policy σ) (policy : σ) (acts : List Action)
    (B : Bus ι) (memory : PhysicalMemory) (calls : List (AtomicCall ι)) (hcpus : 0 < cfg.geom.numCpus)
    (hbus : ∀ i, 0 < (B.geom i).numCpus) :
    (Runs.Along (Cache.step cfg P) (fun s => s.tags.Accounted cfg.geom) (Cache.initial cfg policy) acts ↔
      Runs.Guarded (Cache.step cfg P) (fun s a => ¬ s.Drifts cfg a) (Cache.initial cfg policy) acts) ∧
    ∀ s, calls.foldlM (AtomicSystem.call B) (.initial B memory) = some s →
      ∀ i, (s.caches i).Accounted (B.geom i) := by
  refine ⟨Cache.along_accounted_iff hcpus P policy acts, ?_⟩
  intro s hrun i
  have hinitial : AtomicSystem.Counted B (AtomicSystem.initial B memory).caches :=
    fun i => Tags.initial_counted (B.geom i)
  refine Tags.Counted.accounted (hbus i) ?_
  refine Runs.foldlM_invariant (I := fun s : AtomicSystem ι => AtomicSystem.Counted B s.caches) ?_ calls _ s hinitial
    hrun i
  intro s₁ c s₂ hs hcall
  obtain ⟨⟨s₃, _, _⟩, haccess, rfl⟩ := Option.map_eq_some_iff.1 hcall
  exact AtomicSystem.atomicAccess_counted hs haccess

/-- A block is filled into a frame, another cache takes it, and it is filled again. -/
def refilledRun : List Action :=
  sharedRun ++ [.snoop (Packet.ofRequest { paddr := 4096, size := 64 } .readExReq 0) {}] ++ sharedRun

/-- A store in one cache takes the block from the other. -/
def twoStores {ι : Type} (i j : ι) : List (AtomicCall ι) :=
  [⟨i, 0, 10, store 1 4096⟩, ⟨j, 1, 10, store 1 4096⟩, ⟨i, 2, 10, load 1 4096⟩]

theorem accounted_refilledRun :
    let cfg := smallConfig 6
    let s₀ := AtomicSystem.initial Observed.twoCaches Observed.zeroMemory
    Runs.Along (Cache.step cfg (proxy 0 dcpt)) (fun s => s.tags.Accounted cfg.geom) (Cache.initial cfg Dcpt.initial)
        refilledRun ∧
      ((twoStores 0 1).foldlM (AtomicSystem.call Observed.twoCaches) s₀).isSome = true ∧
      ∀ s, (twoStores 0 1).foldlM (AtomicSystem.call Observed.twoCaches) s₀ = some s →
        ∀ i, (s.caches i).Accounted (Observed.twoCaches.geom i) := by
  obtain ⟨htiming, hatomic⟩ := accounted_iff (smallConfig 6) (proxy 0 dcpt) Dcpt.initial refilledRun Observed.twoCaches
    Observed.zeroMemory (twoStores 0 1) (by decide) (fun _ => Nat.one_pos)
  exact ⟨htiming.2 (by decide +kernel), by decide +kernel, hatomic⟩

/-- The third block of `upgradedRun` arrives, and finds no frame. -/
def bypassedRun : List Action :=
  upgradedRun ++ [.response (.mshrs, 1) { Packet.ofRequest { paddr := 4352, size := 64 } .readResp 2 with
    data := List.replicate 64 0, shared := true } noSnoops]

/-- Two frames are valid and touched, and nothing is left of the counters: the victim that stayed
was counted out, and then so was the temporary block. -/
theorem bypassed_not_accounted :
    let cfg := smallConfig 6
    let s₀ := Cache.initial cfg Dcpt.initial
    let s := Runs.exec (Cache.step cfg (proxy 0 dcpt)) s₀ bypassedRun
    Runs.Guarded (Cache.step cfg (proxy 0 dcpt)) (Cache.Enabled cfg) s₀ bypassedRun ∧
      ((Tags.frames cfg.geom).filter fun p => (s.tags.blks p).isValid).card = 2 ∧ s.tags.tagsInUse = 1 ∧
      (s.tags.occupancies 0, s.tags.occupancies 1) = (0, 0) ∧ ¬ s.tags.Accounted cfg.geom ∧
      ¬ Runs.Along (Cache.step cfg (proxy 0 dcpt)) (fun s => s.tags.Accounted cfg.geom) s₀ bypassedRun := by
  decide +kernel

end PrefetchSim
