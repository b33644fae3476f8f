import PrefetchSim.Mem.System

/- A prefetch does not destroy newer data: when it does and when it does not.

   The cache refines the store of `Layers` as long as every step meets three
   conditions (`Meets`): the block of a prefetch that is answered is not in the
   cache, no write to it waits when a prefetch becomes a miss, and a block given
   back that finds no frame has no miss outstanding. Then what is seen of a block
   through the cache is what was last given back of it (`value_kept`). Each of the
   three conditions can fail in a run, and then newer data is lost
   (`newer_data_lost`). -/
namespace PrefetchSim

/-! ## Packets of the prefetcher -/

namespace Prefetcher

variable {σ : Type}

theorem notify_isPrefetch (P : Policy σ) (g : Geometry) (cfg : PfConfig) (inCache inMissQueue : Addr → Bool)
    (now : Tick) (pkt : Packet) (time : Tick) {s : Prefetcher σ} (hs : ∀ p ∈ s.pf, IsPrefetch p) :
    ∀ p ∈ (s.notify P g cfg inCache inMissQueue now pkt time).1.pf, IsPrefetch p := by
  have hremoved : ∀ p ∈ (s.removeDemanded g pkt.addr).pf, IsPrefetch p :=
    fun p hp => hs p (List.mem_of_mem_eraseP hp)
  have hsquashed : ∀ p ∈ ((s.removeDemanded g pkt.addr).squash time).pf, IsPrefetch p :=
    fun p hp => hremoved p ((List.rdropWhile_prefix _ _).subset hp)
  unfold notify
  dsimp only
  split
  · split
    · exact enqueueAll_forall (fun _ => ⟨rfl, rfl, rfl⟩) _ hsquashed
    · exact enqueueAll_forall (fun _ => ⟨rfl, rfl, rfl⟩) _ hremoved
  · exact hs

end Prefetcher

namespace Cache

variable {σ : Type} {cfg : Config} {P : Policy σ} {s : Cache σ}

/-! ## The writebacks of a step -/

theorem allocateWriteBuffer_mshrQueue (pkt : Packet) (time : Tick) (s : Cache σ) :
    (s.allocateWriteBuffer pkt time).mshrQueue = s.mshrQueue :=
  queue_allocateBuffer .writeBuffer .mshrs ..

theorem allocateWriteBuffer_writeBuffer (pkt : Packet) (time : Tick) (s : Cache σ) :
    (s.allocateWriteBuffer pkt time).writeBuffer =
      (s.writeBuffer.allocate pkt.addr pkt.size pkt time s.order).1 :=
  queue_allocateBuffer .writeBuffer .writeBuffer ..

theorem copyWritebacks_mshrQueue (wbs : List Packet) (time : Tick) (s : Cache σ) :
    (s.copyWritebacks wbs time).mshrQueue = s.mshrQueue :=
  copyWritebacks_keeps (·.mshrQueue) allocateWriteBuffer_mshrQueue wbs time s

/-- What the write buffer is after at most one writeback. -/
inductive Posted (q : MshrQueue) (time : Tick) : List Packet → MshrQueue → Prop where
  | none : Posted q time [] q
  | one (pkt : Packet) (order : Nat) :
      Posted q time [pkt] (q.allocate pkt.addr pkt.size pkt time order).1

theorem copyWritebacks_posted {g : Geometry} {q : MshrQueue} {line line' : g.Block → Option (List UInt8 × Bool)}
    {wbs : List Packet} (h : MakesRoom g q line line' wbs) (time : Tick) (s : Cache σ) :
    Posted s.writeBuffer time wbs (s.copyWritebacks wbs time).writeBuffer := by
  cases h with
  | free => exact .none
  | clean => exact .none
  | dirty b v pkt =>
    have hone : (s.copyWritebacks [pkt] time).writeBuffer =
        (s.writeBuffer.allocate pkt.addr pkt.size pkt time s.order).1 := allocateWriteBuffer_writeBuffer ..
    rw [hone]
    exact .one pkt s.order

theorem freed_transmitList (s : Cache σ) (idx : QueueIdx) (q : MshrQueue) :
    (s.freed idx q).cpuSidePort.transmitList = s.cpuSidePort.transmitList := by
  unfold freed clearBlocked
  split
  · dsimp only
    split <;> cases idx <;> rfl
  · cases idx <;> rfl

/-- The port waits for a retry, or does not. -/
def waiting (s : Cache σ) (retry : Bool) : Cache σ :=
  { s with memSidePort := { s.memSidePort with waitingOnRetry := retry } }

/-- The choice of an entry only takes packets off the prefetch queue. -/
theorem tryPrefetch_queued (cfg : Config) (l : List Packet) (s : Cache σ) (hl : s.prefetcher.pf = l) :
    ∀ p ∈ (s.tryPrefetch cfg l).1.prefetcher.pf, p ∈ l := by
  induction l generalizing s with
  | nil =>
    intro p hp
    rw [← hl]
    exact hp
  | cons p rest ih =>
    intro p' hp'
    unfold tryPrefetch at hp'
    split at hp'
    · dsimp only at hp'
      split at hp'
      · rw [allocateMissBuffer, allocateBuffer_prefetcher] at hp'
        exact List.mem_cons_of_mem _ hp'
      · exact List.mem_cons_of_mem _ (ih _ rfl p' hp')
    · rw [← hl]
      exact hp'

theorem getNextMSHR_queued (cfg : Config) (s : Cache σ) :
    ∀ p ∈ (s.getNextMSHR cfg).1.prefetcher.pf, p ∈ s.prefetcher.pf := by
  unfold getNextMSHR
  split
  · exact fun _ hp => hp
  · split
    · exact fun _ hp => hp
    · exact tryPrefetch_queued cfg _ s rfl

theorem nextPrefetch_queued {p : Packet} (h : s.nextPrefetch cfg = some p) : p ∈ s.prefetcher.pf := by
  unfold nextPrefetch at h
  split at h
  · cases h
  · exact (List.takeWhile_prefix _).subset (List.mem_of_find?_eq_some h)

/-- The order does not depend on the prefetcher. -/
theorem Ordered.withPrefetcher (h : s.Ordered cfg) (pf : Prefetcher σ) :
    ({ s with prefetcher := pf } : Cache σ).Ordered cfg := by
  have hqueue : ∀ idx, ({ s with prefetcher := pf } : Cache σ).queue idx = s.queue idx := by
    rintro (_ | _) <;> rfl
  have hsound : ({ s with prefetcher := pf } : Cache σ).Sound cfg :=
    ⟨h.sound.tags, fun idx => hqueue idx ▸ h.sound.queues idx, fun idx => hqueue idx ▸ h.sound.numEntries idx,
      fun idx => hqueue idx ▸ h.sound.numReserve idx, h.sound.writes⟩
  exact ⟨hsound, h.behind, h.writes, h.sorted, h.timely⟩

/-! ## A writeback from above -/

theorem hitPath_writeback {r : AccessResult} (hcmd : r.pkt.cmd = .writeback) (time : Tick) :
    let s' := s.hitPath cfg P r time
    s'.mshrQueue = s.mshrQueue ∧ s'.writeBuffer = s.writeBuffer ∧
      s'.tags.line cfg.geom = s.tags.line cfg.geom ∧
      (s.tags.Housed cfg.geom → s'.tags.Housed cfg.geom) ∧
      ((∀ p ∈ s.prefetcher.pf, IsPrefetch p) → ∀ p ∈ s'.prefetcher.pf, IsPrefetch p) := by
  have hresp : r.pkt.cmd.needsResponse = false := by
    rw [hcmd]
    rfl
  unfold hitPath
  simp only [hresp, Bool.false_eq_true, if_false]
  split
  · have hpf := fun hs => Prefetcher.notify_isPrefetch P cfg.geom cfg.pf
      (fun a => (s.tags.findBlock cfg.geom a).isSome) (fun a => (s.mshrQueue.findMatch a).isSome)
      s.curTick r.pkt time (s := s.prefetcher) hs
    cases r.blk with
    | none => exact ⟨rfl, rfl, rfl, id, hpf⟩
    | some ptr =>
      have hinert := inert_status (fun st => { st with hwPrefetched := false }) (fun _ => rfl) s.tags ptr
      exact ⟨rfl, rfl, Tags.line_modify_same hinert (fun _ => ⟨rfl, rfl⟩),
        fun hh => hh.modify hinert, hpf⟩
  · exact ⟨rfl, rfl, rfl, id, id⟩

/-- A block that is given back and taken in: it goes to the cache, where room is made
for it, or to the write buffer, if there is no frame and no miss that it can join. -/
theorem timingAccess_writeback (hs : s.Ordered cfg) (hh : s.tags.Housed cfg.geom)
    (hsize : ∀ b c, s.tags.line cfg.geom b = some c → c.1.length = cfg.geom.blkSize)
    {pkt : Packet} {b : cfg.geom.Block} {v : List UInt8} (hgives : GivesBack cfg.geom b v pkt)
    (hv : v.length = cfg.geom.blkSize) (hinhibit : pkt.memInhibit = false)
    (hcache : pkt.req.uncacheable = false)
    (hjoin : s.tags.findBlock cfg.geom pkt.addr = none → noFrame cfg.geom s.tags s.mshrQueue pkt.addr = true →
      s.mshrQueue.findMatch (cfg.geom.blockAlign pkt.addr) = none) :
    let s' := s.timingAccess cfg P pkt
    s'.mshrQueue = s.mshrQueue ∧ s'.tags.Housed cfg.geom ∧
      ((∀ p ∈ s.prefetcher.pf, IsPrefetch p) → ∀ p ∈ s'.prefetcher.pf, IsPrefetch p) ∧
      ((∃ line' wbs, MakesRoom cfg.geom s.mshrQueue (s.tags.line cfg.geom) line' wbs ∧
          s'.tags.line cfg.geom = Function.update line' b (some (v, true)) ∧
          Posted s.writeBuffer (s.curTick + cfg.geom.hitLatency) wbs s'.writeBuffer) ∨
        (s.tags.line cfg.geom b = none ∧ s.mshrQueue.findMatch b.1 = none ∧
          s'.tags.line cfg.geom = s.tags.line cfg.geom ∧
          Posted s.writeBuffer (s.curTick + cfg.geom.hitLatency) [pkt] s'.writeBuffer)) := by
  have hreq : pkt.cmd.isResponse = false := by
    rw [hgives.cmd]
    rfl
  obtain ⟨hpkt, hhoused, hcases⟩ :=
    access_writeback hs.sound.tags hh hsize s.mshrQueue s.curTick hgives hv
  unfold timingAccess
  simp only [hreq, hinhibit, hcache, Bool.false_eq_true, if_false]
  generalize access cfg.geom s.tags s.mshrQueue s.curTick pkt = r at hpkt hhoused hcases ⊢
  rcases hcases with ⟨hsat, line', hroom, hline⟩ | ⟨hsat, hnone, hframe, hwbs, hline⟩
  · -- satisfied: the tags change, and the victim is buffered
    simp only [hsat, if_true]
    obtain ⟨hq, hw, hl, hhit, hpf'⟩ := @hitPath_writeback σ cfg P { s with tags := r.tags } r
      (hpkt ▸ hgives.cmd) (s.curTick + cfg.geom.hitLatency)
    have hposted := copyWritebacks_posted hroom (s.curTick + cfg.geom.hitLatency)
      (({ s with tags := r.tags } : Cache σ).hitPath cfg P r (s.curTick + cfg.geom.hitLatency))
    rw [hw] at hposted
    refine ⟨(copyWritebacks_mshrQueue ..).trans hq, ?_, ?_, .inl ⟨line', r.writebacks, hroom, ?_, hposted⟩⟩
    · rw [copyWritebacks_tags]
      exact hhit hhoused
    · rw [copyWritebacks_prefetcher]
      exact hpf'
    · rw [copyWritebacks_tags, hl]
      exact hline
  · -- not satisfied: the packet itself is buffered
    have hfound : s.tags.findBlock cfg.geom pkt.addr = none := by
      rw [hgives.addr]
      exact Tags.line_eq_none.1 hnone
    have hmiss := hjoin hfound hframe
    have hb : cfg.geom.blockAlign pkt.addr = b.1 := by
      rw [hgives.addr]
      exact b.2
    simp only [hsat, Bool.false_eq_true, if_false, hwbs]
    show let s' := (({ s with tags := r.tags } : Cache σ).missPath cfg P r
      (s.curTick + cfg.geom.hitLatency)); _
    unfold missPath
    simp only [hpkt, hmiss, hgives.cmd, if_true]
    have hbuffer := allocateWriteBuffer_writeBuffer pkt (s.curTick + cfg.geom.hitLatency)
      ({ s with tags := r.tags } : Cache σ)
    have htags : (({ s with tags := r.tags } : Cache σ).allocateWriteBuffer pkt
        (s.curTick + cfg.geom.hitLatency)).tags = r.tags := allocateBuffer_tags ..
    have hposted : Posted s.writeBuffer (s.curTick + cfg.geom.hitLatency) [pkt]
        (({ s with tags := r.tags } : Cache σ).allocateWriteBuffer pkt
          (s.curTick + cfg.geom.hitLatency)).writeBuffer := by
      rw [hbuffer]
      exact .one pkt s.order
    refine ⟨allocateWriteBuffer_mshrQueue .., ?_, ?_, .inr ⟨hnone, hb ▸ hmiss, ?_, hposted⟩⟩
    · exact htags.symm ▸ hhoused
    · intro hpf
      apply Prefetcher.notify_isPrefetch
      exact (allocateBuffer_prefetcher .writeBuffer ..).symm ▸ hpf
    · exact (congrArg (Tags.line cfg.geom) htags).trans hline

/-! ## The response to a prefetch -/

/-- The target loop for an entry with one target, a prefetch. -/
theorem serviceTargets_prefetch {m : MshrRef} {a : Answer} {t : Target} {ptr : BlkPtr}
    (htarget : (s.register m).targets.list = [t]) (hsource : t.source = .fromPrefetcher)
    (hblk : a.blk = some ptr) :
    let s' := s.serviceTargets cfg P m a
    s'.tags = (s.tags.modify ptr fun b => { b with status := { b.status with hwPrefetched := true } }) ∧
      s'.register m = (s.register m).served := by
  unfold serviceTargets
  dsimp only
  rw [htarget]
  refine ⟨?_, ?_⟩
  · simp [serviceTarget, hsource, hblk]
  · refine Eq.trans ?_ (register_setRegister s m (s.register m).served)
    obtain ⟨_ | _, i⟩ := m <;> rfl

/-- An entry without deferred targets is freed, and the tags stay as they are. -/
theorem retire_tags {m : MshrRef} (hdef : (s.register m).deferredTargets = {}) (blk : Option BlkPtr) :
    (s.retire m blk).tags = s.tags := by
  have hnone : ((s.register m).promoteDeferredTargets s.curTick).2 = false := by
    simp [Mshr.promoteDeferredTargets, hdef]
  unfold retire
  simp only [hnone, Bool.false_eq_true, if_false]
  exact freed_tags ..

/-- The tags after the entry's part of the response: the fill, and the mark that the
block was prefetched. -/
theorem answer_prefetch {i : Nat} {pkt : Packet} {t : Target}
    (hdef : (s.mshrQueue.registers i).deferredTargets = {})
    (htarget : (s.mshrQueue.registers i).targets.list = [t]) (hsource : t.source = .fromPrefetcher)
    (hforward : (s.mshrQueue.registers i).isForward = false) (hcmd : pkt.cmd = .readResp)
    (habsent : s.tags.findBlock cfg.geom pkt.addr = none) (upward : Nat → SnoopAnswer) :
    let pkt' := { pkt with shared := pkt.shared || (s.mshrQueue.registers i).pendingShared }
    let f := PrefetchSim.handleFill cfg.geom s.tags s.mshrQueue s.curTick pkt' none
    let r := s.answer cfg P (.mshrs, i) pkt upward
    r.1.tags = (f.1.modify f.2.1 fun b => { b with status := { b.status with hwPrefetched := true } }) ∧
      r.2 = (some f.2.1, f.2.2) := by
  have hread : pkt.cmd.isRead = true := by
    rw [hcmd]
    rfl
  have herror : pkt.cmd.isError = false := by
    rw [hcmd]
    rfl
  have hinval : pkt.cmd.isInvalidate = false := by
    rw [hcmd]
    rfl
  have hreg : s.register (.mshrs, i) = s.mshrQueue.registers i := rfl
  have hfill : (s.mshrQueue.registers i).handleFill pkt = (s.mshrQueue.registers i,
      { pkt with shared := pkt.shared || (s.mshrQueue.registers i).pendingShared }) := by
    simp [Mshr.handleFill, hdef]
  have hself : s.setRegister (.mshrs, i) (s.mshrQueue.registers i) = s := setRegister_self s (.mshrs, i)
  unfold answer answerOf isFill fill
  simp only [hreg, hforward, hread, herror, Bool.not_false, Bool.true_or, Bool.and_self, if_true, habsent,
    hfill, hself]
  refine ⟨?_, trivial⟩
  generalize PrefetchSim.handleFill cfg.geom s.tags s.mshrQueue s.curTick
    { pkt with shared := pkt.shared || (s.mshrQueue.registers i).pendingShared } none = f
  obtain ⟨t₁, ptr, wbs⟩ := f
  dsimp only
  generalize ha : (Answer.mk _ _ _ _ _ _ _) = a
  have hblk : a.blk = some ptr := by rw [← ha]
  obtain ⟨htags, hserved⟩ := @serviceTargets_prefetch σ cfg P { s with tags := t₁ } (.mshrs, i) a t ptr
    htarget hsource hblk
  have hkeep : (serviceTargets cfg P (.mshrs, i) a { s with tags := t₁ }).invalidateAfter cfg
      { pkt with shared := pkt.shared || (s.mshrQueue.registers i).pendingShared } (some ptr) =
      serviceTargets cfg P (.mshrs, i) a { s with tags := t₁ } := by
    simp [invalidateAfter, hinval]
  rw [hkeep, retire_tags, htags]
  rw [hserved]
  exact hdef

theorem servePrefetches_pf (P : Policy σ) (hasBlk : Bool) (ts : List Target) (pf : Prefetcher σ) :
    (servePrefetches P hasBlk ts pf).pf = pf.pf := by
  induction ts generalizing pf with
  | nil => rfl
  | cons t ts ih =>
    refine (ih (servePrefetch P hasBlk pf t)).trans ?_
    unfold servePrefetch
    cases t.source <;> cases hasBlk <;> rfl

theorem clearNoTarget_prefetcher (m : MshrRef) (s : Cache σ) :
    (s.clearNoTarget m).prefetcher = s.prefetcher := by
  unfold clearNoTarget
  split <;> rfl

/-- A clean temporary block is given up without a trace. -/
theorem clearTemp_clean {blk : Option BlkPtr} (ht : s.tags.WellFormed cfg.geom)
    (hclean : blk = some .temp → (s.tags.blks .temp).isDirty = false) (time : Tick) :
    let s' := s.clearTemp cfg blk time
    s'.mshrQueue = s.mshrQueue ∧ s'.writeBuffer = s.writeBuffer ∧ s'.prefetcher = s.prefetcher ∧
      s'.tags.line cfg.geom = s.tags.line cfg.geom ∧
      (s.tags.Housed cfg.geom → s'.tags.Housed cfg.geom) := by
  unfold clearTemp
  split
  · rename_i hblk
    simp only [hclean hblk, Bool.false_eq_true, if_false]
    exact ⟨trivial, trivial, trivial, Tags.line_invalidate_temp ht, fun hh => hh.invalidateBlk .temp⟩
  · exact ⟨rfl, rfl, rfl, rfl, id⟩

/-- The response to a prefetch whose block is not in the cache: the block is filled, in
a frame for which room is made, or the response goes by the temporary block and leaves
nothing. The entry is freed either way. -/
theorem handleResponse_prefetch (hs : s.Sound cfg) (hh : s.tags.Housed cfg.geom) {i : Nat}
    {reply : Option Packet} (hm : (s.mshrQueue.registers i).Fetches cfg.geom reply)
    (hforward : (s.mshrQueue.registers i).isForward = false)
    {pkt : Packet} (hcmd : pkt.cmd = .readResp) (hinhibit : pkt.memInhibit = false)
    (habsent : s.tags.findBlock cfg.geom pkt.addr = none) (upward : Nat → SnoopAnswer) :
    let s' := s.handleResponse cfg P (.mshrs, i) pkt upward
    s'.mshrQueue = ((s.mshrQueue.modify i fun _ => (s.mshrQueue.registers i).served).deallocate i) ∧
      s'.tags.Housed cfg.geom ∧ s'.prefetcher.pf = s.prefetcher.pf ∧
      ((∃ line' wbs, MakesRoom cfg.geom s.mshrQueue (s.tags.line cfg.geom) line' wbs ∧
          s'.tags.line cfg.geom = Function.update line' (cfg.geom.block pkt.addr) (some (pkt.data, false)) ∧
          Posted s.writeBuffer (s.curTick + cfg.geom.hitLatency) wbs s'.writeBuffer) ∨
        (s'.tags.line cfg.geom = s.tags.line cfg.geom ∧ s'.writeBuffer = s.writeBuffer)) := by
  obtain ⟨t, htarget, hsource, -, -⟩ := hm.target
  have hnack : pkt.cmd ≠ .networkNackError := by
    rw [hcmd]
    decide
  unfold handleResponse
  simp only [hnack, if_false]
  -- the entry that has run out of targets changes nothing that matters here
  have hq₀ : (s.clearNoTarget (.mshrs, i)).mshrQueue = s.mshrQueue := clearNoTarget_queue _ s .mshrs
  have hw₀ : (s.clearNoTarget (.mshrs, i)).writeBuffer = s.writeBuffer := clearNoTarget_queue _ s .writeBuffer
  have ht₀ := clearNoTarget_tags (.mshrs, i) s
  have hp₀ := clearNoTarget_prefetcher (.mshrs, i) s
  have hn₀ := clearNoTarget_curTick (.mshrs, i) s
  generalize s.clearNoTarget (.mshrs, i) = s₀ at hq₀ hw₀ ht₀ hp₀ hn₀ ⊢
  rw [← hq₀] at hm htarget hforward
  rw [← ht₀] at habsent
  obtain ⟨htags, hblk⟩ := answer_prefetch (P := P) hm.deferred htarget hsource hforward hcmd habsent upward
  obtain ⟨r, hasBlk, hfill, hcore, -⟩ := @answer_core σ cfg P (.mshrs, i) pkt upward s₀
  obtain rfl := filled_of_no_deferred hm.deferred hfill
  generalize s₀.answer cfg P (.mshrs, i) pkt upward = A at htags hblk hcore ⊢
  obtain ⟨s₁, blk, wbs⟩ := A
  obtain ⟨hhf, hcases⟩ := @handleFill_absent cfg.geom s₀.tags (ht₀ ▸ hs.tags) (ht₀ ▸ hh) s₀.mshrQueue s₀.curTick
    { pkt with shared := pkt.shared || (s₀.mshrQueue.registers i).pendingShared } habsent (by rw [hcmd]; rfl)
  have hclean : (fillStatus { pkt with
      shared := pkt.shared || (s₀.mshrQueue.registers i).pendingShared }).dirty = false := by
    simp [fillStatus, hinhibit]
  generalize PrefetchSim.handleFill cfg.geom s₀.tags s₀.mshrQueue s₀.curTick
    { pkt with shared := pkt.shared || (s₀.mshrQueue.registers i).pendingShared } none = f
    at htags hblk hhf hcases
  obtain ⟨t₁, ptr, wbs'⟩ := f
  dsimp only at htags hblk hhf hcases ⊢
  cases hblk
  have hinert := inert_status (fun st => { st with hwPrefetched := true }) (fun _ => rfl) t₁ ptr
  have hline₁ : s₁.tags.line cfg.geom = t₁.line cfg.geom := by
    rw [htags]
    exact Tags.line_modify_same hinert fun _ => ⟨rfl, rfl⟩
  have hhoused₁ : s₁.tags.Housed cfg.geom := by
    rw [htags]
    exact hhf.modify hinert
  have hwf₁ : s₁.tags.WellFormed cfg.geom := by
    apply hcore.tags
    show (s₀.settle (.mshrs, i) (s₀.mshrQueue.registers i)).tags.WellFormed cfg.geom
    rw [settle_tags, ht₀]
    exact hs.tags
  have hq₁ : s₁.mshrQueue =
      (s.mshrQueue.modify i fun _ => (s.mshrQueue.registers i).served).deallocate i := by
    rw [hcore.mshrQueue, ← hq₀]
    refine (queue_settle (.mshrs, i) (s₀.mshrQueue.registers i) s₀ .mshrs).trans ?_
    simp [MshrQueue.finish, Mshr.promoteDeferredTargets, Mshr.served, hm.deferred, queue]
  have hw₁ : s₁.writeBuffer = s.writeBuffer := by
    rw [hcore.writeBuffer, ← hw₀]
    exact queue_settle (.mshrs, i) (s₀.mshrQueue.registers i) s₀ .writeBuffer
  have hpf₁ : s₁.prefetcher.pf = s.prefetcher.pf := by
    rw [hcore.prefetcher, ← hp₀]
    exact servePrefetches_pf ..
  have htags₂ := copyWritebacks_tags wbs (s.curTick + cfg.geom.hitLatency) s₁
  obtain ⟨hq₃, hw₃, hpf₃, hline₃, hhoused₃⟩ := @clearTemp_clean σ cfg
    (s₁.copyWritebacks wbs (s.curTick + cfg.geom.hitLatency)) (some ptr) (htags₂ ▸ hwf₁) (by
      rintro ⟨⟩
      rw [htags₂, htags, Tags.modify_self]
      rcases hcases with ⟨_, _, hne, _⟩ | ⟨_, _, _, hstatus, -⟩
      · exact absurd rfl hne
      · rw [CacheBlk.isDirty, hstatus]
        exact hclean) (s.curTick + cfg.geom.hitLatency)
  refine ⟨(hq₃.trans (copyWritebacks_mshrQueue ..)).trans hq₁, hhoused₃ (htags₂ ▸ hhoused₁), ?_, ?_⟩
  · rw [hpf₃, copyWritebacks_prefetcher, hpf₁]
  · rw [hline₃, htags₂, hline₁, hw₃]
    rcases hcases with ⟨line', hroom, -, hfilled, -⟩ | ⟨-, rfl, hkeep, -⟩
    · left
      have hposted := copyWritebacks_posted hroom (s.curTick + cfg.geom.hitLatency) s₁
      rw [hw₁] at hposted
      rw [hq₀, ht₀] at hroom
      rw [hclean] at hfilled
      exact ⟨line', wbs, hroom, hfilled, hposted⟩
    · right
      rw [hkeep, ht₀]
      exact ⟨rfl, hw₁⟩

end Cache

/-! ## The invariant -/

/-- The entry of a prefetch that has just become a miss. -/
theorem Mshr.fetches_allocate {g : Geometry} {m : Mshr} (hm : m.Idle) {p : Packet} (hp : IsPrefetch p)
    {size : Nat} {time : Tick} {order : Nat} {reply : Option Packet} :
    (m.allocate (g.blockAlign p.addr) size p time order).Fetches g reply where
  deferred := hm.deferred
  shared := by
    simp only [Mshr.allocate, TargetList.add, hm.targets, hp.cmd]
    rfl
  target := by
    have hlist : (m.allocate (g.blockAlign p.addr) size p time order).targets.list =
        [{ readyTime := time, order, pkt := p, source := .fromPrefetcher,
           needsResponse := p.cmd.needsResponse }] := by
      simp [Mshr.allocate, TargetList.add, hm.targets, hp.cmd]
    exact ⟨_, hlist, rfl, hp, rfl⟩
  answer h := by cases h

/-- The misses are prefetches of different blocks, the write buffer holds whole blocks. -/
structure System.Shape {σ : Type} (cfg : Config) (s : System σ) : Prop where
  sound : s.cache.Sound cfg
  housed : s.cache.tags.Housed cfg.geom
  queued : ∀ p ∈ s.cache.prefetcher.pf, IsPrefetch p
  misses : ∀ i ∈ s.cache.mshrQueue.allocatedList,
    (s.cache.mshrQueue.registers i).Fetches cfg.geom (s.reply i)
  distinct : s.cache.mshrQueue.Distinct
  writes : ∀ j ∈ s.cache.writeBuffer.allocatedList,
    (s.cache.writeBuffer.registers j).HoldsBlock cfg.geom

theorem MakesRoom.absent {g : Geometry} {q : MshrQueue} {line line' : g.Block → Option (List UInt8 × Bool)}
    {wbs : List Packet} (h : MakesRoom g q line line' wbs) {b : g.Block} (hb : line b = none) :
    line' b = none := by
  cases h with
  | free => exact hb
  | clean b' _ _ _ =>
    by_cases h : b = b'
    · rw [h, Function.update_self]
    · rw [Function.update_of_ne h, hb]
  | dirty b' _ _ _ _ _ =>
    by_cases h : b = b'
    · rw [h, Function.update_self]
    · rw [Function.update_of_ne h, hb]

open Layers in
/-- Making room evicts a block, or does nothing. -/
theorem MakesRoom.moves {g : Geometry} {mq q q' : MshrQueue} {S : Store g.Block (List UInt8)}
    {line' : g.Block → Option (List UInt8 × Bool)} {wbs : List Packet} {time : Tick}
    (h : MakesRoom g mq S.cached line' wbs) (hidle : ∀ b : g.Block, mq.findMatch b.1 = none → S.fetch b = .idle)
    (hposted : Cache.Posted q time wbs q') (hpending : S.pending = q.writes g) (hq : q.WellFormed)
    (hfree : q.freeList ≠ []) (hlate : ∀ w ∈ q.waiting, w.readyTime ≤ time) :
    Moves S [] { S with cached := line', pending := q'.writes g } := by
  cases h with
  | free =>
    cases hposted
    rw [← hpending]
    exact .refl S
  | clean b v held idle =>
    cases hposted
    have hmove := (Move.evict b v false held (hidle b idle)).one
    rw [if_neg (by decide), List.append_nil, hpending] at hmove
    exact hmove
  | dirty b v pkt held idle gives =>
    cases hposted with
    | one _ order =>
      have hmove := (Move.evict b v true held (hidle b idle)).one
      rw [if_pos rfl, hpending, ← hq.writes_allocate hfree gives hlate order] at hmove
      exact hmove

/-- The write buffer still holds whole blocks. -/
theorem MakesRoom.holdsBlock {g : Geometry} {mq q q' : MshrQueue}
    {line line' : g.Block → Option (List UInt8 × Bool)} {wbs : List Packet} {time : Tick}
    (h : MakesRoom g mq line line' wbs) (hposted : Cache.Posted q time wbs q') (hq : q.WellFormed)
    (hall : ∀ j ∈ q.allocatedList, (q.registers j).HoldsBlock g) :
    ∀ j ∈ q'.allocatedList, (q'.registers j).HoldsBlock g := by
  cases hposted with
  | none => exact hall
  | one pkt order =>
    cases h with
    | dirty b v _ _ _ gives => exact hq.holdsBlock_allocate hall gives time order

namespace System

variable {σ : Type} {cfg : Config} {P : Policy σ} {s : System σ}

theorem fetch_idle (s : System σ) (b : cfg.geom.Block) (h : s.cache.mshrQueue.findMatch b.1 = none) :
    (s.store cfg).fetch b = .idle := MshrQueue.fetch_eq_idle h

/-- The requests that are out, as a map of blocks. -/
theorem fetch_update {f f' : Addr → Layers.Fetch (List UInt8)} {g : Geometry} {b : g.Block}
    {x : Layers.Fetch (List UInt8)} (h : f' = Function.update f b.1 x) :
    (fun b : g.Block => f' b.1) = Function.update (fun b : g.Block => f b.1) b x := by
  rw [h]
  exact Function.update_comp_eq_of_injective f Subtype.val_injective b x

theorem fetches_deallocate {q : MshrQueue} {reply : Nat → Option Packet} {g : Geometry}
    (hnd : q.allocatedList.Nodup) (hall : ∀ k ∈ q.allocatedList, (q.registers k).Fetches g (reply k))
    {i : Nat} {r : Mshr} :
    let q' := (q.modify i fun _ => r).deallocate i
    ∀ k ∈ q'.allocatedList, (q'.registers k).Fetches g (reply k) := by
  intro q' k hk
  have hne : k ≠ i := fun e => hnd.not_mem_erase (e ▸ hk)
  have := hall k (List.mem_of_mem_erase hk)
  simpa [q', MshrQueue.deallocate, MshrQueue.modify, hne] using this

/-- The entry of a miss is written. -/
theorem Shape.rewrite (hs : s.Shape cfg) {i : Nat} (hi : i ∈ s.cache.mshrQueue.allocatedList) {r : Mshr}
    (haddr : r.addr = (s.cache.mshrQueue.registers i).addr) (s' : System σ) (hsound : s'.cache.Sound cfg)
    (htags : s'.cache.tags = s.cache.tags) (hpf : s'.cache.prefetcher = s.cache.prefetcher)
    (hbuffer : s'.cache.writeBuffer = s.cache.writeBuffer)
    (hlist : s'.cache.mshrQueue.allocatedList = s.cache.mshrQueue.allocatedList)
    (hregs : s'.cache.mshrQueue.registers = Function.update s.cache.mshrQueue.registers i r)
    (hreply : ∀ k, k ≠ i → s'.reply k = s.reply k) (hr : r.Fetches cfg.geom (s'.reply i)) :
    s'.Shape cfg ∧ s'.cache.mshrQueue.fetch s'.reply =
      Function.update (s.cache.mshrQueue.fetch s.reply) (s.cache.mshrQueue.registers i).addr
        (if r.inService then .answered (((s'.reply i).map fun p : Packet => p.data).getD []) else .waiting) := by
  have hdistinct : s'.cache.mshrQueue.Distinct := by
    have := hs.distinct.modify haddr
    unfold MshrQueue.Distinct at this ⊢
    rw [hlist, hregs]
    exact this
  refine ⟨⟨hsound, htags ▸ hs.housed, hpf ▸ hs.queued, ?_, hdistinct, hbuffer ▸ hs.writes⟩, ?_⟩
  · intro k hk
    rw [hlist] at hk
    rw [hregs]
    by_cases hki : k = i
    · subst hki
      rw [Function.update_self]
      exact hr
    · rw [Function.update_of_ne hki, hreply k hki]
      exact hs.misses k hk
  · rw [← hs.distinct.fetch_modify haddr hi hreply]
    funext a
    unfold MshrQueue.fetch MshrQueue.findMatch
    rw [hlist, hregs]
    rfl

/-- Moves to what the fields of the state say. -/
theorem moves_store {S T : Layers.Store cfg.geom.Block (List UInt8)} {ws : List (cfg.geom.Block × List UInt8)}
    (h : Layers.Moves S ws T) (hline : s.cache.tags.line cfg.geom = T.cached)
    (hpending : s.cache.writeBuffer.writes cfg.geom = T.pending)
    (hmemory : (fun b : cfg.geom.Block => s.memory b.1) = T.memory)
    (hfetch : (fun b : cfg.geom.Block => s.cache.mshrQueue.fetch s.reply b.1) = T.fetch) :
    Layers.Moves S ws (s.store cfg) := by
  have hT : s.store cfg = T := Layers.Store.ext hline hpending hmemory hfetch
  rw [hT]
  exact h

/-! ## A block is given back -/

/-- The block is seen in the cache, or in the write buffer. -/
theorem writeback_moves (hs : s.Shape cfg) (ho : s.cache.Ordered cfg)
    (hsize : (s.store cfg).All fun v => v.length = cfg.geom.blkSize) {pkt : Packet}
    {b : cfg.geom.Block} {v : List UInt8} (hgives : GivesBack cfg.geom b v pkt)
    (hv : v.length = cfg.geom.blkSize) (hinhibit : pkt.memInhibit = false)
    (hcache : pkt.req.uncacheable = false) (hfree : s.cache.writeBuffer.freeList ≠ [])
    (hjoin : s.cache.tags.findBlock cfg.geom pkt.addr = none →
      noFrame cfg.geom s.cache.tags s.cache.mshrQueue pkt.addr = true →
      s.cache.mshrQueue.findMatch (cfg.geom.blockAlign pkt.addr) = none)
    (s' : System σ) (hcache' : s'.cache = s.cache.timingAccess cfg P pkt) (hmem : s'.memory = s.memory)
    (hreply : s'.reply = s.reply) (hsound : s'.cache.Sound cfg) :
    s'.Shape cfg ∧ Layers.Moves (s.store cfg) [(b, v)] (s'.store cfg) := by
  have hq : s.cache.writeBuffer.WellFormed := hs.sound.queues .writeBuffer
  have hline : ∀ b c, s.cache.tags.line cfg.geom b = some c → c.1.length = cfg.geom.blkSize := hsize.cached
  obtain ⟨hmisses, hhoused, hpf, hcases⟩ :=
    @Cache.timingAccess_writeback σ cfg P s.cache ho hs.housed hline pkt b v hgives hv hinhibit hcache hjoin
  rw [← hcache'] at hmisses hhoused hpf hcases
  have hmemory : (fun b : cfg.geom.Block => s'.memory b.1) = (s.store cfg).memory := by
    rw [hmem]
    rfl
  have hfetch : (fun b : cfg.geom.Block => s'.cache.mshrQueue.fetch s'.reply b.1) = (s.store cfg).fetch := by
    rw [hmisses, hreply]
    rfl
  have hrest : ∀ q' : MshrQueue, s'.cache.writeBuffer = q' →
      (∀ j ∈ q'.allocatedList, (q'.registers j).HoldsBlock cfg.geom) → s'.Shape cfg := by
    rintro _ rfl hwrites
    refine ⟨hsound, hhoused, hpf hs.queued, ?_, ?_, hwrites⟩
    · rw [hmisses, hreply]
      exact hs.misses
    · rw [hmisses]
      exact hs.distinct
  rcases hcases with ⟨line', wbs, hroom, hline', hposted⟩ | ⟨hnone, hmatch, hline', hposted⟩
  · refine ⟨hrest _ rfl (hroom.holdsBlock hposted hq hs.writes), ?_⟩
    have hmoves := MakesRoom.moves (S := s.store cfg) hroom (s.fetch_idle) hposted rfl hq hfree ho.timely
    exact moves_store (hmoves.tail (.write b v)) hline' rfl hmemory hfetch
  · generalize hq' : s'.cache.writeBuffer = q' at hposted
    cases hposted with
    | one _ order =>
      refine ⟨hrest _ hq' (hq.holdsBlock_allocate hs.writes hgives _ order), ?_⟩
      have hpending : s'.cache.writeBuffer.writes cfg.geom = (s.store cfg).pending ++ [(b, v)] := by
        rw [hq']
        exact hq.writes_allocate hfree hgives ho.timely order
      have hpost := Layers.Move.post (s := s.store cfg) b v hnone (s.fetch_idle b hmatch)
      exact moves_store hpost.one hline' hpending hmemory hfetch

/-! ## A prefetch is answered -/

/-- The block is filled with what the memory holds, or the response leaves nothing. -/
theorem respond_moves (hs : s.Shape cfg) (ho : s.cache.Ordered cfg) {i : Nat}
    (hi : i ∈ s.cache.mshrQueue.allocatedList) (hin : (s.cache.mshrQueue.registers i).inService = true)
    (hfree : s.cache.writeBuffer.freeList ≠ [])
    (habsent : s.cache.tags.findBlock cfg.geom (s.cache.mshrQueue.registers i).addr = none)
    {pkt : Packet} (hreply : s.reply i = some pkt) (pkt' : Packet) (hcmd : pkt'.cmd = pkt.cmd)
    (haddr : pkt'.addr = pkt.addr) (hdata : pkt'.data = pkt.data) (hinhibit : pkt'.memInhibit = pkt.memInhibit)
    (upward : Nat → SnoopAnswer)
    (s' : System σ) (hcache : s'.cache = s.cache.handleResponse cfg P (.mshrs, i) pkt' upward)
    (hmem : s'.memory = s.memory) (hreply' : s'.reply = s.reply) (hsound : s'.cache.Sound cfg) :
    s'.Shape cfg ∧ Layers.Moves (s.store cfg) [] (s'.store cfg) := by
  have hm := hs.misses i hi
  obtain ⟨hforward, _, hsome, hresp, hblk, hnot⟩ := hm.answer hin
  rw [hreply] at hsome
  cases hsome
  have hq : s.cache.writeBuffer.WellFormed := hs.sound.queues .writeBuffer
  have hnd : s.cache.mshrQueue.allocatedList.Nodup := (hs.sound.queues .mshrs).nodup_allocated
  obtain ⟨hmisses, hhoused, hpf, hcases⟩ :=
    @Cache.handleResponse_prefetch σ cfg P s.cache hs.sound hs.housed i _ hm hforward pkt' (hcmd.trans hresp)
      (hinhibit.trans hnot) (by rw [haddr, hblk]; exact habsent) upward
  rw [← hcache] at hmisses hhoused hpf hcases
  obtain ⟨t, -, -, -, ht⟩ := hm.target
  -- the block of the entry
  let b : cfg.geom.Block := ⟨(s.cache.mshrQueue.registers i).addr, by
    rw [ht]
    exact cfg.geom.blockAlign_blockAlign _⟩
  have hb : cfg.geom.block pkt'.addr = b := by
    rw [haddr, hblk]
    exact Geometry.block_val b
  have hanswer : (s.store cfg).fetch b = .answered pkt'.data := by
    refine (hs.distinct.fetch_self s.reply hi).trans ?_
    rw [hin, hreply, hdata]
    rfl
  have hfetch : (fun b : cfg.geom.Block => s'.cache.mshrQueue.fetch s'.reply b.1) =
      Function.update (s.store cfg).fetch b .idle := by
    have hupdate : s'.cache.mshrQueue.fetch s'.reply =
        Function.update (s.cache.mshrQueue.fetch s.reply) b.1 .idle := by
      rw [hmisses, hreply']
      exact hs.distinct.fetch_deallocate hnd hi s.reply
    exact fetch_update hupdate
  have hrest : (∀ j ∈ s'.cache.writeBuffer.allocatedList,
      (s'.cache.writeBuffer.registers j).HoldsBlock cfg.geom) → s'.Shape cfg := by
    intro hwrites
    refine ⟨hsound, hhoused, ?_, ?_, ?_, hwrites⟩
    · rw [hpf]
      exact hs.queued
    · rw [hmisses, hreply']
      exact fetches_deallocate hnd hs.misses
    · rw [hmisses]
      exact hs.distinct.deallocate hnd
  have hmemory : (fun b : cfg.geom.Block => s'.memory b.1) = (s.store cfg).memory := by
    rw [hmem]
    rfl
  rcases hcases with ⟨line', wbs, hroom, hline, hposted⟩ | ⟨hline, hwrites⟩
  · refine ⟨hrest (hroom.holdsBlock hposted hq hs.writes), ?_⟩
    have hnone : line' b = none := hroom.absent (Tags.line_eq_none.2 habsent)
    have hmoves := MakesRoom.moves (S := s.store cfg) hroom (s.fetch_idle) hposted rfl hq hfree ho.timely
    rw [hb] at hline
    exact moves_store (hmoves.tail (.fill b pkt'.data hnone hanswer)) hline rfl hmemory hfetch
  · refine ⟨hrest (hwrites ▸ hs.writes), ?_⟩
    have hpending : s'.cache.writeBuffer.writes cfg.geom = (s.store cfg).pending := by
      rw [hwrites]
      rfl
    exact moves_store (Layers.Move.cancel b).one hline hpending hmemory hfetch

/-! ## The cache gets the bus -/

/-- What follows the choice of an entry. -/
def dispatch (cfg : Config) (P : Policy σ) (accept : Bool) (upward : Nat → SnoopAnswer) (m : MshrRef)
    (s : System σ) : System σ :=
  match (s.cache.register m).getTarget with
  | none => { s with cache := s.cache.waiting false }
  | some target =>
    match s.cache.timingPacketFor cfg P upward m target with
    | (c, none) => { s with cache := c.waiting false }
    | (c, some pkt) =>
      if accept then { s with cache := (c.waiting false).markInService m }.take pkt m
      else { s with cache := c.waiting true }

theorem step_send (s : System σ) (accept : Bool) (upward : Nat → SnoopAnswer) :
    let s' := s.step cfg P (.send accept upward)
    (∃ port, s' = { s with cache := { s.cache with memSidePort := port } }) ∨
    (∃ c, s.cache.getNextMSHR cfg = (c, none) ∧ s' = { s with cache := c.waiting false }) ∨
    ∃ c m, s.cache.getNextMSHR cfg = (c, some m) ∧ s' = dispatch cfg P accept upward m { s with cache := c } := by
  unfold step busPacket Cache.step Cache.sendPacket
  dsimp only
  split
  · exact .inl ⟨_, rfl⟩
  · right
    unfold Cache.getTimingPacket
    generalize s.cache.getNextMSHR cfg = r
    obtain ⟨c, _ | m⟩ := r
    · exact .inl ⟨c, rfl, rfl⟩
    · refine .inr ⟨c, m, rfl, ?_⟩
      unfold dispatch
      dsimp only
      cases (c.register m).getTarget with
      | none => rfl
      | some target =>
        dsimp only
        generalize c.timingPacketFor cfg P upward m target = r
        obtain ⟨c', _ | pkt⟩ := r
        · rfl
        · cases accept <;> rfl

/-- The entry of the write buffer that is chosen is the oldest of its block. -/
theorem oldest_write {c : Cache σ} {n j : Nat}
    (hsize : ∀ i ∈ c.writeBuffer.readyList, (c.writeBuffer.registers i).size = n)
    (h : c.pendingMSHR = some (.writeBuffer, j)) :
    ∃ l l', c.writeBuffer.readyList = l ++ j :: l' ∧
      ∀ k ∈ l, (c.writeBuffer.registers k).addr ≠ (c.writeBuffer.registers j).addr := by
  have hhead : ∀ {j}, c.writeBuffer.getNextMSHR c.curTick = some j →
      ∃ l l', c.writeBuffer.readyList = l ++ j :: l' ∧
        ∀ k ∈ l, (c.writeBuffer.registers k).addr ≠ (c.writeBuffer.registers j).addr := by
    intro j hj
    obtain ⟨rest, hl⟩ := List.head?_eq_some_iff.1 (Option.filter_eq_some_iff.1 hj).1
    exact ⟨[], rest, hl, by simp⟩
  unfold Cache.pendingMSHR at h
  split at h
  · cases h
  · rename_i hwrite
    cases h
    exact hhead hwrite
  · cases h
  · rename_i miss write hmiss hwrite
    dsimp only at h
    split at h
    · split at h
      · split at h
        · cases h
        · cases h
          exact hhead hwrite
      · cases h
        exact hhead hwrite
    · split at h
      · -- the first entry that is in the way of a miss; an older one of its block would be too
        rename_i conflict hconflict
        cases h
        obtain ⟨hover, l, l', hl, hbefore⟩ := List.find?_eq_some_iff_append.1 hconflict
        refine ⟨l, l', hl, fun k hk haddr => ?_⟩
        have hsame : (c.writeBuffer.registers k).size = (c.writeBuffer.registers j).size :=
          (hsize k (by simp [hl, hk])).trans (hsize j (by simp [hl])).symm
        have hk' := hbefore k hk
        simp only [Mshr.overlapsRange, haddr, hsame] at hk' hover
        simp [hover] at hk'
      · cases h

theorem Shape.oldest (hs : s.Shape cfg) {j : Nat} (h : s.cache.pendingMSHR = some (.writeBuffer, j)) :
    ∃ l l', s.cache.writeBuffer.readyList = l ++ j :: l' ∧
      ∀ k ∈ l, (s.cache.writeBuffer.registers k).addr ≠ (s.cache.writeBuffer.registers j).addr :=
  oldest_write (fun i hi => (hs.writes i ((hs.sound.queues .writeBuffer).mem_ready.1 hi).1).size) h

/-- What sending a write changes: the write buffer and the memory, if the bus takes it. -/
structure Drains (cfg : Config) (s : System σ) (j : Nat) (s' : System σ) : Prop where
  tags : s'.cache.tags = s.cache.tags
  misses : s'.cache.mshrQueue = s.cache.mshrQueue
  prefetcher : s'.cache.prefetcher = s.cache.prefetcher
  responses : s'.cache.cpuSidePort.transmitList = s.cache.cpuSidePort.transmitList
  reply : s'.reply = s.reply
  buffer : s'.cache.writeBuffer = s.cache.writeBuffer ∨ s'.cache.writeBuffer = s.cache.writeBuffer.markInService j
  moves : ∀ S : Layers.Store cfg.geom.Block (List UInt8), S.pending = s.cache.writeBuffer.writes cfg.geom →
    (S.memory = fun b : cfg.geom.Block => s.memory b.1) →
    Layers.Moves S [] { S with pending := s'.cache.writeBuffer.writes cfg.geom, memory := fun b => s'.memory b.1 }

/-- The oldest write of its block reaches the memory, or the bus is refused. -/
theorem dispatch_drains (hq : s.cache.writeBuffer.WellFormed)
    (hwrites : ∀ k ∈ s.cache.writeBuffer.allocatedList, (s.cache.writeBuffer.registers k).HoldsBlock cfg.geom)
    {j : Nat} {l l' : List Nat} (hl : s.cache.writeBuffer.readyList = l ++ j :: l')
    (hfirst : ∀ k ∈ l, (s.cache.writeBuffer.registers k).addr ≠ (s.cache.writeBuffer.registers j).addr)
    (accept : Bool) (upward : Nat → SnoopAnswer) :
    Drains cfg s j (s.dispatch cfg P accept upward (.writeBuffer, j)) := by
  have hj : j ∈ s.cache.writeBuffer.readyList := by simp [hl]
  have hb := hwrites j (hq.mem_ready.1 hj).1
  obtain ⟨-, t, ht, -⟩ := hb.write
  obtain ⟨hcmd, haddr⟩ := hb.target t (by simp [ht])
  have htarget : (s.cache.register (.writeBuffer, j)).getTarget = some t := by
    show ((s.cache.writeBuffer.registers j).targets.list).head? = some t
    rw [ht]
    rfl
  have hpacket : s.cache.timingPacketFor cfg P upward (.writeBuffer, j) t = (s.cache, some t.pkt) := by
    have hno : t.pkt.cmd ≠ .scUpgradeFailReq := by
      rw [hcmd]
      decide
    have hforward : (s.cache.register (.writeBuffer, j)).isForwardNoResponse = true := hq.forwards hj hb
    simp only [Cache.timingPacketFor, if_neg hno, hforward, if_true]
  have hwrite : t.pkt.cmd.isWrite = true := by
    rw [hcmd]
    rfl
  unfold dispatch
  simp only [htarget, hpacket]
  cases accept with
  | false =>
    refine ⟨rfl, rfl, rfl, rfl, rfl, .inl rfl, ?_⟩
    rintro S hpending hmemory
    have hsame : { S with pending := s.cache.writeBuffer.writes cfg.geom,
                          memory := fun b : cfg.geom.Block => s.memory b.1 } = S := by
      rw [← hpending, ← hmemory]
    show Layers.Moves S [] { S with pending := s.cache.writeBuffer.writes cfg.geom,
                                    memory := fun b : cfg.geom.Block => s.memory b.1 }
    rw [hsame]
    exact .refl S
  | true =>
    simp only [if_true, take, hwrite]
    have hbuffer : ((s.cache.waiting false).markInService (.writeBuffer, j)).writeBuffer =
        s.cache.writeBuffer.markInService j := Cache.queue_freed _ .writeBuffer .writeBuffer _
    refine ⟨Cache.freed_tags .., Cache.queue_freed _ .writeBuffer .mshrs _, Cache.freed_prefetcher ..,
      Cache.freed_transmitList .., rfl, .inr hbuffer, ?_⟩
    intro S hpending hmemory
    let b := cfg.geom.block (s.cache.writeBuffer.registers j).addr
    have hval : b.1 = t.pkt.addr := hb.aligned.trans haddr.symm
    have hself : (s.cache.writeBuffer.registers j).write cfg.geom = (b, t.pkt.data) := by
      rw [Mshr.write, Mshr.getTarget, ht]
      rfl
    have hsplit : S.pending =
        (l.map fun i => (s.cache.writeBuffer.registers i).write cfg.geom) ++ (b, t.pkt.data) ::
          l'.map fun i => (s.cache.writeBuffer.registers i).write cfg.geom := by
      rw [hpending, MshrQueue.writes, hl, List.map_append, List.map_cons, hself]
    have hdrain := (Layers.Move.drain (s := S) _ b t.pkt.data _ hsplit (by
      intro w hw hwb
      obtain ⟨k, hk, rfl⟩ := List.mem_map.1 hw
      apply hfirst k hk
      have hkb := (hwrites k (hq.mem_ready.1 (by simp [hl, hk])).1).aligned
      rw [← hkb, ← hb.aligned]
      exact congrArg Subtype.val hwb)).one
    have hafter : ((s.cache.waiting false).markInService (.writeBuffer, j)).writeBuffer.writes cfg.geom =
        (l.map fun i => (s.cache.writeBuffer.registers i).write cfg.geom) ++
          l'.map fun i => (s.cache.writeBuffer.registers i).write cfg.geom := by
      rw [hbuffer, hq.writes_sent hl hb, List.map_append]
    have hmem : (fun b' : cfg.geom.Block => Function.update s.memory t.pkt.addr t.pkt.data b'.1) =
        Function.update S.memory b t.pkt.data := by
      rw [← hval, hmemory]
      exact Function.update_comp_eq_of_injective s.memory Subtype.val_injective b _
    rw [← hafter, ← hmem] at hdrain
    exact hdrain

theorem dispatch_write (hs : s.Shape cfg) {j : Nat} {l l' : List Nat}
    (hl : s.cache.writeBuffer.readyList = l ++ j :: l')
    (hfirst : ∀ k ∈ l, (s.cache.writeBuffer.registers k).addr ≠ (s.cache.writeBuffer.registers j).addr)
    (accept : Bool) (upward : Nat → SnoopAnswer)
    (hsound : (s.dispatch cfg P accept upward (.writeBuffer, j)).cache.Sound cfg) :
    let s' := s.dispatch cfg P accept upward (.writeBuffer, j)
    s'.Shape cfg ∧ Layers.Moves (s.store cfg) [] (s'.store cfg) := by
  have hq : s.cache.writeBuffer.WellFormed := hs.sound.queues .writeBuffer
  have hj : j ∈ s.cache.writeBuffer.readyList := by simp [hl]
  have hdrains := dispatch_drains (P := P) hq hs.writes hl hfirst accept upward
  generalize s.dispatch cfg P accept upward (.writeBuffer, j) = s' at hsound hdrains ⊢
  refine ⟨⟨hsound, hdrains.tags ▸ hs.housed, hdrains.prefetcher ▸ hs.queued, ?_, hdrains.misses ▸ hs.distinct, ?_⟩, ?_⟩
  · rw [hdrains.misses, hdrains.reply]
    exact hs.misses
  · rcases hdrains.buffer with hbuffer | hbuffer
    · exact hbuffer ▸ hs.writes
    · rw [hbuffer]
      exact hq.holdsBlock_sent hs.writes hj
  · refine moves_store (hdrains.moves (s.store cfg) rfl rfl) (congrArg (Tags.line cfg.geom) hdrains.tags) rfl rfl ?_
    show (fun b : cfg.geom.Block => s'.cache.mshrQueue.fetch s'.reply b.1) = _
    rw [hdrains.misses, hdrains.reply]
    rfl

/-- The packet for a miss: none if the block is in the cache by now, a read otherwise. -/
theorem timingPacketFor_prefetch {c : Cache σ} {i : Nat} {reply : Option Packet}
    (hm : (c.mshrQueue.registers i).Fetches cfg.geom reply) {t : Target}
    (ht : (c.mshrQueue.registers i).targets.list = [t]) (upward : Nat → SnoopAnswer) :
    c.timingPacketFor cfg P upward (.mshrs, i) t = (c.bailOut (.mshrs, i) t, none) ∨
      ∃ pkt, pkt.cmd = .readReq ∧ pkt.addr = (c.mshrQueue.registers i).addr ∧ pkt.memInhibit = false ∧
        c.timingPacketFor cfg P upward (.mshrs, i) t = (c.setRegister (.mshrs, i)
          { c.mshrQueue.registers i with isForward := false }, some pkt) := by
  obtain ⟨t', ht', hsource, hpf, haddr⟩ := hm.target
  obtain rfl : t' = t := by
    rw [ht] at ht'
    cases ht'
    rfl
  have hno : t'.pkt.cmd ≠ .scUpgradeFailReq := by
    rw [hpf.cmd]
    decide
  have hforward : (c.register (.mshrs, i)).isForwardNoResponse = false := by
    show Mshr.isForwardNoResponse (c.mshrQueue.registers i) = false
    simp [Mshr.isForwardNoResponse, Mshr.getTarget, ht, hsource]
  unfold Cache.timingPacketFor
  simp only [if_neg hno, hforward, Bool.false_eq_true, if_false]
  by_cases hneed : c.needless cfg (.mshrs, i) t' = true
  · simp only [hneed, if_true]
    exact .inl trivial
  · right
    simp only [hneed, Bool.false_eq_true, if_false]
    have hblk : ((c.tags.findBlock cfg.geom (c.register (.mshrs, i)).addr).map c.tags.blks).any
        CacheBlk.isValid = false := by
      simp only [Cache.needless, hpf.cmd, beq_self_eq_true, Bool.and_true] at hneed
      rw [Option.any_map]
      exact Bool.eq_false_iff.2 hneed
    have hshared : (c.register (.mshrs, i)).needsExclusive = false := hm.shared
    have hbus : getBusPacket cfg.geom c.curTick t'.pkt
        ((c.tags.findBlock cfg.geom (c.register (.mshrs, i)).addr).map c.tags.blks)
        (c.register (.mshrs, i)).needsExclusive = some
          { cmd := .readReq, req := t'.pkt.req, addr := cfg.geom.blockAlign t'.pkt.req.paddr,
            size := cfg.geom.blkSize, time := c.curTick } := by
      have hup : (t'.pkt.cmd == .writeback || t'.pkt.cmd.isUpgrade) = false := by
        rw [hpf.cmd]
        rfl
      simp only [getBusPacket, hblk, hpf.cacheable, hup, hshared, Bool.and_false, Bool.false_eq_true, if_false]
    rw [hbus]
    refine ⟨_, rfl, ?_, rfl, rfl⟩
    show cfg.geom.blockAlign t'.pkt.req.paddr = _
    rw [haddr, hpf.paddr]

/-- The block of a miss. -/
def missBlock (hs : s.Shape cfg) {i : Nat} (hmem : i ∈ s.cache.mshrQueue.allocatedList) : cfg.geom.Block :=
  ⟨(s.cache.mshrQueue.registers i).addr, by
    obtain ⟨_, -, -, -, haddr⟩ := (hs.misses i hmem).target
    rw [haddr]
    exact cfg.geom.blockAlign_blockAlign _⟩

/-- A prefetch is given up before it is sent. -/
theorem Shape.giveUp (hs : s.Shape cfg) {i : Nat} (hmem : i ∈ s.cache.mshrQueue.allocatedList) {t : Target}
    (ht : (s.cache.mshrQueue.registers i).targets.list = [t])
    (hsound : ((s.cache.bailOut (.mshrs, i) t).waiting false).Sound cfg) :
    let s' : System σ := { s with cache := (s.cache.bailOut (.mshrs, i) t).waiting false }
    s'.Shape cfg ∧ Layers.Moves (s.store cfg) [] (s'.store cfg) := by
  have hq : s.cache.mshrQueue.WellFormed := hs.sound.queues .mshrs
  have hmisses : (s.cache.bailOut (.mshrs, i) t).mshrQueue = (s.cache.mshrQueue.modify i fun _ =>
      (s.cache.mshrQueue.registers i).popTarget).deallocate i := by
    refine (Cache.queue_bailOut (.mshrs, i) t s.cache .mshrs).trans ?_
    show s.cache.mshrQueue.bailOut i = _
    have hlast : ((s.cache.mshrQueue.modify i Mshr.popTarget).registers i).hasTargets = false := by
      simp [MshrQueue.modify, Mshr.popTarget, Mshr.hasTargets, ht]
    simp only [MshrQueue.bailOut, hlast, Bool.false_eq_true, if_false]
    rfl
  have hbuffer : (s.cache.bailOut (.mshrs, i) t).writeBuffer = s.cache.writeBuffer :=
    Cache.queue_bailOut (.mshrs, i) t s.cache .writeBuffer
  have htags : (s.cache.bailOut (.mshrs, i) t).tags = s.cache.tags := Cache.bailOut_tags ..
  have hpf : (s.cache.bailOut (.mshrs, i) t).prefetcher.pf = s.cache.prefetcher.pf := by
    rw [Cache.bailOut_prefetcher]
    rfl
  refine ⟨⟨hsound, ?_, ?_, ?_, ?_, ?_⟩, moves_store (Layers.Move.cancel (missBlock hs hmem)).one ?_ ?_ rfl ?_⟩
  · exact htags.symm ▸ hs.housed
  · exact hpf.symm ▸ hs.queued
  · exact hmisses.symm ▸ fetches_deallocate hq.nodup_allocated hs.misses
  · exact hmisses.symm ▸ hs.distinct.deallocate hq.nodup_allocated
  · exact hbuffer.symm ▸ hs.writes
  · exact congrArg (Tags.line cfg.geom) htags
  · exact congrArg (MshrQueue.writes cfg.geom) hbuffer
  · have hupdate : (s.cache.bailOut (.mshrs, i) t).mshrQueue.fetch s.reply =
        Function.update (s.cache.mshrQueue.fetch s.reply) (missBlock hs hmem).1 .idle := by
      rw [hmisses]
      exact hs.distinct.fetch_deallocate hq.nodup_allocated hmem s.reply
    exact fetch_update hupdate

/-- The bus is refused: only the mark of the entry has changed. -/
theorem Shape.refused (hs : s.Shape cfg) {i : Nat} (hmem : i ∈ s.cache.mshrQueue.allocatedList)
    (hin : (s.cache.mshrQueue.registers i).inService = false) {r : Mshr}
    (hr : r = { s.cache.mshrQueue.registers i with isForward := false })
    (hsound : ((s.cache.setRegister (.mshrs, i) r).waiting true).Sound cfg) :
    let s' : System σ := { s with cache := (s.cache.setRegister (.mshrs, i) r).waiting true }
    s'.Shape cfg ∧ Layers.Moves (s.store cfg) [] (s'.store cfg) := by
  intro s'
  have hm := hs.misses i hmem
  have hasked := hs.distinct.fetch_self s.reply hmem
  rw [hin] at hasked
  obtain ⟨hshape, hfetch⟩ := hs.rewrite (r := r) hmem (by rw [hr]) s' hsound rfl rfl rfl rfl rfl
    (fun _ _ => rfl) (by
      rw [hr]
      exact ⟨hm.deferred, hm.shared, hm.target, fun h => absurd h (by simp [hin])⟩)
  have hsame : s'.cache.mshrQueue.fetch s'.reply = s.cache.mshrQueue.fetch s.reply := by
    rw [hfetch, hr]
    simp only [hin, Bool.false_eq_true, if_false]
    rw [← show s.cache.mshrQueue.fetch s.reply (s.cache.mshrQueue.registers i).addr = .waiting from hasked]
    exact Function.update_eq_self ..
  exact ⟨hshape, moves_store (.refl _) rfl rfl rfl (congrArg (fun f (b : cfg.geom.Block) => f b.1) hsame)⟩

/-- The memory answers a prefetch with what it holds. -/
theorem Shape.sent (hs : s.Shape cfg) {i : Nat} (hmem : i ∈ s.cache.mshrQueue.allocatedList)
    (hin : (s.cache.mshrQueue.registers i).inService = false) {r : Mshr}
    (hr : r = { s.cache.mshrQueue.registers i with isForward := false }) {pkt : Packet} (hcmd : pkt.cmd = .readReq)
    (hpaddr : pkt.addr = (s.cache.mshrQueue.registers i).addr) (hinhibit : pkt.memInhibit = false) :
    let c := ((s.cache.setRegister (.mshrs, i) r).waiting false).markInService (.mshrs, i)
    let s' := ({ s with cache := c } : System σ).take pkt (.mshrs, i)
    s'.cache.Sound cfg → s'.Shape cfg ∧ Layers.Moves (s.store cfg) [] (s'.store cfg) := by
  intro c s' hsound
  have hm := hs.misses i hmem
  obtain ⟨t, ht, hsource, -⟩ := hm.target
  have hasked : (s.store cfg).fetch (missBlock hs hmem) = .waiting := by
    refine (hs.distinct.fetch_self s.reply hmem).trans ?_
    rw [hin]
    rfl
  have hforward : r.isForwardNoResponse = false := by
    simp [hr, Mshr.isForwardNoResponse, Mshr.getTarget, ht, hsource]
  have hmark : (s.cache.mshrQueue.modify i fun _ => r).markInService i =
      { s.cache.mshrQueue.modify i fun _ => { r with inService := true } with
        readyList := s.cache.mshrQueue.readyList.erase i
        inServiceEntries := s.cache.mshrQueue.inServiceEntries + 1 } := by
    have hself : (s.cache.mshrQueue.modify i fun _ => r).registers i = r := by simp [MshrQueue.modify]
    rw [MshrQueue.markInService, hself, Mshr.markInService, hforward]
    simp only [Bool.false_eq_true, if_false, MshrQueue.modify_modify]
    rfl
  have hmisses : c.mshrQueue = (s.cache.mshrQueue.modify i fun _ => r).markInService i :=
    Cache.queue_freed _ .mshrs .mshrs _
  let response := { pkt.makeTimingResponse with data := s.memory pkt.addr }
  have htake : s' = { s with cache := c, reply := Function.update s.reply i (some response) } := by
    have hread : pkt.cmd.isWrite = false := by
      rw [hcmd]
      rfl
    simp only [s', take, hread, Bool.false_eq_true, if_false]
    rfl
  have hreply : s'.reply = Function.update s.reply i (some response) := by rw [htake]
  have hcache : s'.cache = c := by rw [htake]
  obtain ⟨hshape, hfetch⟩ := hs.rewrite (r := { r with inService := true }) hmem (by rw [hr]) s' hsound
    (by rw [hcache]; exact Cache.freed_tags ..) (by rw [hcache]; exact Cache.freed_prefetcher ..)
    (by rw [hcache]; exact Cache.queue_freed _ .mshrs .writeBuffer _) (by rw [hcache, hmisses, hmark]; rfl)
    (by rw [hcache, hmisses, hmark]; rfl) (fun k hk => by rw [hreply, Function.update_of_ne hk]) (by
      rw [hr, hreply, Function.update_self]
      refine ⟨hm.deferred, hm.shared, hm.target, fun _ => ⟨rfl, response, rfl, ?_, hpaddr, hinhibit⟩⟩
      show pkt.cmd.responseCommand = _
      rw [hcmd]
      rfl)
  have hanswer : ((s'.reply i).map fun p : Packet => p.data).getD [] = s.memory (missBlock hs hmem).1 := by
    rw [hreply, Function.update_self]
    exact congrArg s.memory hpaddr
  rw [hanswer] at hfetch
  have hupdate : s'.cache.mshrQueue.fetch s'.reply = Function.update (s.cache.mshrQueue.fetch s.reply)
      (missBlock hs hmem).1 (.answered (s.memory (missBlock hs hmem).1)) := hfetch
  refine ⟨hshape, moves_store (Layers.Move.send (missBlock hs hmem) hasked).one ?_ ?_ ?_ (fetch_update hupdate)⟩
  · rw [hcache]
    exact congrArg (Tags.line cfg.geom) (Cache.freed_tags ..)
  · rw [hcache]
    exact congrArg (MshrQueue.writes cfg.geom) (Cache.queue_freed _ .mshrs .writeBuffer _)
  · rw [htake]
    rfl

/-- A miss that waits asks the memory, or is given up, or the bus is refused. -/
theorem dispatch_miss (hs : s.Shape cfg) {i : Nat} (hi : i ∈ s.cache.mshrQueue.readyList)
    (accept : Bool) (upward : Nat → SnoopAnswer)
    (hsound : (s.dispatch cfg P accept upward (.mshrs, i)).cache.Sound cfg) :
    let s' := s.dispatch cfg P accept upward (.mshrs, i)
    s'.Shape cfg ∧ Layers.Moves (s.store cfg) [] (s'.store cfg) := by
  have hq : s.cache.mshrQueue.WellFormed := hs.sound.queues .mshrs
  obtain ⟨hmem, hin⟩ := hq.mem_ready.1 hi
  have hm := hs.misses i hmem
  obtain ⟨t, ht, hsource, hpf, haddr⟩ := hm.target
  have htarget : (s.cache.register (.mshrs, i)).getTarget = some t := by
    show ((s.cache.mshrQueue.registers i).targets.list).head? = some t
    rw [ht]
    rfl
  unfold dispatch at hsound ⊢
  simp only [htarget] at hsound ⊢
  rcases timingPacketFor_prefetch (P := P) hm ht upward with hpacket | ⟨pkt, hcmd, hpaddr, hinhibit, hpacket⟩
  · rw [hpacket] at hsound ⊢
    exact hs.giveUp hmem ht hsound
  · rw [hpacket] at hsound ⊢
    cases accept with
    | false => exact hs.refused hmem hin rfl hsound
    | true => exact hs.sent hmem hin rfl hcmd hpaddr hinhibit hsound

/-- A prefetch becomes a miss. -/
theorem ask_moves (hs : s.Shape cfg) {p : Packet} (hp : IsPrefetch p) (hwanted : s.cache.wanted cfg p = true)
    (hclear : s.cache.Clear cfg p) {pf' : Prefetcher σ} {i : Nat} {c : Cache σ}
    (hmade : s.cache.MakesMiss cfg p pf' i c) (hpf : ∀ p ∈ c.prefetcher.pf, IsPrefetch p) (hsound : c.Sound cfg) :
    ({ s with cache := c } : System σ).Shape cfg ∧
      Layers.Moves (s.store cfg) [] (({ s with cache := c } : System σ).store cfg) := by
  have hq : s.cache.mshrQueue.WellFormed := hs.sound.queues .mshrs
  have hw : s.cache.writeBuffer.WellFormed := hs.sound.queues .writeBuffer
  have hnone : s.cache.mshrQueue.findMatch (cfg.geom.blockAlign p.addr) = none := by
    simp only [Cache.wanted, Bool.and_eq_true, Option.isNone_iff_eq_none] at hwanted
    exact hwanted.2
  have hdistinct := hq.distinct_allocate hs.distinct hnone cfg.geom.blkSize p s.cache.curTick s.cache.order
  have hfetch := hq.fetch_allocate hs.distinct hnone hmade.free cfg.geom.blkSize p s.cache.curTick
    s.cache.order s.reply
  let b := cfg.geom.block p.addr
  refine ⟨⟨hsound, hmade.tags.symm ▸ hs.housed, hpf, ?_, hmade.misses.symm ▸ hdistinct,
    hmade.writes.symm ▸ hs.writes⟩, ?_⟩
  · show ∀ k ∈ c.mshrQueue.allocatedList, Mshr.Fetches cfg.geom (s.reply k) (c.mshrQueue.registers k)
    rw [hmade.misses]
    intro k hk
    rcases hq.allocate_cases hmade.new hk with ⟨rfl, hidle, hreg⟩ | ⟨hk, hreg⟩
    · rw [hreg]
      exact Mshr.fetches_allocate hidle hp
    · rw [hreg]
      exact hs.misses k hk
  · have hask := Layers.Move.ask (s := s.store cfg) b (by
      intro w hmem hwb
      obtain ⟨j, hj, rfl⟩ := List.mem_map.1 hmem
      have hj' := (hw.mem_ready.1 hj).1
      have haddr : (s.cache.writeBuffer.registers j).addr = cfg.geom.blockAlign p.addr :=
        (hs.writes j hj').aligned.symm.trans (congrArg Subtype.val hwb)
      have hpos : 0 < cfg.geom.blkSize := Nat.two_pow_pos _
      apply hclear j hj'
      show _ < _ ∧ _ < _
      simp only [Mshr.slot, haddr, (hs.writes j hj').size]
      omega)
    refine moves_store hask.one (congrArg (Tags.line cfg.geom) hmade.tags)
      (congrArg (MshrQueue.writes cfg.geom) hmade.writes) rfl ?_
    have hupdate : c.mshrQueue.fetch s.reply = Function.update (s.cache.mshrQueue.fetch s.reply) b.1 .waiting := by
      rw [hmade.misses]
      exact hfetch
    exact fetch_update hupdate

/-- An entry that waits is chosen, or none, or one for a prefetch that becomes a miss now. -/
theorem next_cases (P : Policy σ) (hs : s.Shape cfg) (ho : s.cache.Ordered cfg)
    (hclear : s.cache.PrefetchClear cfg) {c : Cache σ} {o : Option MshrRef}
    (h : s.cache.getNextMSHR cfg = (c, o)) :
    let s' : System σ := { s with cache := c }
    s'.Shape cfg ∧ Layers.Moves (s.store cfg) [] (s'.store cfg) ∧
      ∀ m, o = some m → (c = s.cache ∧ s.cache.pendingMSHR = some m) ∨
        ∃ i, m = (.mshrs, i) ∧ i ∈ c.mshrQueue.readyList := by
  have hqueued : ∀ p ∈ c.prefetcher.pf, IsPrefetch p := by
    have := s.cache.getNextMSHR_queued cfg
    rw [h] at this
    exact fun p hp => hs.queued p (this p hp)
  cases Cache.next P { prefetch := Cache.Clear cfg } hs.sound.free h with
  | waiting hm =>
    refine ⟨hs, .refl _, ?_⟩
    rintro _ ⟨⟩
    exact .inl ⟨rfl, hm⟩
  | nothing _ hmicros =>
    have hsound := (Cache.invariant_of_micro (fun _ _ h hs => h.ordered hs) hmicros ho).sound
    exact ⟨⟨hsound, hs.housed, hqueued, hs.misses, hs.distinct, hs.writes⟩, .refl _, by simp⟩
  | prefetch hp hwanted hmade hmicros =>
    have hordered := Cache.invariant_of_micro (fun _ _ h hs => h.ordered hs) (hmicros fun _ => hclear _ hp) ho
    obtain ⟨hshape, hmoves⟩ := ask_moves hs (hs.queued _ (Cache.nextPrefetch_queued hp)) hwanted
      (hclear _ hp) hmade hqueued hordered.sound
    refine ⟨hshape, hmoves, ?_⟩
    rintro _ ⟨⟩
    exact .inr ⟨_, rfl, hmade.entry.2.1⟩

theorem send_moves (hs : s.Shape cfg) (ho : s.cache.Ordered cfg) (hclear : s.cache.PrefetchClear cfg)
    (accept : Bool) (upward : Nat → SnoopAnswer)
    (hsound : (s.step cfg P (.send accept upward)).cache.Sound cfg) :
    let s' := s.step cfg P (.send accept upward)
    s'.Shape cfg ∧ Layers.Moves (s.store cfg) [] (s'.store cfg) := by
  rcases @step_send σ cfg P s accept upward with ⟨port, heq⟩ | ⟨c, hnext, heq⟩ | ⟨c, m, hnext, heq⟩
  · rw [heq] at hsound ⊢
    exact ⟨⟨hsound, hs.housed, hs.queued, hs.misses, hs.distinct, hs.writes⟩, .refl _⟩
  · obtain ⟨hshape, hmoves, -⟩ := next_cases P hs ho hclear hnext
    rw [heq] at hsound ⊢
    exact ⟨⟨hsound, hshape.housed, hshape.queued, hshape.misses, hshape.distinct, hshape.writes⟩, hmoves⟩
  · obtain ⟨hshape, hmoves, hchoice⟩ := next_cases P hs ho hclear hnext
    rw [heq] at hsound ⊢
    -- the entry of the write buffer that is chosen is the oldest of its block
    have hmiss : ∀ i, m = (.mshrs, i) → i ∈ c.mshrQueue.readyList := by
      rintro i rfl
      rcases hchoice _ rfl with ⟨rfl, hpending⟩ | ⟨_, ⟨⟩, hready⟩
      · exact Cache.pendingMSHR_ready hpending
      · exact hready
    obtain ⟨_ | _, i⟩ := m
    · obtain ⟨hshape', hmoves'⟩ := dispatch_miss hshape (hmiss i rfl) accept upward hsound
      exact ⟨hshape', hmoves.trans hmoves'⟩
    · rcases hchoice _ rfl with ⟨rfl, hpending⟩ | ⟨_, ⟨⟩, -⟩
      obtain ⟨l, l', hl, hfirst⟩ := hshape.oldest hpending
      exact dispatch_write hshape hl hfirst accept upward hsound

/-! ## Runs -/

/-- The conditions on a step. -/
def Meets (cfg : Config) (s : System σ) : Action → Prop
  -- the block of the prefetch that is answered is not in the cache
  | .respond i _ _ _ => s.cache.tags.findBlock cfg.geom (s.cache.mshrQueue.registers i).addr = none
  -- no write is in the way of the prefetch that is about to become a miss
  | .send _ _ => s.cache.PrefetchClear cfg
  -- a block that is taken in and finds no frame has no miss outstanding
  | .writeback pkt => s.cache.cpuSidePort.blocked = false →
      s.cache.tags.findBlock cfg.geom pkt.addr = none →
      noFrame cfg.geom s.cache.tags s.cache.mshrQueue pkt.addr = true →
      s.cache.mshrQueue.findMatch (cfg.geom.blockAlign pkt.addr) = none
  | _ => True

instance (cfg : Config) (s : System σ) : DecidablePred (s.Meets cfg) := by
  rintro ⟨⟩ <;> dsimp only [Meets] <;> infer_instance

/-- No data is lost: a block that was given back is seen as it was given back last, a
dirty block holds just that, and a clean block is not the only copy of what it holds. -/
structure Kept (cfg : Config) (s : System σ) : Prop where
  value : ∀ (b : cfg.geom.Block) d, s.owed b.1 = some d → s.value cfg b = d
  dirty : ∀ (b : cfg.geom.Block) d, s.cache.tags.line cfg.geom b = some (d, true) → s.owed b.1 = some d
  clean : ∀ (b : cfg.geom.Block) d, s.cache.tags.line cfg.geom b = some (d, false) → s.lower cfg b = d

structure Inv (cfg : Config) (s : System σ) : Prop where
  shape : s.Shape cfg
  ordered : s.cache.Ordered cfg
  sizes : (s.store cfg).All fun v => v.length = cfg.geom.blkSize
  good : (s.store cfg).Good
  kept : s.Kept cfg

theorem initial_inv (cfg : Config) (policy : σ) {memory : Addr → List UInt8}
    (hmem : ∀ a, (memory a).length = cfg.geom.blkSize) : (initial cfg policy memory).Inv cfg := by
  have hline : ∀ b, (Tags.initial cfg.geom).line cfg.geom b = none :=
    fun b => Tags.line_eq_none.2 (Tags.initial_findBlock cfg.geom b.1)
  have hcopy : ∀ b c, (Tags.initial cfg.geom).line cfg.geom b ≠ some c := by
    intro b c hc
    rw [hline b] at hc
    cases hc
  exact {
    shape := {
      sound := Cache.initial_sound cfg policy
      housed := Tags.initial_housed cfg.geom
      queued := fun _ h => by cases h
      misses := fun _ h => by cases h
      distinct := fun _ h => by cases h
      writes := fun _ h => by cases h }
    ordered := Cache.initial_ordered cfg policy
    sizes := {
      cached := fun b c h => absurd h (hcopy b c)
      pending := fun _ h => by cases h
      memory := fun b => hmem b.1
      fetch := fun _ _ h => by cases h }
    good := {
      clean := fun b _ h => absurd h (hcopy b _)
      clear := fun _ _ _ h => by cases h
      fresh := fun _ _ h => by cases h }
    kept := {
      value := fun _ _ h => by cases h
      dirty := fun b _ h => absurd h (hcopy b _)
      clean := fun b _ h => absurd h (hcopy b _) } }

theorem take_cache (pkt : Packet) (m : MshrRef) (s : System σ) : (s.take pkt m).cache = s.cache := by
  unfold take
  split <;> rfl

theorem take_owed (pkt : Packet) (m : MshrRef) (s : System σ) : (s.take pkt m).owed = s.owed := by
  unfold take
  split <;> rfl

theorem takeIf_cache (accept : Bool) (p : Option (Packet × MshrRef)) (s : System σ) :
    (s.takeIf accept p).cache = s.cache := by
  unfold takeIf
  split
  · split
    · exact take_cache ..
    · rfl
  · rfl

theorem takeIf_owed (accept : Bool) (p : Option (Packet × MshrRef)) (s : System σ) :
    (s.takeIf accept p).owed = s.owed := by
  unfold takeIf
  split
  · split
    · exact take_owed ..
    · rfl
  · rfl

/-- A step that takes nothing in from above. -/
theorem Inv.quiet (hi : s.Inv cfg) {s' : System σ} (hshape : s'.Shape cfg) (hordered : s'.cache.Ordered cfg)
    (hmoves : Layers.Moves (s.store cfg) [] (s'.store cfg)) (howed : s'.owed = s.owed) : s'.Inv cfg where
  shape := hshape
  ordered := hordered
  sizes := hmoves.all hi.sizes (by simp)
  good := hmoves.good hi.good
  kept := {
    value b d hd := by
      rw [value_eq, hmoves.seen_eq hi.good]
      show (s.store cfg).seen b = d
      rw [← value_eq]
      exact hi.kept.value b d (howed ▸ hd)
    dirty b d hd := by
      rw [howed]
      rcases hmoves.dirty hd with hd | hd
      · exact hi.kept.dirty b d hd
      · cases hd
    clean b d hd := by
      rw [lower_eq]
      exact (hmoves.good hi.good).clean b d hd }

/-- A step that takes in one block. -/
theorem Inv.taken (hi : s.Inv cfg) {s' : System σ} {b : cfg.geom.Block} {v : List UInt8}
    (hv : v.length = cfg.geom.blkSize) (hshape : s'.Shape cfg) (hordered : s'.cache.Ordered cfg)
    (hmoves : Layers.Moves (s.store cfg) [(b, v)] (s'.store cfg))
    (howed : s'.owed = Function.update s.owed b.1 (some v)) : s'.Inv cfg where
  shape := hshape
  ordered := hordered
  sizes := hmoves.all hi.sizes (by simpa using hv)
  good := hmoves.good hi.good
  kept := {
    value b' d hd := by
      rw [value_eq, hmoves.seen_eq hi.good]
      show Function.update (s.store cfg).seen b v b' = d
      rw [howed] at hd
      by_cases hb : b' = b
      · subst hb
        rw [Function.update_self] at hd ⊢
        cases hd
        rfl
      · rw [Function.update_of_ne (fun h => hb (Subtype.ext h))] at hd
        rw [Function.update_of_ne hb, ← value_eq]
        exact hi.kept.value b' d hd
    dirty b' d hd := by
      rw [howed]
      rcases hmoves.dirty hd with hd' | hd'
      · -- a block that stays dirty and is given back again holds the new data
        by_cases hb : b' = b
        · subst hb
          have hseen : (s'.store cfg).seen b' = d := by
            rw [Layers.Store.seen, show (s'.store cfg).cached b' = _ from hd]
            rfl
          rw [hmoves.seen_eq hi.good] at hseen
          change Function.update (s.store cfg).seen b' v b' = d at hseen
          rw [Function.update_self] at hseen ⊢
          rw [hseen]
        · rw [Function.update_of_ne (fun h => hb (Subtype.ext h))]
          exact hi.kept.dirty b' d hd'
      · cases List.mem_singleton.1 hd'
        exact Function.update_self ..
    clean b' d hd := by
      rw [lower_eq]
      exact (hmoves.good hi.good).clean b' d hd }

theorem Inv.step (hi : s.Inv cfg) {a : Action} (he : s.Enabled cfg a) (hm : s.Meets cfg a) :
    (s.step cfg P a).Inv cfg := by
  cases a with
  | tick n =>
    have hordered : (s.cache.step cfg P (.tick n)).Ordered cfg :=
      Cache.step_ordered hi.ordered (fun _ _ h => by cases h) trivial
    exact hi.quiet ⟨hordered.sound, hi.shape.housed, hi.shape.queued, hi.shape.misses, hi.shape.distinct,
      hi.shape.writes⟩ hordered (.refl _) rfl
  | prefetch pkt time c =>
    have hordered := hi.ordered.withPrefetcher
      (s.cache.prefetcher.enqueue cfg.geom cfg.pf pkt time s.cache.curTick c)
    exact hi.quiet ⟨hordered.sound, hi.shape.housed,
      Prefetcher.enqueueAll_forall (fun _ => ⟨rfl, rfl, rfl⟩) [c] hi.shape.queued,
      hi.shape.misses, hi.shape.distinct, hi.shape.writes⟩ hordered (.refl _) rfl
  | send accept upward =>
    have hcache : (s.step cfg P (.send accept upward)).cache = s.cache.step cfg P (.sendPacket accept upward) :=
      takeIf_cache ..
    have hordered : (s.step cfg P (.send accept upward)).cache.Ordered cfg := by
      rw [hcache]
      exact Cache.step_ordered hi.ordered (fun _ _ _ => hm) trivial
    obtain ⟨hshape, hmoves⟩ := send_moves hi.shape hi.ordered hm accept upward hordered.sound
    exact hi.quiet hshape hordered hmoves (takeIf_owed ..)
  | respond i shared firstWordTime finishTime =>
    obtain ⟨hmem, hin, hfree⟩ := he
    obtain ⟨-, pkt, hreply, -⟩ := (hi.shape.misses i hmem).answer hin
    let pkt' : Packet := { pkt with shared, firstWordTime, finishTime }
    have hstep : s.step cfg P (.respond i shared firstWordTime finishTime) =
        { s with cache := s.cache.step cfg P (.response (.mshrs, i) pkt' noSnoops) } := by
      simp only [System.step, hreply]
      rfl
    rw [hstep]
    have hordered : (s.cache.step cfg P (.response (.mshrs, i) pkt' noSnoops)).Ordered cfg :=
      Cache.step_ordered hi.ordered (fun _ _ h => by cases h) ⟨hmem, hin⟩
    obtain ⟨hshape, hmoves⟩ := respond_moves (P := P) hi.shape hi.ordered hmem hin hfree hm hreply pkt' rfl rfl
      rfl rfl noSnoops { s with cache := s.cache.step cfg P (.response (.mshrs, i) pkt' noSnoops) } rfl rfl rfl
      hordered.sound
    exact hi.quiet hshape hordered hmoves rfl
  | writeback pkt =>
    obtain ⟨⟨hcmd, halign, hsize, hlen⟩, ⟨hinhibit, hcacheable⟩, hfree⟩ := he
    have hordered : (s.cache.step cfg P (.cpuPacket pkt)).Ordered cfg := by
      refine Cache.step_ordered hi.ordered (fun _ _ h => by cases h) ⟨?_, .inl ?_⟩
      · rw [hcmd]
        decide
      · rw [hcmd]
        rfl
    have hrequest : pkt.cmd.isRequest = true := by
      rw [hcmd]
      rfl
    cases hblocked : s.cache.cpuSidePort.blocked with
    | true =>
      -- refused: only the port notes that a retry is owed
      have hcache : s.cache.step cfg P (.cpuPacket pkt) =
          { s.cache with cpuSidePort := { s.cache.cpuSidePort with mustSendRetry := true } } := by
        simp [Cache.step, Cache.cpuRecvTiming, hrequest, hinhibit, hblocked]
      have hstep : s.step cfg P (.writeback pkt) = { s with
          cache := { s.cache with cpuSidePort := { s.cache.cpuSidePort with mustSendRetry := true } } } := by
        simp only [System.step, hcache, hblocked, if_true]
      rw [hcache] at hordered
      rw [hstep]
      exact hi.quiet ⟨hordered.sound, hi.shape.housed, hi.shape.queued, hi.shape.misses, hi.shape.distinct,
        hi.shape.writes⟩ hordered (.refl _) rfl
    | false =>
      have hcache : s.cache.step cfg P (.cpuPacket pkt) = s.cache.timingAccess cfg P pkt := by
        simp [Cache.step, Cache.cpuRecvTiming, hblocked]
      have hgives : GivesBack cfg.geom (⟨pkt.addr, halign⟩ : cfg.geom.Block) pkt.data pkt :=
        ⟨hcmd, rfl, hsize, rfl⟩
      have hstep : s.step cfg P (.writeback pkt) = { s with
          cache := s.cache.step cfg P (.cpuPacket pkt)
          owed := Function.update s.owed pkt.addr (some pkt.data) } := by
        simp only [System.step, hblocked, Bool.false_eq_true, if_false]
      rw [hstep]
      obtain ⟨hshape, hmoves⟩ := writeback_moves hi.shape hi.ordered hi.sizes hgives hlen hinhibit hcacheable
        hfree (hm hblocked) { s with
          cache := s.cache.step cfg P (.cpuPacket pkt)
          owed := Function.update s.owed pkt.addr (some pkt.data) } hcache rfl rfl hordered.sound
      exact hi.taken hlen hshape hordered hmoves rfl

/-- In a run whose steps all meet the conditions no newer data is lost. -/
theorem value_kept (cfg : Config) (P : Policy σ) (policy : σ) (memory : Addr → List UInt8)
    (hmem : ∀ a, (memory a).length = cfg.geom.blkSize) (as : List Action)
    (hen : Runs.Guarded (step cfg P) (Enabled cfg) (initial cfg policy memory) as)
    (hmeets : Runs.Guarded (step cfg P) (Meets cfg) (initial cfg policy memory) as) :
    Runs.Along (step cfg P) (Kept cfg) (initial cfg policy memory) as := by
  have hboth := (Runs.guarded_and as (initial cfg policy memory)).2 ⟨hen, hmeets⟩
  exact Runs.along_mono (fun _ hi => hi.kept) as _
    (Runs.along_of_guarded (fun _ _ hi h => hi.step h.1 h.2) as _ (initial_inv cfg policy hmem) hboth)

/-- A block is given back, and another one is prefetched. -/
theorem value_kept_beside_prefetch :
    let cfg := smallConfig 6
    Runs.Along (step cfg (proxy 0 dcpt)) (Kept cfg) (initial cfg Dcpt.initial fun _ => List.replicate 64 0)
      [.writeback (giveBack 4352 7), .prefetch (load 1 4096) 0 (4480, 0), .send true noSnoops,
        .respond 0 false 0 0] :=
  value_kept (smallConfig 6) (proxy 0 dcpt) Dcpt.initial (fun _ => List.replicate 64 0)
    (fun _ => List.length_replicate) _ (by decide +kernel) (by decide +kernel)

/-! ## Runs that lose data -/

/-- The prefetch of a block is queued. -/
def wish (addr : Addr) : Action := .prefetch (load 1 4096) 0 (addr, 0)

/-- The block is given back while the prefetch of it is out, and the response overwrites it. -/
def overwrittenRun : List Action :=
  [wish 4352, .send true noSnoops, .writeback (giveBack 4352 7), .respond 0 false 0 0]

/-- The block is given back and evicted, and the prefetch of it overtakes the writeback. -/
def overtakenRun : List Action :=
  [wish 4352, .writeback (giveBack 4352 7), .writeback (giveBack 8192 7), .writeback (giveBack 8320 7),
    .send true noSnoops, .respond 0 false 0 0]

/-- The block is given back when the frames of its set are taken by blocks with misses
outstanding: it becomes a target of its own miss. -/
def joinedRun : List Action :=
  [wish 8192, wish 8320, wish 4352, .send true noSnoops, .send true noSnoops, .send true noSnoops,
    .writeback (giveBack 8192 7), .writeback (giveBack 8320 7), .writeback (giveBack 4352 7)]

theorem newer_data_lost :
    let cfg := smallConfig 6
    let s₀ := initial cfg Dcpt.initial fun _ => List.replicate 64 0
    ∀ as ∈ [overwrittenRun, overtakenRun, joinedRun],
      Runs.Guarded (step cfg (proxy 0 dcpt)) (Enabled cfg) s₀ as ∧
        (Runs.exec (step cfg (proxy 0 dcpt)) s₀ as).owed 4352 = some (List.replicate 64 7) ∧
        (Runs.exec (step cfg (proxy 0 dcpt)) s₀ as).value cfg (cfg.geom.block 4352) = List.replicate 64 0 := by
  decide +kernel

end System

end PrefetchSim
