import Mathlib.Logic.Relation
import PrefetchSim.Mem.Timing

/- What a step of the cache can do to its queues, its prefetcher and its
   blocking, said once. `Micro` lists the elementary operations with the
   conditions under which the code performs them; `step_micros` shows that every
   step the environment may make is a sequence of them. An invariant of the
   queues, the prefetcher or the blocking then needs one argument for each
   elementary operation (`invariant_of_micro`), and none about the code paths. -/
namespace PrefetchSim

/-! ## The tags along the code paths -/

theorem handleSnoop_tags (cfg : Config) (t : Tags) (port : CachePort) (now : Tick) (answer : SnoopAnswer)
    (pkt : Packet) (ptr : BlkPtr) (isDeferred pendingInval : Bool) :
    (handleSnoop cfg t port now answer pkt (some ptr) isDeferred pendingInval).1 =
      if (t.blks ptr).isValid then
        let t₁ := if pkt.cmd.isRead && !pkt.cmd.isInvalidate then
            t.modify ptr fun b => { b with status := { b.status with writable := false } }
          else t
        if pkt.cmd.isInvalidate then t₁.invalidateBlk cfg.geom ptr else t₁
      else t := by
  unfold handleSnoop
  cases cfg.forwardSnoops <;> dsimp only <;> split <;> rfl

/-- A snoop takes the right to write from a block, or the block, and does nothing else. -/
theorem handleSnoop_keeps {cfg : Config} {t : Tags} {Q : Tags → Prop} (ht : Q t)
    (share : ∀ ptr, Q (t.modify ptr fun b => { b with status := { b.status with writable := false } }))
    (invalidate : ∀ t₁ ptr, Q t₁ → Q (t₁.invalidateBlk cfg.geom ptr)) (port : CachePort) (now : Tick)
    (answer : SnoopAnswer) (pkt : Packet) (blk : Option BlkPtr) (d p : Bool) :
    Q (handleSnoop cfg t port now answer pkt blk d p).1 := by
  cases blk with
  | none => exact ht
  | some ptr =>
    rw [handleSnoop_tags]
    split
    · have hshared : Q (if pkt.cmd.isRead && !pkt.cmd.isInvalidate then
          t.modify ptr fun b => { b with status := { b.status with writable := false } } else t) := by
        split
        · exact share ptr
        · exact ht
      dsimp only
      split
      · exact invalidate _ ptr hshared
      · exact hshared
    · exact ht

theorem handleSnoop_wellFormed {cfg : Config} {t : Tags} (ht : t.WellFormed cfg.geom) (port : CachePort)
    (now : Tick) (answer : SnoopAnswer) (pkt : Packet) (blk : Option BlkPtr) (d p : Bool) :
    (handleSnoop cfg t port now answer pkt blk d p).1.WellFormed cfg.geom :=
  handleSnoop_keeps ht
    (fun ptr => ht.modify (inert_status (fun st => { st with writable := false }) (fun _ => rfl) t ptr))
    (fun _ ptr h => h.invalidateBlk ptr) port now answer pkt blk d p

theorem serviceCpu_wellFormed {g : Geometry} {t : Tags} (ht : t.WellFormed g) (a : Answer)
    (pkt : Packet) : (serviceCpu g a t pkt).1.WellFormed g := by
  unfold serviceCpu
  split
  · dsimp only
    split
    · exact ht.satisfy _ pkt
    · exact ht
  · split <;> exact ht

/-- The part of the target loop that concerns the prefetcher. -/
def servePrefetch {σ : Type} (P : Policy σ) (hasBlk : Bool) (pf : Prefetcher σ) (t : Target) :
    Prefetcher σ :=
  match t.source with
  | .fromPrefetcher =>
    if hasBlk then pf.complete P t.pkt else pf.record [.dropped .noBlock t.pkt.addr]
  | _ => pf

def servePrefetches {σ : Type} (P : Policy σ) (hasBlk : Bool) (ts : List Target)
    (pf : Prefetcher σ) : Prefetcher σ :=
  ts.foldl (servePrefetch P hasBlk) pf

@[simp] theorem respond_blocked (p : CachePort) (pkt : Packet) (time : Tick) :
    (p.respond pkt time).blocked = p.blocked := rfl

theorem serviceTarget_effect {σ : Type} (cfg : Config) (P : Policy σ) (a : Answer) (s : Service σ)
    (t : Target) :
    let s' := serviceTarget cfg P a s t
    s'.prefetcher = servePrefetch P a.blk.isSome s.prefetcher t ∧
      s'.cpuSidePort.blocked = s.cpuSidePort.blocked ∧
      (s.tags.WellFormed cfg.geom → s'.tags.WellFormed cfg.geom) := by
  unfold serviceTarget servePrefetch
  cases t.source with
  | fromCPU => exact ⟨rfl, rfl, fun ht => serviceCpu_wellFormed ht a t.pkt⟩
  | fromSnoop => exact ⟨rfl, rfl, fun ht => handleSnoop_wellFormed ht ..⟩
  | fromPrefetcher =>
    cases a.blk with
    | none => exact ⟨rfl, rfl, id⟩
    | some ptr =>
      exact ⟨rfl, rfl, fun ht => ht.modify
        (inert_status (fun st => { st with hwPrefetched := true }) (fun _ => rfl) s.tags ptr)⟩

theorem serviceTargets_effect {σ : Type} (cfg : Config) (P : Policy σ) (a : Answer) (ts : List Target)
    (s : Service σ) :
    let s' := ts.foldl (serviceTarget cfg P a) s
    s'.prefetcher = servePrefetches P a.blk.isSome ts s.prefetcher ∧
      s'.cpuSidePort.blocked = s.cpuSidePort.blocked ∧
      (s.tags.WellFormed cfg.geom → s'.tags.WellFormed cfg.geom) := by
  induction ts generalizing s with
  | nil => exact ⟨rfl, rfl, id⟩
  | cons t ts ih =>
    obtain ⟨h1, h2, h3⟩ := serviceTarget_effect cfg P a s t
    obtain ⟨k1, k2, k3⟩ := ih (serviceTarget cfg P a s t)
    refine ⟨?_, k2.trans h2, fun ht => k3 (h3 ht)⟩
    rw [h1] at k1
    exact k1

namespace Cache

variable {σ : Type}

/-! ## Elementary operations -/

/-- `s'` differs from `s` at most in its tags, in what its ports have to send
and in which entry has run out of targets. -/
structure SameCore (g : Geometry) (s s' : Cache σ) : Prop where
  mshrQueue : s'.mshrQueue = s.mshrQueue
  writeBuffer : s'.writeBuffer = s.writeBuffer
  prefetcher : s'.prefetcher = s.prefetcher
  blocked : s'.blocked = s.blocked
  port : s'.cpuSidePort.blocked = s.cpuSidePort.blocked
  order : s'.order = s.order
  curTick : s'.curTick = s.curTick
  tags : s.tags.WellFormed g → s'.tags.WellFormed g

/-- The end of a response to entry `m`, whose register is `r` after the fill. -/
def settle (m : MshrRef) (r : Mshr) (s : Cache σ) : Cache σ :=
  if (r.served.promoteDeferredTargets s.curTick).2 then
    s.setQueue m.1 ((s.queue m.1).finish m.2 s.curTick r.served)
  else s.freed m.1 ((s.queue m.1).finish m.2 s.curTick r.served)

/-- What the operations may be restricted to: when an entry is given up by the bail-out, when
a prefetch becomes a miss, and with which range a request is entered next to the writes in the
buffer. -/
structure Allowed (σ : Type) where
  bail : Cache σ → MshrRef → Prop := fun _ _ => True
  prefetch : Cache σ → Packet → Prop := fun _ _ => True
  demand : MshrQueue → Addr → Nat → Prop := fun _ _ _ => True

/-- The elementary operations. -/
inductive Micro (cfg : Config) (P : Policy σ) (ok : Allowed σ) : Cache σ → Cache σ → Prop where
  | others {s s' : Cache σ} (h : SameCore cfg.geom s s') : Micro cfg P ok s s'
  | time (s : Cache σ) (n : Nat) : Micro cfg P ok s { s with curTick := s.curTick + n }
  | block (s : Cache σ) : Micro cfg P ok s (s.setBlocked .noTargets)
  | unblock (s : Cache σ) : Micro cfg P ok s (s.clearBlocked .noTargets)
  /-- a demand miss, or an uncached read -/
  | miss (s : Cache σ) (addr : Addr) (size : Nat) (pkt : Packet)
      (open_ : s.cpuSidePort.blocked = false) (demand : pkt.cmd ≠ .hardPFReq)
      (allowed : ok.demand s.writeBuffer addr size) : Micro cfg P ok s
        (s.allocateBuffer .mshrs addr size pkt (s.curTick + cfg.geom.hitLatency)).1
  /-- a writeback, or an uncached write -/
  | write (s : Cache σ) (pkt : Packet) (demand : pkt.cmd ≠ .hardPFReq) :
      Micro cfg P ok s (s.allocateWriteBuffer pkt (s.curTick + cfg.geom.hitLatency))
  /-- a request joins an outstanding miss -/
  | target (s : Cache σ) (i : Nat) (pkt : Packet) (mem : i ∈ s.mshrQueue.allocatedList)
      (demand : pkt.cmd ≠ .hardPFReq)
      (allowed : ok.demand s.writeBuffer (s.mshrQueue.registers i).addr (s.mshrQueue.registers i).size) :
      Micro cfg P ok s
        (s.ordered i ((s.mshrQueue.registers i).allocateTarget pkt
          (s.curTick + cfg.geom.hitLatency) s.order))
  /-- an outstanding miss is snooped -/
  | snoop (s : Cache σ) (i : Nat) (pkt : Packet) (mem : i ∈ s.mshrQueue.allocatedList)
      (demand : pkt.cmd ≠ .hardPFReq) : Micro cfg P ok s
        (s.ordered i ((s.mshrQueue.registers i).handleSnoop s.curTick pkt s.order).1)
  /-- flags of an entry that concern other caches, and how it is forwarded -/
  | flags (s : Cache σ) (m : MshrRef) (forward pending : Bool)
      (mem : m.2 ∈ (s.queue m.1).allocatedList) : Micro cfg P ok s
        (s.setRegister m { s.register m with isForward := forward, downstreamPending := pending })
  | notify (s : Cache σ) (pkt : Packet) (time : Tick) :
      Micro cfg P ok s (s.notify cfg P pkt time)
  /-- a prefetch is taken off the queue and not wanted -/
  | popDrop (s : Cache σ) (p : Packet) (rest : List Packet) (head : s.prefetcher.pf = p :: rest) :
      Micro cfg P ok s { s with
        prefetcher := (s.prefetcher.getPacket rest).record [.dropped .present p.addr] }
  /-- a prefetch is taken off the queue and becomes a miss -/
  | popMiss (s : Cache σ) (p : Packet) (rest : List Packet) (head : s.prefetcher.pf = p :: rest)
      (room : s.mshrQueue.isFull = false) (allowed : ok.prefetch s p) : Micro cfg P ok s
        (({ s with prefetcher := s.prefetcher.getPacket rest } : Cache σ).allocateMissBuffer
          cfg p s.curTick).1
  /-- an entry has been sent -/
  | sent (s : Cache σ) (m : MshrRef) (ready : m.2 ∈ (s.queue m.1).readyList) :
      Micro cfg P ok s (s.markInService m)
  | bail (s : Cache σ) (m : MshrRef) (target : Target) (ready : m.2 ∈ (s.queue m.1).readyList)
      (first : (s.register m).getTarget = some target) (pf : target.pkt.cmd = .hardPFReq)
      (allowed : ok.bail s m) : Micro cfg P ok s (s.bailOut m target)
  /-- an entry has been answered -/
  | answered (s : Cache σ) (m : MshrRef) (r : Mshr) (hasBlk : Bool)
      (mem : m.2 ∈ (s.queue m.1).allocatedList)
      (filled : r = s.register m ∨ ∃ pkt, r = ((s.register m).handleFill pkt).1) :
      Micro cfg P ok s
        { s.settle m r with prefetcher := servePrefetches P hasBlk r.targets.list s.prefetcher }

/-- An invariant of the elementary operations holds at the end of any sequence of them. -/
theorem invariant_of_micro {cfg : Config} {P : Policy σ} {ok : Allowed σ} {I : Cache σ → Prop}
    (keep : ∀ s s', Micro cfg P ok s s' → I s → I s') {s s' : Cache σ}
    (h : Relation.ReflTransGen (Micro cfg P ok) s s') (hs : I s) : I s' := by
  induction h with
  | refl => exact hs
  | tail _ hstep ih => exact keep _ _ hstep ih

/-! ## Steps are sequences of elementary operations -/

theorem SameCore.refl (g : Geometry) (s : Cache σ) : SameCore g s s :=
  ⟨rfl, rfl, rfl, rfl, rfl, rfl, rfl, id⟩

namespace SameCore

variable {g : Geometry} {s s' : Cache σ}

theorem queue (h : SameCore g s s') (idx : QueueIdx) : s'.queue idx = s.queue idx := by
  cases idx
  · exact h.mshrQueue
  · exact h.writeBuffer

theorem setQueue (h : SameCore g s s') (idx : QueueIdx) (q : MshrQueue) :
    SameCore g (s.setQueue idx q) (s'.setQueue idx q) := by
  cases idx
  · exact ⟨rfl, h.writeBuffer, h.prefetcher, h.blocked, h.port, h.order, h.curTick, h.tags⟩
  · exact ⟨h.mshrQueue, rfl, h.prefetcher, h.blocked, h.port, h.order, h.curTick, h.tags⟩

theorem clearBlocked (h : SameCore g s s') (c : BlockedCause) :
    SameCore g (s.clearBlocked c) (s'.clearBlocked c) := by
  refine ⟨h.mshrQueue, h.writeBuffer, h.prefetcher, ?_, ?_, h.order, h.curTick, h.tags⟩
  · simp [Cache.clearBlocked, h.blocked]
  · simp only [Cache.clearBlocked, h.blocked]
    split
    · rfl
    · exact h.port

theorem freed (h : SameCore g s s') (idx : QueueIdx) (q : MshrQueue) :
    SameCore g (s.freed idx q) (s'.freed idx q) := by
  unfold Cache.freed
  rw [h.queue idx]
  split
  · exact (h.setQueue idx q).clearBlocked idx.cause
  · exact h.setQueue idx q

/-- The tags may change as long as they stay well formed. -/
theorem withTags (h : SameCore g s s') {t : Tags} (ht : s'.tags.WellFormed g → t.WellFormed g) :
    SameCore g s { s' with tags := t } :=
  ⟨h.mshrQueue, h.writeBuffer, h.prefetcher, h.blocked, h.port, h.order, h.curTick,
    fun hs => ht (h.tags hs)⟩

end SameCore

section

variable {cfg : Config} {P : Policy σ} {ok : Allowed σ}

/-- Sequences of elementary operations. -/
abbrev Micros (cfg : Config) (P : Policy σ) (ok : Allowed σ) : Cache σ → Cache σ → Prop :=
  Relation.ReflTransGen (Micro cfg P ok)

theorem Micro.one {s s' : Cache σ} (h : Micro cfg P ok s s') : Micros cfg P ok s s' :=
  Relation.ReflTransGen.single h

theorem hitPath_micros (r : AccessResult) (time : Tick) (s : Cache σ) :
    Micros cfg P ok s (s.hitPath cfg P r time) := by
  have respond : ∀ s' : Cache σ, Micros cfg P ok s' (if r.pkt.cmd.needsResponse then
      { s' with cpuSidePort := s'.cpuSidePort.respond r.pkt.makeTimingResponse (s'.curTick + r.lat) }
      else s') := by
    intro s'
    split
    · exact Micro.one (.others ⟨rfl, rfl, rfl, rfl, rfl, rfl, rfl, id⟩)
    · exact .refl
  unfold hitPath
  refine Relation.ReflTransGen.trans ?_ (respond _)
  split
  · refine Relation.ReflTransGen.head (Micro.notify s r.pkt time) ?_
    cases r.blk with
    | none => exact .refl
    | some ptr =>
      exact Micro.one (.others ⟨rfl, rfl, rfl, rfl, rfl, rfl, rfl, fun ht => ht.modify
        (inert_status (fun st => { st with hwPrefetched := false }) (fun _ => rfl) _ ptr)⟩)
  · exact .refl

theorem addTarget_micros {i : Nat} {pkt : Packet} {s : Cache σ} (hi : i ∈ s.mshrQueue.allocatedList)
    (hp : pkt.cmd ≠ .hardPFReq)
    (hok : ok.demand s.writeBuffer (s.mshrQueue.registers i).addr (s.mshrQueue.registers i).size) :
    Micros cfg P ok s (s.addTarget cfg i pkt (s.curTick + cfg.geom.hitLatency)) := by
  refine Relation.ReflTransGen.head (Micro.target s i pkt hi hp hok) ?_
  unfold addTarget
  dsimp only
  split
  · refine Relation.ReflTransGen.head (Micro.others ?_) (Micro.block _).one
    exact ⟨rfl, rfl, rfl, rfl, rfl, rfl, rfl, id⟩
  · exact .refl

theorem hideBlock_sameCore (g : Geometry) (blk : Option BlkPtr) (s : Cache σ) :
    SameCore g s (s.hideBlock blk) := by
  unfold hideBlock
  split
  · split
    · exact ⟨rfl, rfl, rfl, rfl, rfl, rfl, rfl, fun ht => ht.modify
        (inert_status (fun st => { st with readable := false }) (fun _ => rfl) _ _)⟩
    · exact SameCore.refl g s
  · exact SameCore.refl g s

/-- The range of the entry of `mshrQueue` into which a request is put that misses, if it is:
that of the miss it joins, or its block. -/
def missRange (cfg : Config) (s : Cache σ) (pkt : Packet) : Option (Addr × Nat) :=
  match s.mshrQueue.findMatch (cfg.geom.blockAlign pkt.addr) with
  | some i => some ((s.mshrQueue.registers i).addr, (s.mshrQueue.registers i).size)
  | none => if pkt.cmd = .writeback then none else some (cfg.geom.blockAlign pkt.addr, cfg.geom.blkSize)

/-- The range of the entry of `mshrQueue` into which a packet of the CPU side is put, if it is. -/
def entersAt (cfg : Config) (s : Cache σ) (pkt : Packet) : Option (Addr × Nat) :=
  if (pkt.cmd.isRequest && !pkt.memInhibit && s.cpuSidePort.blocked) || pkt.cmd.isResponse || pkt.memInhibit then none
  else if pkt.req.uncacheable then
    if pkt.cmd.isWrite && !pkt.cmd.isRead then none else some (pkt.addr, pkt.size)
  else if (access cfg.geom s.tags s.mshrQueue s.curTick pkt).satisfied then none
  else s.missRange cfg pkt

theorem missPath_micros {r : AccessResult} {s : Cache σ} (hp : r.pkt.cmd ≠ .hardPFReq)
    (hopen : s.cpuSidePort.blocked = false)
    (hok : ∀ range, s.missRange cfg r.pkt = some range → ok.demand s.writeBuffer range.1 range.2) :
    Micros cfg P ok s (s.missPath cfg P r (s.curTick + cfg.geom.hitLatency)) := by
  unfold missRange at hok
  unfold missPath
  cases hm : s.mshrQueue.findMatch (cfg.geom.blockAlign r.pkt.addr) with
  | some i =>
    rw [hm] at hok
    exact addTarget_micros (List.mem_of_find?_eq_some hm) hp (hok _ rfl)
  | none =>
    rw [hm] at hok
    dsimp only at hok ⊢
    refine Relation.ReflTransGen.tail ?_ (Micro.notify _ r.pkt _)
    split
    · exact (Micro.write s r.pkt hp).one
    · rename_i hwb
      have core := hideBlock_sameCore cfg.geom r.blk s
      have hmiss : Micro cfg P ok _ _ := .miss (s.hideBlock r.blk)
        (cfg.geom.blockAlign r.pkt.addr) cfg.geom.blkSize r.pkt (core.port.trans hopen) hp (by
          rw [core.writeBuffer]
          exact hok _ (if_neg hwb))
      rw [core.curTick] at hmiss
      exact Relation.ReflTransGen.head (Micro.others core) hmiss.one

theorem copyWritebacks_micros {wbs : List Packet} (hw : ∀ p ∈ wbs, p.cmd ≠ .hardPFReq) {time : Tick}
    (s : Cache σ) (ht : time = s.curTick + cfg.geom.hitLatency) :
    Micros cfg P ok s (s.copyWritebacks wbs time) := by
  induction wbs generalizing s with
  | nil => exact .refl
  | cons p wbs ih =>
    have hstep : Micro cfg P ok s _ := .write s p (hw p (List.mem_cons_self ..))
    rw [← ht] at hstep
    refine Relation.ReflTransGen.head hstep (ih (fun p' h' => hw p' (List.mem_cons_of_mem _ h')) _ ?_)
    rw [ht, allocateWriteBuffer, allocateBuffer_curTick]

theorem timingAccess_micros {pkt : Packet} {s : Cache σ} (hp : pkt.cmd ≠ .hardPFReq)
    (hopen : pkt.cmd.isResponse = false → pkt.memInhibit = false → s.cpuSidePort.blocked = false)
    (hok : ∀ range, s.entersAt cfg pkt = some range → ok.demand s.writeBuffer range.1 range.2) :
    Micros cfg P ok s (s.timingAccess cfg P pkt) := by
  unfold timingAccess
  dsimp only
  split
  · exact Micro.one (.others ⟨rfl, rfl, rfl, rfl, rfl, rfl, rfl, id⟩)
  rename_i hresp
  split
  · exact .refl
  rename_i hinh
  have hfree := hopen (by simpa using hresp) (by simpa using hinh)
  have henters : s.entersAt cfg pkt = if pkt.req.uncacheable then
      if pkt.cmd.isWrite && !pkt.cmd.isRead then none else some (pkt.addr, pkt.size)
      else if (access cfg.geom s.tags s.mshrQueue s.curTick pkt).satisfied then none
      else s.missRange cfg pkt := by
    simp [entersAt, hresp, hinh, hfree]
  rw [henters] at hok
  split
  · rename_i hunc
    rw [if_pos hunc] at hok
    split
    · exact Micro.one (.write s pkt hp)
    · rename_i hread
      exact Micro.one (.miss s pkt.addr pkt.size pkt hfree hp (hok _ (if_neg hread)))
  rename_i hunc
  rw [if_neg hunc] at hok
  obtain ⟨hcmd, haddr, -⟩ := access_pkt cfg.geom s.tags s.mshrQueue s.curTick pkt
  have hwbs := access_writebacks cfg.geom s.tags s.mshrQueue s.curTick pkt
  have htags : s.tags.WellFormed cfg.geom →
      (access cfg.geom s.tags s.mshrQueue s.curTick pkt).tags.WellFormed cfg.geom :=
    fun ht => ht.access s.mshrQueue s.curTick pkt
  generalize access cfg.geom s.tags s.mshrQueue s.curTick pkt = r at hcmd haddr hwbs htags hok ⊢
  have hstart : Micro cfg P ok s { s with tags := r.tags } :=
    .others ⟨rfl, rfl, rfl, rfl, rfl, rfl, rfl, htags⟩
  have hnot : ∀ p ∈ r.writebacks, p.cmd ≠ .hardPFReq := fun p h => by rw [hwbs p h]; decide
  refine Relation.ReflTransGen.head hstart ?_
  split
  · exact (hitPath_micros r _ _).trans (copyWritebacks_micros hnot _ (by rw [hitPath_curTick]))
  · rename_i hmiss
    rw [if_neg hmiss] at hok
    have hrange : ({ s with tags := r.tags } : Cache σ).missRange cfg r.pkt = s.missRange cfg pkt := by
      simp only [missRange, hcmd, haddr]
    have hpath : Micros cfg P ok _ _ :=
      @missPath_micros _ _ _ ok r { s with tags := r.tags } (hcmd ▸ hp) hfree fun range hr =>
        hok range (hrange ▸ hr)
    exact hpath.trans (copyWritebacks_micros hnot _ (by rw [missPath_curTick]))

/-- A change of the register does not matter to `freed`, which is given the queue. -/
theorem freed_setRegister (s : Cache σ) (m : MshrRef) (r : Mshr) (pf : Prefetcher σ) (q : MshrQueue) :
    ({ s.setRegister m r with prefetcher := pf } : Cache σ).freed m.1 q =
      { s.freed m.1 q with prefetcher := pf } := by
  obtain ⟨idx, i⟩ := m
  have hwas : (({ s.setRegister (idx, i) r with prefetcher := pf } : Cache σ).queue idx).isFull =
      (s.queue idx).isFull := by
    cases idx <;> rfl
  unfold freed
  simp only [hwas]
  cases idx <;> split <;> rfl

/-- The last part of `handleResponse` is `settle`, up to the tags. -/
theorem retire_core {g : Geometry} {m : MshrRef} {r : Mshr} {pf : Prefetcher σ} {s s' : Cache σ}
    (h : SameCore g { s.setRegister m r.served with prefetcher := pf } s') (blk : Option BlkPtr) :
    SameCore g { s.settle m r with prefetcher := pf } (s'.retire m blk) := by
  have hqueue : s'.queue m.1 = (s.queue m.1).modify m.2 fun _ => r.served := by
    rw [h.queue]
    obtain ⟨idx, i⟩ := m
    cases idx <;> rfl
  have hreg : s'.register m = r.served := by simp [register, hqueue, MshrQueue.modify]
  have hnow : s'.curTick = s.curTick := h.curTick.trans (setQueue_curTick ..)
  have hpromote : (s'.register m).promoteDeferredTargets s'.curTick =
      r.served.promoteDeferredTargets s.curTick := by rw [hreg, hnow]
  unfold retire settle
  rw [hpromote]
  by_cases hp : (r.served.promoteDeferredTargets s.curTick).2 = true
  · -- the deferred targets are requested again
    have hfinish : ((s'.queue m.1).modify m.2 fun _ =>
        (r.served.promoteDeferredTargets s.curTick).1).markPending m.2 =
        (s.queue m.1).finish m.2 s.curTick r.served := by
      rw [MshrQueue.finish, if_pos hp, hqueue, MshrQueue.modify_modify]
    have hset : ({ s.setRegister m r.served with prefetcher := pf } : Cache σ).setQueue m.1
        ((s.queue m.1).finish m.2 s.curTick r.served) =
        { s.setQueue m.1 ((s.queue m.1).finish m.2 s.curTick r.served) with prefetcher := pf } := by
      obtain ⟨idx, i⟩ := m
      cases idx <;> rfl
    dsimp only
    rw [if_pos hp, if_pos hp, ← hset]
    cases blk with
    | none =>
      dsimp only
      rw [hfinish]
      exact h.setQueue _ _
    | some ptr =>
      have hhide := h.withTags fun ht => ht.modify
        (inert_status (fun st => { st with readable := false }) (fun _ => rfl) s'.tags ptr)
      have hsame : ({ s' with tags := s'.tags.modify ptr fun b =>
          { b with status := { b.status with readable := false } } } : Cache σ).queue m.1 =
          s'.queue m.1 := by
        cases m.1 <;> rfl
      dsimp only
      rw [hsame, hfinish]
      exact hhide.setQueue _ _
  · have hfinish : (s'.queue m.1).deallocate m.2 = (s.queue m.1).finish m.2 s.curTick r.served := by
      rw [MshrQueue.finish, if_neg hp, hqueue]
    dsimp only
    rw [if_neg hp, if_neg hp, ← freed_setRegister s m r.served, hfinish]
    exact h.freed _ _

theorem register_setRegister (s : Cache σ) (m : MshrRef) (r : Mshr) :
    (s.setRegister m r).register m = r := by
  obtain ⟨_ | _, i⟩ := m <;> simp [setRegister, setQueue, register, queue, MshrQueue.modify]

theorem setRegister_setRegister (s : Cache σ) (m : MshrRef) (a b : Mshr) :
    (s.setRegister m a).setRegister m b = s.setRegister m b := by
  obtain ⟨_ | _, i⟩ := m <;> simp [setRegister, setQueue, queue, MshrQueue.modify]

theorem setRegister_self (s : Cache σ) (m : MshrRef) : s.setRegister m (s.register m) = s := by
  obtain ⟨_ | _, i⟩ := m <;> simp [setRegister, setQueue, queue, register, MshrQueue.modify]

/-- The target loop, for an entry whose register has become `r`. -/
theorem serviceTargets_core (P : Policy σ) {s : Cache σ} {m : MshrRef} {r : Mshr} {t : Tags}
    (ht : s.tags.WellFormed cfg.geom → t.WellFormed cfg.geom) (a : Answer) :
    SameCore cfg.geom
      { s.setRegister m r.served with
        prefetcher := servePrefetches P a.blk.isSome r.targets.list s.prefetcher }
      (({ s.setRegister m r with tags := t } : Cache σ).serviceTargets cfg P m a) := by
  have hreg : ({ s.setRegister m r with tags := t } : Cache σ).register m = r := by
    refine Eq.trans ?_ (register_setRegister s m r)
    obtain ⟨_ | _, i⟩ := m <;> rfl
  have hset : ({ s.setRegister m r with tags := t } : Cache σ).setRegister m r.served =
      { s.setRegister m r.served with tags := t } := by
    rw [← setRegister_setRegister s m r r.served]
    obtain ⟨_ | _, i⟩ := m <;> rfl
  obtain ⟨hpf, hport, htags⟩ := serviceTargets_effect cfg P a r.targets.list
    { tags := t, prefetcher := s.prefetcher
      cpuSidePort := s.cpuSidePort, memSidePort := s.memSidePort }
  unfold serviceTargets
  dsimp only
  rw [hreg, hset]
  obtain ⟨_ | _, i⟩ := m
  all_goals exact ⟨rfl, rfl, hpf, rfl, hport, rfl, rfl, fun hs => htags (ht hs)⟩

theorem invalidateAfter_core {s s' : Cache σ} (h : SameCore cfg.geom s s') (pkt : Packet)
    (blk : Option BlkPtr) : SameCore cfg.geom s (s'.invalidateAfter cfg pkt blk) := by
  unfold invalidateAfter
  split
  · split
    · exact h.withTags fun ht => ht.invalidateBlk _
    · exact h
  · exact h

/-- The entry's part of `handleResponse`. -/
theorem answer_core (P : Policy σ) (m : MshrRef) (pkt : Packet) (upward : Nat → SnoopAnswer)
    (s : Cache σ) : ∃ r hasBlk,
      (r = s.register m ∨ ∃ p, r = ((s.register m).handleFill p).1) ∧
      SameCore cfg.geom
        { s.settle m r with prefetcher := servePrefetches P hasBlk r.targets.list s.prefetcher }
        (s.answer cfg P m pkt upward).1 ∧
      ∀ p ∈ (s.answer cfg P m pkt upward).2.2, p.cmd = .writeback := by
  unfold answer answerOf
  generalize s.isFill m pkt = isFill
  unfold fill
  dsimp only
  by_cases hfill : (isFill && !pkt.cmd.isError) = true
  · have htags : s.tags.WellFormed cfg.geom → (PrefetchSim.handleFill cfg.geom s.tags s.mshrQueue
        s.curTick ((s.register m).handleFill pkt).2 (s.tags.findBlock cfg.geom pkt.addr)).1.WellFormed
          cfg.geom := by
      intro ht
      apply ht.handleFill
      unfold Mshr.handleFill
      dsimp only
      split <;> rfl
    have hwbs := handleFill_writebacks cfg.geom s.tags s.mshrQueue s.curTick
      ((s.register m).handleFill pkt).2 (s.tags.findBlock cfg.geom pkt.addr)
    simp only [hfill, if_true]
    exact ⟨_, _, .inr ⟨pkt, rfl⟩, retire_core (invalidateAfter_core
      (serviceTargets_core P htags _) _ _) _, hwbs⟩
  · simp only [hfill, if_false, Bool.false_eq_true]
    have hserved := @serviceTargets_core _ cfg P s m (s.register m) s.tags id
    rw [setRegister_self] at hserved
    exact ⟨s.register m, _, .inl rfl, retire_core (invalidateAfter_core (hserved _) _ _) _, by simp⟩

@[simp] theorem freed_curTick (s : Cache σ) (idx : QueueIdx) (q : MshrQueue) :
    (s.freed idx q).curTick = s.curTick := by
  unfold freed
  split <;> simp [Cache.clearBlocked]

@[simp] theorem settle_curTick (m : MshrRef) (r : Mshr) (s : Cache σ) :
    (s.settle m r).curTick = s.curTick := by
  unfold settle
  split <;> simp

theorem clearNoTarget_queue (m : MshrRef) (s : Cache σ) (idx : QueueIdx) :
    (s.clearNoTarget m).queue idx = s.queue idx := by
  unfold clearNoTarget
  split <;> cases idx <;> rfl

theorem clearNoTarget_curTick (m : MshrRef) (s : Cache σ) :
    (s.clearNoTarget m).curTick = s.curTick := by
  unfold clearNoTarget
  split <;> rfl

theorem clearNoTarget_tags (m : MshrRef) (s : Cache σ) : (s.clearNoTarget m).tags = s.tags := by
  unfold clearNoTarget
  split <;> rfl

theorem clearNoTarget_micros (m : MshrRef) (s : Cache σ) :
    Micros cfg P ok s (s.clearNoTarget m) := by
  unfold clearNoTarget
  split
  · refine Relation.ReflTransGen.head (Micro.unblock s) (Micro.one (.others ?_))
    exact ⟨rfl, rfl, rfl, rfl, rfl, rfl, rfl, id⟩
  · exact .refl

theorem clearTemp_micros {blk : Option BlkPtr} {time : Tick} {s : Cache σ}
    (ht : time = s.curTick + cfg.geom.hitLatency) :
    Micros cfg P ok s (s.clearTemp cfg blk time) := by
  have given_up : ∀ s' : Cache σ,
      Micro cfg P ok s' { s' with tags := s'.tags.invalidateBlk cfg.geom .temp } :=
    fun s' => .others ((SameCore.refl cfg.geom s').withTags fun hs => hs.invalidateBlk .temp)
  unfold clearTemp
  split
  · dsimp only
    split
    · -- the dirty block is marked clean, buffered and given up
      have hclean : SameCore cfg.geom s { s with tags := (writebackBlk cfg.geom s.tags s.curTick .temp).1 } :=
        (SameCore.refl cfg.geom s).withTags fun hs => by
          dsimp only [writebackBlk]
          exact hs.modify (.inl rfl)
      have hwrite : Micro cfg P ok _ _ :=
        .write { s with tags := (writebackBlk cfg.geom s.tags s.curTick .temp).1 }
          (writebackBlk cfg.geom s.tags s.curTick .temp).2
          (show MemCmd.writeback ≠ MemCmd.hardPFReq by decide)
      rw [ht]
      exact ((Micro.others hclean).one.tail hwrite).tail (given_up _)
    · exact (given_up s).one
  · exact .refl

theorem handleResponse_micros {m : MshrRef} {s : Cache σ} (hm : m.2 ∈ (s.queue m.1).allocatedList)
    (pkt : Packet) (upward : Nat → SnoopAnswer) :
    Micros cfg P ok s (s.handleResponse cfg P m pkt upward) := by
  unfold handleResponse
  dsimp only
  split
  · exact .refl
  have hmem : m.2 ∈ ((s.clearNoTarget m).queue m.1).allocatedList := by rwa [clearNoTarget_queue]
  obtain ⟨r, hasBlk, hfill, hcore, hwbs⟩ := answer_core P m pkt upward (s.clearNoTarget m)
  have hnow : ((s.clearNoTarget m).answer cfg P m pkt upward).1.curTick = s.curTick := by
    rw [hcore.curTick]
    exact (settle_curTick ..).trans (clearNoTarget_curTick m s)
  have hanswer : Micros cfg P ok s ((s.clearNoTarget m).answer cfg P m pkt upward).1 :=
    ((clearNoTarget_micros m s).tail (.answered _ m r hasBlk hmem hfill)).tail (.others hcore)
  have hbuffer : Micros cfg P ok _ _ := copyWritebacks_micros
    (fun p h => by rw [hwbs p h]; decide)
    ((s.clearNoTarget m).answer cfg P m pkt upward).1 (congrArg (· + cfg.geom.hitLatency) hnow.symm)
  refine (hanswer.trans hbuffer).trans (clearTemp_micros ?_)
  rw [copyWritebacks_curTick, hnow]

theorem snoopMSHR_writeBuffer (blkAddr : Addr) (pkt : Packet) (s : Cache σ) :
    (s.snoopMSHR blkAddr pkt).1.writeBuffer = s.writeBuffer := by
  unfold snoopMSHR
  split <;> rfl

theorem snoopMSHR_micros {blkAddr : Addr} {pkt : Packet} (s : Cache σ) (hp : pkt.cmd ≠ .hardPFReq) :
    Micros cfg P ok s (s.snoopMSHR blkAddr pkt).1 := by
  unfold snoopMSHR
  cases hm : s.mshrQueue.findMatch blkAddr with
  | none => exact .refl
  | some i => exact Micro.one (.snoop s i pkt (List.mem_of_find?_eq_some hm) hp)

theorem snoopWriteback_micros {blkAddr : Addr} {s : Cache σ} (pkt : Packet)
    (hready : ∀ i, (s.writeBuffer.findMatches blkAddr).head? = some i → i ∈ s.writeBuffer.readyList) :
    Micros cfg P ok s (s.snoopWriteback cfg blkAddr pkt).1 := by
  unfold snoopWriteback
  cases hw : (s.writeBuffer.findMatches blkAddr).head? with
  | none => exact .refl
  | some i =>
    dsimp only
    generalize doTimingSupplyResponse cfg.geom s.curTick s.memSidePort _ _ false false = port
    have hport : Micro cfg P ok s { s with memSidePort := port } :=
      .others ⟨rfl, rfl, rfl, rfl, rfl, rfl, rfl, id⟩
    split
    · exact hport.one.tail (.sent _ (.writeBuffer, i) (hready i hw))
    · exact hport.one

theorem snoopTiming_micros {pkt : Packet} {s : Cache σ} (hp : pkt.cmd ≠ .hardPFReq)
    (hready : (s.snoopMSHR (cfg.geom.blockAlign pkt.addr) pkt).2.2 = false → ∀ i,
      (s.writeBuffer.findMatches (cfg.geom.blockAlign pkt.addr)).head? = some i →
        i ∈ s.writeBuffer.readyList) (answer : SnoopAnswer) :
    Micros cfg P ok s (s.snoopTiming cfg pkt answer) := by
  have hmshr : Micros cfg P ok s (s.snoopMSHR (cfg.geom.blockAlign pkt.addr) pkt).1 :=
    snoopMSHR_micros s hp
  unfold snoopTiming
  split
  · exact .refl
  dsimp only
  split
  · exact hmshr
  · rename_i hdefer
    have hwb : Micros cfg P ok _ _ := @snoopWriteback_micros _ cfg P ok
      (cfg.geom.blockAlign pkt.addr) (s.snoopMSHR (cfg.geom.blockAlign pkt.addr) pkt).1
      (s.snoopMSHR (cfg.geom.blockAlign pkt.addr) pkt).2.1 (by
        rw [snoopMSHR_writeBuffer]
        exact hready (by simpa using hdefer))
    refine (hmshr.trans hwb).tail (.others ?_)
    exact ⟨rfl, rfl, rfl, rfl, rfl, rfl, rfl, fun ht => handleSnoop_wellFormed ht ..⟩

/-! ## Sending -/

/-- The prefetch that becomes a miss when the cache gets the bus. -/
def nextPrefetch (cfg : Config) (s : Cache σ) : Option Packet :=
  if s.pendingMSHR.isSome || s.mshrQueue.isFull then none
  else (s.prefetcher.pf.takeWhile fun p => decide (p.time ≤ s.curTick)).find? (s.wanted cfg)

theorem pendingMSHR_ready {s : Cache σ} {m : MshrRef} (h : s.pendingMSHR = some m) :
    m.2 ∈ (s.queue m.1).readyList := by
  have hnext : ∀ (q : MshrQueue) (i : Nat), q.getNextMSHR s.curTick = some i → i ∈ q.readyList := by
    intro q i hi
    exact List.mem_of_head? (Option.filter_eq_some_iff.1 hi).1
  unfold pendingMSHR at h
  split at h
  · cases h
    exact hnext _ _ (by assumption)
  · cases h
    exact hnext _ _ (by assumption)
  · cases h
  · rename_i miss write hmiss hwrite
    dsimp only at h
    split at h
    · split at h
      · rename_i conflict hconflict
        split at h
        · cases h
          exact List.mem_of_find?_eq_some hconflict
        · cases h
          exact hnext _ _ hwrite
      · cases h
        exact hnext _ _ hwrite
    · split at h
      · rename_i conflict hconflict
        cases h
        exact List.mem_of_find?_eq_some hconflict
      · cases h
        exact hnext _ _ hmiss

/-- The loop drops packets that are not wanted until it finds one that is, or
one that is not ready yet. -/
theorem tryPrefetch_spec (cfg : Config) (P : Policy σ) (ok : Allowed σ) (l : List Packet) (s : Cache σ)
    (hl : s.prefetcher.pf = l) :
    ∃ pf', Micros cfg P ok s { s with prefetcher := pf' } ∧
      match (l.takeWhile fun p => decide (p.time ≤ s.curTick)).find? (s.wanted cfg) with
      | none => s.tryPrefetch cfg l = ({ s with prefetcher := pf' }, none)
      | some p => ∃ rest, pf'.pf = p :: rest ∧ s.tryPrefetch cfg l =
          ((({ s with prefetcher := pf'.getPacket rest } : Cache σ).allocateMissBuffer cfg p s.curTick).1,
           (({ s with prefetcher := pf'.getPacket rest } : Cache σ).allocateMissBuffer cfg p
              s.curTick).2.map (QueueIdx.mshrs, ·)) := by
  induction l generalizing s with
  | nil => exact ⟨s.prefetcher, .refl, rfl⟩
  | cons p l ih =>
    by_cases htime : p.time ≤ s.curTick
    · rw [List.takeWhile_cons_of_pos (by simpa using htime)]
      by_cases hw : s.wanted cfg p = true
      · rw [List.find?_cons_of_pos hw]
        refine ⟨s.prefetcher, .refl, l, hl, ?_⟩
        have hkeep : ({ s with prefetcher := s.prefetcher.getPacket l } : Cache σ).wanted cfg p = true := hw
        simp only [tryPrefetch, htime, if_true, hkeep]
      · rw [List.find?_cons_of_neg hw]
        have hdrop : Micro cfg P ok s _ := .popDrop s p l hl
        obtain ⟨pf', hmicros, hspec⟩ := ih { s with
          prefetcher := (s.prefetcher.getPacket l).record [.dropped .present p.addr] } rfl
        refine ⟨pf', Relation.ReflTransGen.head hdrop hmicros, ?_⟩
        have hstep : s.tryPrefetch cfg (p :: l) = ({ s with
            prefetcher := (s.prefetcher.getPacket l).record [.dropped .present p.addr] } :
              Cache σ).tryPrefetch cfg l := by
          have hkeep : ¬({ s with prefetcher := s.prefetcher.getPacket l } : Cache σ).wanted cfg p = true := hw
          simp only [tryPrefetch, htime, if_true]
          rw [if_neg hkeep]
        rw [hstep]
        exact hspec
    · rw [List.takeWhile_cons_of_neg (by simpa using htime)]
      refine ⟨s.prefetcher, .refl, ?_⟩
      simp [tryPrefetch, htime]

theorem queue_allocateBuffer (idx idx' : QueueIdx) (addr : Addr) (size : Nat) (pkt : Packet)
    (time : Tick) (s : Cache σ) : (s.allocateBuffer idx addr size pkt time).1.queue idx' =
      if idx' = idx then ((s.queue idx).allocate addr size pkt time s.order).1 else s.queue idx' := by
  unfold allocateBuffer
  dsimp only
  split <;> cases idx <;> cases idx' <;> rfl

theorem allocateBuffer_queue (idx : QueueIdx) (addr : Addr) (size : Nat) (pkt : Packet) (time : Tick)
    (s : Cache σ) : (s.allocateBuffer idx addr size pkt time).1.queue idx =
      ((s.queue idx).allocate addr size pkt time s.order).1 := by
  unfold allocateBuffer
  dsimp only
  split <;> cases idx <;> rfl

/-- The packet for an entry that waits for the bus; if there is one the entry
still waits. -/
theorem timingPacketFor_micros {m : MshrRef} {target : Target} {s : Cache σ}
    (hready : m.2 ∈ (s.queue m.1).readyList) (hmem : m.2 ∈ (s.queue m.1).allocatedList)
    (hfirst : (s.register m).getTarget = some target)
    (hbail : (s.register m).isForwardNoResponse = false → s.needless cfg m target = true → ok.bail s m)
    (upward : Nat → SnoopAnswer) :
    let r := s.timingPacketFor cfg P upward m target
    Micros cfg P ok s r.1 ∧ (r.2.isSome → m.2 ∈ (r.1.queue m.1).readyList) := by
  unfold timingPacketFor
  dsimp only
  split
  · dsimp only
    exact ⟨handleResponse_micros hmem _ upward, by simp⟩
  split
  · exact ⟨.refl, fun _ => hready⟩
  rename_i hforward
  split
  · rename_i hneed
    have hcmd : target.pkt.cmd = .hardPFReq := by
      simp only [needless, Bool.and_eq_true, beq_iff_eq] at hneed
      exact hneed.2
    exact ⟨Micro.one (.bail s m target hready hfirst hcmd (hbail (by simpa using hforward) hneed)),
      by simp⟩
  · refine ⟨Micro.one (.flags s m _ (s.register m).downstreamPending hmem), fun _ => ?_⟩
    obtain ⟨_ | _, i⟩ := m <;> exact hready

/-- The prefetch `p` has become the miss `i`. -/
structure MakesMiss (cfg : Config) (s : Cache σ) (p : Packet) (pf' : Prefetcher σ) (i : Nat) (c : Cache σ) :
    Prop where
  cache : c = (({ s with prefetcher := pf' } : Cache σ).allocateMissBuffer cfg p s.curTick).1
  new : (s.mshrQueue.allocate (cfg.geom.blockAlign p.addr) cfg.geom.blkSize p s.curTick s.order).2 = some i

namespace MakesMiss

variable {p : Packet} {pf' : Prefetcher σ} {i : Nat} {s c : Cache σ}

theorem misses (h : s.MakesMiss cfg p pf' i c) : c.mshrQueue =
    (s.mshrQueue.allocate (cfg.geom.blockAlign p.addr) cfg.geom.blkSize p s.curTick s.order).1 := by
  rw [h.cache]
  exact allocateBuffer_queue .mshrs ..

theorem writes (h : s.MakesMiss cfg p pf' i c) : c.writeBuffer = s.writeBuffer := by
  rw [h.cache]
  exact queue_allocateBuffer .mshrs .writeBuffer ..

theorem tags (h : s.MakesMiss cfg p pf' i c) : c.tags = s.tags := by
  rw [h.cache]
  exact allocateBuffer_tags ..

theorem free (h : s.MakesMiss cfg p pf' i c) : s.mshrQueue.freeList ≠ [] := by
  intro hnil
  have hnew := h.new
  simp [MshrQueue.allocate, hnil] at hnew

theorem entry (h : s.MakesMiss cfg p pf' i c) : i ∈ c.mshrQueue.allocatedList ∧ i ∈ c.mshrQueue.readyList ∧
    c.mshrQueue.registers i =
      (s.mshrQueue.registers i).allocate (cfg.geom.blockAlign p.addr) cfg.geom.blkSize p s.curTick s.order := by
  rw [h.misses]
  exact MshrQueue.allocate_new h.new

end MakesMiss

/-- The ways `getNextMSHR` goes: it finds an entry that waits, or nothing, or a prefetch that
becomes a miss. -/
inductive Next (cfg : Config) (P : Policy σ) (ok : Allowed σ) (s : Cache σ) : Cache σ → Option MshrRef → Prop
  | waiting {m : MshrRef} (hm : s.pendingMSHR = some m) : Next cfg P ok s s (some m)
  | nothing {pf' : Prefetcher σ} (hp : s.nextPrefetch cfg = none)
      (hmicros : Micros cfg P ok s { s with prefetcher := pf' }) : Next cfg P ok s { s with prefetcher := pf' } none
  | prefetch {p : Packet} {pf' : Prefetcher σ} {i : Nat} {c : Cache σ} (hp : s.nextPrefetch cfg = some p)
      (hwanted : s.wanted cfg p = true) (hmade : s.MakesMiss cfg p pf' i c)
      (hmicros : (∀ pf', ok.prefetch { s with prefetcher := pf' } p) → Micros cfg P ok s c) :
      Next cfg P ok s c (some (.mshrs, i))

theorem next (P : Policy σ) (ok : Allowed σ) {s : Cache σ}
    (hfree : s.mshrQueue.isFull = false → s.mshrQueue.freeList ≠ []) {c : Cache σ} {o : Option MshrRef}
    (h : s.getNextMSHR cfg = (c, o)) : s.Next cfg P ok c o := by
  unfold getNextMSHR at h
  cases hpending : s.pendingMSHR with
  | some m =>
    simp only [hpending] at h
    cases h
    exact .waiting hpending
  | none =>
    cases hfull : s.mshrQueue.isFull with
    | true =>
      simp only [hpending, hfull, if_true] at h
      cases h
      exact .nothing (by simp [nextPrefetch, hfull]) .refl
    | false =>
      simp only [hpending, hfull, Bool.false_eq_true, if_false] at h
      obtain ⟨pf', hmicros, hspec⟩ := tryPrefetch_spec cfg P ok s.prefetcher.pf s rfl
      have hfind : s.nextPrefetch cfg =
          (s.prefetcher.pf.takeWhile fun p => decide (p.time ≤ s.curTick)).find? (s.wanted cfg) := by
        simp [nextPrefetch, hpending, hfull]
      split at hspec
      · rename_i hnone
        cases h.symm.trans hspec
        exact .nothing (hfind.trans hnone) hmicros
      · rename_i p hsome
        obtain ⟨rest, hrest, heq⟩ := hspec
        obtain ⟨i, hi⟩ := MshrQueue.allocate_isSome (hfree hfull) (cfg.geom.blockAlign p.addr) cfg.geom.blkSize p
          s.curTick s.order
        rw [show (({ s with prefetcher := pf'.getPacket rest } : Cache σ).allocateMissBuffer cfg p
          s.curTick).2 = some i from hi] at heq
        cases h.symm.trans heq
        exact .prefetch (hfind.trans hsome) (List.find?_some hsome) ⟨rfl, hi⟩ fun hok =>
          hmicros.tail (.popMiss { s with prefetcher := pf' } p rest hrest hfull (hok pf'))

/-- An entry that is found waits for the bus. -/
theorem Next.ready {s c : Cache σ} {m : MshrRef} (h : s.Next cfg P ok c (some m)) :
    m.2 ∈ (c.queue m.1).readyList := by
  cases h with
  | waiting hm => exact pendingMSHR_ready hm
  | prefetch _ _ hmade _ => exact hmade.entry.2.1

/-- A prefetch that has just become a miss is not given up at once. -/
theorem needless_new {p : Packet} {i : Nat} {pf' : Prefetcher σ} {s c : Cache σ} (h : s.MakesMiss cfg p pf' i c)
    (hw : s.wanted cfg p = true) (target : Target) : c.needless cfg (.mshrs, i) target = false := by
  have hnone : s.tags.findBlock cfg.geom (cfg.geom.blockAlign p.addr) = none := by
    simp only [wanted, Bool.and_eq_true, Option.isNone_iff_eq_none] at hw
    exact hw.1
  have hreg : c.register (.mshrs, i) = _ := h.entry.2.2
  unfold needless
  rw [hreg, h.tags]
  simp [Mshr.allocate, hnone]

/-- What follows the choice of an entry. -/
theorem chosen_micros {s : Cache σ} (upward : Nat → SnoopAnswer) {m : MshrRef} (hready : m.2 ∈ (s.queue m.1).readyList)
    (hmem : m.2 ∈ (s.queue m.1).allocatedList)
    (hbail : ∀ target, (s.register m).getTarget = some target → (s.register m).isForwardNoResponse = false →
      s.needless cfg m target = true → ok.bail s m) :
    let r : Cache σ × Option (Packet × MshrRef) := match (s.register m).getTarget with
      | none => (s, none)
      | some target => ((s.timingPacketFor cfg P upward m target).1,
          (s.timingPacketFor cfg P upward m target).2.map (·, m))
    Micros cfg P ok s r.1 ∧ ∀ p m', r.2 = some (p, m') → m'.2 ∈ (r.1.queue m'.1).readyList := by
  cases hfirst : (s.register m).getTarget with
  | none => exact ⟨.refl, by simp⟩
  | some target =>
    obtain ⟨hmicros, hstill⟩ :=
      @timingPacketFor_micros _ _ P ok _ _ _ hready hmem hfirst (hbail target hfirst) upward
    refine ⟨hmicros, ?_⟩
    intro p m' heq
    obtain ⟨p', hp', he⟩ := Option.map_eq_some_iff.1 heq
    cases he
    exact hstill (by simp [hp'])

theorem getTimingPacket_micros {s : Cache σ} (upward : Nat → SnoopAnswer)
    (hq : ∀ idx, ∀ i ∈ (s.queue idx).readyList, i ∈ (s.queue idx).allocatedList)
    (hfree : s.mshrQueue.isFull = false → s.mshrQueue.freeList ≠ [])
    (hbail : ∀ m target, s.pendingMSHR = some m → (s.register m).getTarget = some target →
      (s.register m).isForwardNoResponse = false → s.needless cfg m target = true → ok.bail s m)
    (hpf : ∀ p pf', s.nextPrefetch cfg = some p → ok.prefetch { s with prefetcher := pf' } p) :
    let r := s.getTimingPacket cfg P upward
    Micros cfg P ok s r.1 ∧ ∀ p m, r.2 = some (p, m) → m.2 ∈ (r.1.queue m.1).readyList := by
  unfold getTimingPacket
  obtain ⟨c, o, hr⟩ : ∃ c o, s.getNextMSHR cfg = (c, o) := ⟨_, _, rfl⟩
  rw [hr]
  cases next P ok hfree hr with
  | waiting hm =>
    have hready := pendingMSHR_ready hm
    exact chosen_micros upward hready (hq _ _ hready) fun target => hbail _ target hm
  | nothing _ hmicros => exact ⟨hmicros, by simp⟩
  | prefetch hp hwanted hmade hmicros =>
    obtain ⟨halloc, hready, -⟩ := hmade.entry
    obtain ⟨hlast, hstill⟩ := @chosen_micros σ cfg P ok c upward (.mshrs, _) hready halloc
      fun target _ _ hneed => by rw [needless_new hmade hwanted] at hneed; cases hneed
    exact ⟨(hmicros fun pf' => hpf _ pf' hp).trans hlast, hstill⟩

/-- What happens when the cache gets the bus: an entry that waits is sent, or it
is a prefetch that is given up; or else a queued prefetch becomes a miss. -/
theorem sendPacket_micros {s : Cache σ} (accept : Bool) (upward : Nat → SnoopAnswer)
    (hq : ∀ idx, ∀ i ∈ (s.queue idx).readyList, i ∈ (s.queue idx).allocatedList)
    (hfree : s.mshrQueue.isFull = false → s.mshrQueue.freeList ≠ [])
    (hbail : ∀ m target, s.memSidePort.deferredPacketReady s.curTick = false → s.pendingMSHR = some m →
      (s.register m).getTarget = some target → (s.register m).isForwardNoResponse = false →
      s.needless cfg m target = true → ok.bail s m)
    (hpf : ∀ p pf', s.memSidePort.deferredPacketReady s.curTick = false →
      s.nextPrefetch cfg = some p → ok.prefetch { s with prefetcher := pf' } p) :
    Micros cfg P ok s (s.sendPacket cfg P accept upward) := by
  unfold sendPacket
  split
  · exact Micro.one (.others ⟨rfl, rfl, rfl, rfl, rfl, rfl, rfl, id⟩)
  rename_i hdeferred
  rw [Bool.not_eq_true] at hdeferred
  obtain ⟨hmicros, hstill⟩ : let r := s.getTimingPacket cfg P upward
      Micros cfg P ok s r.1 ∧ ∀ p m, r.2 = some (p, m) → m.2 ∈ (r.1.queue m.1).readyList :=
    getTimingPacket_micros upward hq hfree (fun m target => hbail m target hdeferred)
      (fun p pf' => hpf p pf' hdeferred)
  generalize s.getTimingPacket cfg P upward = r at hmicros hstill ⊢
  have waiting : ∀ (s' : Cache σ) (w : Bool), Micro cfg P ok s'
      { s' with memSidePort := { s'.memSidePort with waitingOnRetry := w } } :=
    fun s' w => .others ⟨rfl, rfl, rfl, rfl, rfl, rfl, rfl, id⟩
  obtain ⟨s', _ | ⟨p, m⟩⟩ := r
  · exact hmicros.tail (waiting s' false)
  · dsimp only
    split
    · refine (hmicros.tail (waiting s' _)).tail (.sent _ m ?_)
      have := hstill p m rfl
      obtain ⟨_ | _, i⟩ := m <;> exact this
    · exact hmicros.tail (waiting s' _)

end

end Cache
end PrefetchSim
