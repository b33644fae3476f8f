import PrefetchSim.Mem.Sound

/- Load-locked and store-conditional at a cache with LRU tags.

   `BlkOp` are the things that are done to the blocks of a cache, each with the function
   of the source that does it, on any block and in any order. Next to the tags runs what a
   store-conditional is meant to test (`Reservations`): the load-lockeds that have been
   satisfied from a frame since it was last written, invalidated or given to another
   block. The source keeps a list of locks in the frame instead, which a swap and an
   insertion leave as it is.

   Proved here: in every run in which no block with a lock is written by a swap, or by a
   writeback that finds it without permission, and no frame with a lock is given to another
   block, a store-conditional succeeds only if its context has a reservation for that very
   block (`store_conditional_warranted`). The timing cache does nothing else to its blocks
   (`Cache.step_blkOps`). -/
namespace PrefetchSim

/-- The address of the block in a frame. -/
def CacheBlk.addr (g : Geometry) (b : CacheBlk) : Addr := g.regenerateBlkAddr b.tag b.set

/-! ## Reservations -/

inductive LockEvent where
  /-- a load-locked has been satisfied from the block -/
  | linked (ptr : BlkPtr) (context : Nat) (addr : Addr)
  /-- a store-conditional has been satisfied from the block -/
  | tried (ptr : BlkPtr) (context : Option Nat) (addr : Addr) (success : Bool)
  /-- a store or a swap has written the block -/
  | written (ptr : BlkPtr)
  /-- the block has been invalidated or replaced -/
  | gone (ptr : BlkPtr)

/-- The contexts that hold a reservation for a frame, with the address they reserved. -/
abbrev Reservations := BlkPtr → List (Nat × Addr)

namespace LockEvent

def record (R : Reservations) : LockEvent → Reservations
  | .linked ptr c a => Function.update R ptr ((c, a) :: R ptr)
  | .tried ptr _ _ success => if success then Function.update R ptr [] else R
  | .written ptr => Function.update R ptr []
  | .gone ptr => Function.update R ptr []

/-- A store-conditional that succeeds has a reservation for the block it writes. -/
def Warranted (R : Reservations) : LockEvent → Prop
  | .tried ptr context a true => ∃ c ∈ context, (c, a) ∈ R ptr
  | _ => True

instance (R : Reservations) : DecidablePred (Warranted R)
  | .tried ptr context a true => inferInstanceAs (Decidable (∃ c ∈ context, (c, a) ∈ R ptr))
  | .tried _ _ _ false => inferInstanceAs (Decidable True)
  | .linked .. => inferInstanceAs (Decidable True)
  | .written _ => inferInstanceAs (Decidable True)
  | .gone _ => inferInstanceAs (Decidable True)

end LockEvent

/-! ## Operations on the blocks -/

inductive BlkOp where
  /-- `access`, with the outstanding misses and the time -/
  | access (q : MshrQueue) (now : Tick) (pkt : Packet)
  /-- `handleFill` for the block that `findBlock` returns -/
  | fill (q : MshrQueue) (now : Tick) (pkt : Packet)
  /-- `satisfyCpuSideRequest` for a target that has waited -/
  | serve (ptr : BlkPtr) (pkt : Packet)
  /-- `handleSnoop` on a block -/
  | snoop (ptr : BlkPtr) (pkt : Packet)
  | invalidate (ptr : BlkPtr)
  /-- the other bits of a valid or invalid block are set and cleared on the way -/
  | setStatus (ptr : BlkPtr) (status : Status)

/-- `overwrite_mem` of `cmpAndSwap`. -/
def swapWrites (g : Geometry) (b : CacheBlk) (pkt : Packet) : Bool :=
  pkt.cmd = .swapReq && (!pkt.req.condSwap ||
    decide ((b.data.drop (g.extractBlkOffset pkt.addr)).take pkt.size =
      littleEndian pkt.size pkt.req.extraData))

/-- What satisfying a request from a block means for the reservations. Whether a
store-conditional has succeeded is read off the extra data of its packet. -/
def requestEvents (g : Geometry) (t : Tags) (ptr : BlkPtr) (pkt : Packet) : List LockEvent :=
  let addr := (t.blks ptr).addr g
  if pkt.cmd = .swapReq then if swapWrites g (t.blks ptr) pkt then [.written ptr] else []
  else if pkt.cmd.isWrite then
    if pkt.cmd.isLLSC then
      [.tried ptr pkt.req.contextId addr ((satisfyCpuSideRequest g t ptr pkt).2.req.extraData == 1)]
    else [.written ptr]
  else if pkt.cmd.isRead then
    (if pkt.cmd.isLLSC then pkt.req.contextId.toList.map fun c => .linked ptr c addr else []) ++
      if givesUp g pkt then [.gone ptr] else []
  else [.gone ptr]

namespace BlkOp

def apply (cfg : Config) (t : Tags) : BlkOp → Tags
  | .access q now pkt => (PrefetchSim.access cfg.geom t q now pkt).tags
  | .fill q now pkt => (handleFill cfg.geom t q now pkt (t.findBlock cfg.geom pkt.addr)).1
  | .serve ptr pkt => (satisfyCpuSideRequest cfg.geom t ptr pkt).1
  | .snoop ptr pkt => (handleSnoop cfg t {} 0 {} pkt (some ptr) false false).1
  | .invalidate ptr => t.invalidateBlk cfg.geom ptr
  | .setStatus ptr status => t.modify ptr fun b => { b with status := { status with valid := b.isValid } }

/-- The frame that is given to another block. -/
def taken (g : Geometry) (t : Tags) : BlkOp → Option BlkPtr
  | .access q now pkt =>
    if (t.findBlock g pkt.addr).isNone && pkt.cmd == .writeback then
      (allocateBlock g (t.accessBlock g now pkt.addr).1 q now pkt.addr).2.1
    else none
  | .fill q now pkt =>
    if (t.findBlock g pkt.addr).isNone then some ((allocateBlock g t q now pkt.addr).2.1.getD .temp)
    else none
  | _ => none

/-- The block that is written without a look at its locks: by a swap, or by a writeback
that finds it without permission. -/
def overwritten (g : Geometry) (t : Tags) : BlkOp → Option BlkPtr
  | .access _ _ pkt =>
    (t.findBlock g pkt.addr).filter fun ptr =>
      if permits pkt (t.blks ptr) then swapWrites g (t.blks ptr) pkt else pkt.cmd == .writeback
  | .serve ptr pkt => if swapWrites g (t.blks ptr) pkt then some ptr else none
  | _ => none

def events (g : Geometry) (t : Tags) : BlkOp → List LockEvent
  | .access q now pkt =>
    match t.accessBlock g now pkt.addr with
    | (t₁, _, some ptr) =>
      if permits pkt (t₁.blks ptr) then requestEvents g t₁ ptr pkt
      else if pkt.cmd = .writeback then [.written ptr] else []
    | (_, _, none) => ((BlkOp.access q now pkt).taken g t).toList.map .gone
  | .fill q now pkt => ((BlkOp.fill q now pkt).taken g t).toList.map .gone
  | .serve ptr pkt => requestEvents g t ptr pkt
  | .snoop ptr pkt => if (t.blks ptr).isValid && pkt.cmd.isInvalidate then [.gone ptr] else []
  | .invalidate ptr => [.gone ptr]
  | .setStatus .. => []

/-- Neither a swap nor a writeback writes past a lock, and no frame with a lock is given to
another block. -/
def Unlocked (g : Geometry) (t : Tags) (op : BlkOp) : Prop :=
  (∀ ptr ∈ op.overwritten g t, (t.blks ptr).lockList = []) ∧
    ∀ ptr ∈ op.taken g t, (t.blks ptr).lockList = []

instance (g : Geometry) (t : Tags) : DecidablePred (Unlocked g t) := fun op => by
  unfold Unlocked
  infer_instance

/-- The blocks, with the reservations next to them. -/
def step (cfg : Config) (s : Tags × Reservations) (op : BlkOp) : Tags × Reservations :=
  (op.apply cfg s.1, (op.events cfg.geom s.1).foldl LockEvent.record s.2)

end BlkOp

/-! ## Locks are backed by reservations -/

section

variable {cfg : Config} {g : Geometry} {t t' : Tags} {R R' : Reservations}

/-- Every lock on a block is a reservation for it. -/
def BackedAt (g : Geometry) (b : CacheBlk) (rs : List (Nat × Addr)) : Prop :=
  ∀ c ∈ b.lockList, (c, b.addr g) ∈ rs

def Backed (g : Geometry) (t : Tags) (R : Reservations) : Prop := ∀ ptr, BackedAt g (t.blks ptr) (R ptr)

/-- The same locks on the same blocks. -/
structure SameLocks (b b' : CacheBlk) : Prop where
  locks : b'.lockList = b.lockList
  tag : b'.tag = b.tag
  set : b'.set = b.set

theorem SameLocks.refl (b : CacheBlk) : SameLocks b b := ⟨rfl, rfl, rfl⟩

theorem SameLocks.trans {a b c : CacheBlk} (h : SameLocks a b) (h' : SameLocks b c) : SameLocks a c :=
  ⟨h'.locks.trans h.locks, h'.tag.trans h.tag, h'.set.trans h.set⟩

theorem SameLocks.addr {b b' : CacheBlk} (h : SameLocks b b') : b'.addr g = b.addr g := by
  rw [CacheBlk.addr, h.tag, h.set, CacheBlk.addr]

theorem BackedAt.congr {b b' : CacheBlk} {rs : List (Nat × Addr)} (h : BackedAt g b rs) (hs : SameLocks b b') :
    BackedAt g b' rs := by
  intro c hc
  rw [hs.locks] at hc
  rw [hs.addr]
  exact h c hc

theorem Backed.congr (h : Backed g t R) (hs : ∀ p, SameLocks (t.blks p) (t'.blks p)) : Backed g t' R :=
  fun p => (h p).congr (hs p)

/-- Only the frame at hand needs a reason. -/
theorem Backed.update (h : Backed g t R) {ptr : BlkPtr}
    (hs : ∀ p, p ≠ ptr → SameLocks (t.blks p) (t'.blks p)) (hR : ∀ p, p ≠ ptr → R' p = R p)
    (hptr : BackedAt g (t'.blks ptr) (R' ptr)) : Backed g t' R' := by
  intro p
  by_cases hp : p = ptr
  · rw [hp]
    exact hptr
  · rw [hR p hp]
    exact (h p).congr (hs p hp)

theorem backedAt_of_nil {b : CacheBlk} {rs : List (Nat × Addr)} (h : b.lockList = []) : BackedAt g b rs := by
  intro c hc
  rw [h] at hc
  cases hc

/-! ## What the functions do to the locks -/

theorem sameLocks_modify (t : Tags) {ptr : BlkPtr} {f : CacheBlk → CacheBlk}
    (hf : SameLocks (t.blks ptr) (f (t.blks ptr))) (p : BlkPtr) :
    SameLocks (t.blks p) ((t.modify ptr f).blks p) := by
  by_cases hp : p = ptr
  · subst hp
    rw [Tags.modify_self]
    exact hf
  · rw [Tags.modify_of_ne t hp]
    exact .refl _

theorem sameLocks_accessBlock (g : Geometry) (t : Tags) (now : Tick) (addr : Addr) (p : BlkPtr) :
    SameLocks (t.blks p) ((t.accessBlock g now addr).1.blks p) := by
  unfold Tags.accessBlock
  split
  · exact .refl _
  · rename_i ptr _
    have hmod := @sameLocks_modify (t.promote ptr) ptr
      (fun b => { b with refCount := b.refCount + 1 }) ⟨rfl, rfl, rfl⟩ p
    rwa [Tags.promote_blks] at hmod

theorem sameLocks_allocateBlock (g : Geometry) (t : Tags) (q : MshrQueue) (now : Tick) (addr : Addr)
    (p : BlkPtr) : SameLocks (t.blks p) ((allocateBlock g t q now addr).1.blks p) := by
  have hvictim : SameLocks (t.blks p) ((t.findVictim g addr).1.blks p) := by
    unfold Tags.findVictim
    dsimp only
    split
    · dsimp only
      generalize (t.blks (.frame (g.extractSet addr) _)).contextSrc = src
      apply sameLocks_modify (Tags.occupy g t src (-1))
      exact ⟨rfl, rfl, rfl⟩
    · exact .refl _
  unfold allocateBlock
  dsimp only
  split
  · split
    · exact hvictim
    · split
      · apply hvictim.trans
        dsimp only [writebackBlk]
        apply sameLocks_modify
        exact ⟨rfl, rfl, rfl⟩
      · exact hvictim
  · exact hvictim

/-- Satisfying a request leaves the other blocks alone. -/
theorem satisfy_other (g : Geometry) (t : Tags) {ptr p : BlkPtr} (pkt : Packet) (hp : p ≠ ptr) :
    (satisfyCpuSideRequest g t ptr pkt).1.blks p = t.blks p := by
  rw [satisfy_blks, Function.update_of_ne hp]

theorem satisfy_self (g : Geometry) (t : Tags) (ptr : BlkPtr) (pkt : Packet) :
    (satisfyCpuSideRequest g t ptr pkt).1.blks ptr = satisfiedBlk g pkt (t.blks ptr) := by
  rw [satisfy_blks, Function.update_self]

/-- The outcome of a store-conditional is whether its context has a lock. -/
theorem satisfy_success {pkt : Packet} (hswap : pkt.cmd ≠ .swapReq) (hw : pkt.cmd.isWrite = true)
    (hl : pkt.cmd.isLLSC = true) (ptr : BlkPtr) :
    ((satisfyCpuSideRequest g t ptr pkt).2.req.extraData == 1) =
      (t.blks ptr).lockList.any fun c => pkt.req.contextId == some c := by
  have hcheck : (((t.blks ptr).checkWrite pkt).2.1.req.extraData == 1) =
      (t.blks ptr).lockList.any fun c => pkt.req.contextId == some c := by
    simp only [CacheBlk.checkWrite, hl, if_true, Packet.setExtraData]
    cases (t.blks ptr).lockList.any fun c => pkt.req.contextId == some c <;> decide
  unfold satisfyCpuSideRequest
  simp only [hswap, hw, if_false, if_true]
  split <;> exact hcheck

theorem satisfiedBlk_swap {pkt : Packet} (hcmd : pkt.cmd = .swapReq) (b : CacheBlk) :
    SameLocks b (satisfiedBlk g pkt b) := by
  unfold satisfiedBlk
  dsimp only
  rw [if_pos hcmd]
  split <;> exact ⟨rfl, rfl, rfl⟩

theorem satisfiedBlk_write {pkt : Packet} (hswap : pkt.cmd ≠ .swapReq) (hw : pkt.cmd.isWrite = true)
    (b : CacheBlk) : (satisfiedBlk g pkt b).lockList = [] := by
  unfold satisfiedBlk
  dsimp only
  rw [if_neg hswap, if_pos hw]
  split <;> rfl

/-- A read that leaves the block there adds a lock if it is a load-locked. -/
theorem satisfiedBlk_read {pkt : Packet} (hswap : pkt.cmd ≠ .swapReq) (hw : ¬pkt.cmd.isWrite = true)
    (hr : pkt.cmd.isRead = true) (hkeep : ¬givesUp g pkt = true) (b : CacheBlk) :
    SameLocks (if pkt.cmd.isLLSC then b.trackLoadLocked pkt else b) (satisfiedBlk g pkt b) := by
  have hnot : ¬(pkt.size = g.blkSize ∧ pkt.cmd.needsExclusive = true) := by
    rintro ⟨hsize, hex⟩
    exact hkeep (by simp [givesUp, hswap, hw, hsize, hex])
  unfold satisfiedBlk
  dsimp only
  rw [if_neg hswap, if_neg hw, if_pos hr]
  by_cases hsize : pkt.size = g.blkSize
  · have hex : ¬pkt.cmd.needsExclusive = true := fun hex => hnot ⟨hsize, hex⟩
    rw [if_pos hsize, if_neg hex]
    exact ⟨rfl, rfl, rfl⟩
  · rw [if_neg hsize]
    exact .refl _

/-- A request keeps the locks backed, and a store-conditional that succeeds is warranted. -/
theorem request_backed (h : Backed g t R) (ptr : BlkPtr) (pkt : Packet)
    (hswap : swapWrites g (t.blks ptr) pkt = true → (t.blks ptr).lockList = []) :
    Backed g (satisfyCpuSideRequest g t ptr pkt).1 ((requestEvents g t ptr pkt).foldl LockEvent.record R) ∧
      Runs.Guarded LockEvent.record LockEvent.Warranted R (requestEvents g t ptr pkt) := by
  have hupdate : ∀ R' : Reservations, (∀ p, p ≠ ptr → R' p = R p) →
      BackedAt g (satisfiedBlk g pkt (t.blks ptr)) (R' ptr) →
      Backed g (satisfyCpuSideRequest g t ptr pkt).1 R' := by
    intro R' hR hptr
    refine h.update (fun p hp => ?_) hR ?_
    · rw [satisfy_other g t pkt hp]
      exact .refl _
    · rw [satisfy_self]
      exact hptr
  have hclear : ∀ p, p ≠ ptr → Function.update R ptr [] p = R p := fun p hp => Function.update_of_ne hp ..
  unfold requestEvents
  dsimp only
  by_cases hcmd : pkt.cmd = .swapReq
  · rw [if_pos hcmd]
    by_cases hwrites : swapWrites g (t.blks ptr) pkt = true
    · rw [if_pos hwrites]
      refine ⟨hupdate _ hclear (backedAt_of_nil ?_), trivial, trivial⟩
      rw [(satisfiedBlk_swap hcmd _).locks]
      exact hswap hwrites
    · rw [if_neg hwrites]
      exact ⟨hupdate R (fun _ _ => rfl) ((h ptr).congr (satisfiedBlk_swap hcmd _)), trivial⟩
  rw [if_neg hcmd]
  by_cases hw : pkt.cmd.isWrite = true
  · have hnil : ∀ rs, BackedAt g (satisfiedBlk g pkt (t.blks ptr)) rs :=
      fun rs => backedAt_of_nil (satisfiedBlk_write hcmd hw _)
    rw [if_pos hw]
    by_cases hl : pkt.cmd.isLLSC = true
    · rw [if_pos hl, satisfy_success hcmd hw hl]
      cases hany : (t.blks ptr).lockList.any fun c => pkt.req.contextId == some c with
      | false => exact ⟨hupdate R (fun _ _ => rfl) (hnil _), trivial, trivial⟩
      | true =>
        refine ⟨hupdate _ hclear (hnil _), ?_, trivial⟩
        obtain ⟨c, hc, hctx⟩ := List.any_eq_true.1 hany
        exact ⟨c, by simpa using hctx, h ptr c hc⟩
    · rw [if_neg hl]
      exact ⟨hupdate _ hclear (hnil _), trivial, trivial⟩
  rw [if_neg hw]
  by_cases hr : pkt.cmd.isRead = true
  · rw [if_pos hr]
    by_cases hgone : givesUp g pkt = true
    · rw [if_pos hgone]
      refine ⟨hupdate _ (fun p hp => ?_) (backedAt_of_nil (by rw [satisfiedBlk_gone hgone])), ?_⟩
      · cases pkt.req.contextId <;> split <;> simp [LockEvent.record, hp]
      · cases pkt.req.contextId <;> split <;> simp [Runs.Guarded, LockEvent.Warranted]
    · rw [if_neg hgone, List.append_nil]
      have hread := @satisfiedBlk_read g pkt hcmd hw hr hgone (t.blks ptr)
      by_cases hl : pkt.cmd.isLLSC = true
      · rw [if_pos hl] at hread ⊢
        have hkeep : ∀ rs, (∀ r ∈ R ptr, r ∈ rs) →
            (∀ c ∈ pkt.req.contextId, (c, (t.blks ptr).addr g) ∈ rs) →
            BackedAt g ((t.blks ptr).trackLoadLocked pkt) rs := by
          intro rs hold hnew c hc
          rcases List.mem_append.1 hc with hc | hc
          · exact hnew c (Option.mem_toList.1 hc)
          · exact hold _ (h ptr c hc)
        cases hctx : pkt.req.contextId with
        | none =>
          refine ⟨hupdate R (fun _ _ => rfl) (BackedAt.congr (hkeep _ (fun _ => id) ?_) hread), trivial⟩
          simp [hctx]
        | some c =>
          refine ⟨hupdate _ (fun p hp => ?_) (BackedAt.congr (hkeep _ ?_ ?_) hread), trivial, trivial⟩
          · exact Function.update_of_ne hp ..
          · intro r hr'
            simp [LockEvent.record, hr']
          · simp [LockEvent.record, hctx]
      · rw [if_neg hl] at hread ⊢
        exact ⟨hupdate R (fun _ _ => rfl) ((h ptr).congr hread), trivial⟩
  · rw [if_neg hr]
    have hgone : givesUp g pkt = true := by simp [givesUp, hcmd, hw, hr]
    exact ⟨hupdate _ hclear (backedAt_of_nil (by rw [satisfiedBlk_gone hgone])), trivial, trivial⟩

/-- A block is put into a frame: the other frames keep their locks, and so does this one. -/
structure Reuses (t t' : Tags) (ptr : BlkPtr) : Prop where
  other : ∀ p, p ≠ ptr → SameLocks (t.blks p) (t'.blks p)
  locks : (t'.blks ptr).lockList = (t.blks ptr).lockList

theorem Reuses.modify {ptr : BlkPtr} (h : Reuses t t' ptr) {f : CacheBlk → CacheBlk}
    (hf : (f (t'.blks ptr)).lockList = (t'.blks ptr).lockList) : Reuses t (t'.modify ptr f) ptr where
  other p hp := by
    rw [Tags.modify_of_ne t' hp]
    exact h.other p hp
  locks := by rw [Tags.modify_self, hf, h.locks]

theorem Reuses.acceptWriteback {ptr : BlkPtr} (h : Reuses t t' ptr) (pkt : Packet) :
    Reuses t (acceptWriteback t' ptr pkt) ptr := by
  unfold PrefetchSim.acceptWriteback
  apply h.modify
  rfl

/-- An insertion changes the tag of its frame, and leaves the locks there. -/
theorem reuses_insertBlock {ptr : BlkPtr} (h : ∀ p, SameLocks (t.blks p) (t'.blks p)) (addr : Addr)
    (src : Option Nat) : Reuses t (t'.insertBlock g addr ptr src) ptr := by
  refine ⟨fun p hp => ?_, ?_⟩
  · rw [Tags.insertBlock_blks, Function.update_of_ne hp]
    exact h p
  · rw [Tags.insertBlock_blks, Function.update_self, ← (h ptr).locks]

/-- With no lock in the frame, the reservations for what it held can go. -/
theorem Backed.reuse (h : Backed g t R) {ptr : BlkPtr} (hr : Reuses t t' ptr)
    (hnil : (t.blks ptr).lockList = []) : Backed g t' (LockEvent.record R (.gone ptr)) := by
  refine h.update hr.other (fun p hp => Function.update_of_ne hp ..) (backedAt_of_nil ?_)
  rw [hr.locks, hnil]

theorem Backed.invalidate (h : Backed g t R) (ptr : BlkPtr) :
    Backed g (t.invalidateBlk g ptr) (LockEvent.record R (.gone ptr)) := by
  refine h.update (fun p hp => ?_) (fun p hp => Function.update_of_ne hp ..) (backedAt_of_nil ?_)
  · rw [Tags.invalidateBlk_blks, Function.update_of_ne hp]
    exact .refl _
  · rw [Tags.invalidateBlk_blks, Function.update_self]

theorem handleFill_found (g : Geometry) (t : Tags) (q : MshrQueue) (now : Tick) (pkt : Packet)
    (ptr p : BlkPtr) : SameLocks (t.blks p) ((handleFill g t q now pkt (some ptr)).1.blks p) := by
  unfold handleFill
  dsimp only
  apply sameLocks_modify
  exact ⟨rfl, rfl, rfl⟩

theorem handleFill_reuses (g : Geometry) (t : Tags) (q : MshrQueue) (now : Tick) (pkt : Packet) :
    Reuses t (handleFill g t q now pkt none).1 ((allocateBlock g t q now pkt.addr).2.1.getD .temp) := by
  have halloc := sameLocks_allocateBlock g t q now pkt.addr
  unfold handleFill
  generalize allocateBlock g t q now pkt.addr = a at halloc ⊢
  obtain ⟨t₁, _ | ptr, wbs⟩ := a
  · have htemp : Reuses t t₁ .temp := ⟨fun p _ => halloc p, (halloc .temp).locks⟩
    dsimp only
    apply Reuses.modify
    · apply htemp.modify
      rfl
    · rfl
  · dsimp only
    apply (reuses_insertBlock halloc pkt.addr pkt.req.contextId).modify
    rfl

theorem fill_backed (h : Backed cfg.geom t R) (q : MshrQueue) (now : Tick) (pkt : Packet)
    (hu : (BlkOp.fill q now pkt).Unlocked cfg.geom t) :
    Backed cfg.geom ((BlkOp.fill q now pkt).apply cfg t)
        (((BlkOp.fill q now pkt).events cfg.geom t).foldl LockEvent.record R) ∧
      Runs.Guarded LockEvent.record LockEvent.Warranted R ((BlkOp.fill q now pkt).events cfg.geom t) := by
  have hfree := hu.2
  unfold BlkOp.taken at hfree
  unfold BlkOp.apply BlkOp.events BlkOp.taken
  dsimp only at hfree ⊢
  cases hfind : t.findBlock cfg.geom pkt.addr with
  | some ptr =>
    rw [if_neg (by simp)]
    exact ⟨h.congr (handleFill_found cfg.geom t q now pkt ptr), trivial⟩
  | none =>
    rw [hfind] at hfree
    exact ⟨h.reuse (handleFill_reuses cfg.geom t q now pkt) (hfree _ rfl), trivial, trivial⟩

theorem access_backed (h : Backed cfg.geom t R) (q : MshrQueue) (now : Tick) (pkt : Packet)
    (hu : (BlkOp.access q now pkt).Unlocked cfg.geom t) :
    Backed cfg.geom ((BlkOp.access q now pkt).apply cfg t)
        (((BlkOp.access q now pkt).events cfg.geom t).foldl LockEvent.record R) ∧
      Runs.Guarded LockEvent.record LockEvent.Warranted R ((BlkOp.access q now pkt).events cfg.geom t) := by
  obtain ⟨hwrite, hfree⟩ := hu
  have hfound := t.accessBlock_found cfg.geom now pkt.addr
  have hquiet := t.accessBlock_quiet cfg.geom now pkt.addr
  have hsame := sameLocks_accessBlock cfg.geom t now pkt.addr
  unfold BlkOp.overwritten at hwrite
  unfold BlkOp.taken at hfree
  unfold BlkOp.apply BlkOp.events BlkOp.taken access
  dsimp only at hwrite hfree ⊢
  rw [← hfound] at hwrite hfree ⊢
  generalize t.accessBlock cfg.geom now pkt.addr = acc at hfound hquiet hsame hwrite hfree ⊢
  obtain ⟨t₁, lat, _ | ptr⟩ := acc <;> dsimp only at hquiet hsame
  · have h₁ := h.congr hsame
    dsimp only at hfree ⊢
    by_cases hcmd : pkt.cmd = .writeback
    · rw [if_pos hcmd]
      rw [if_pos (by simp [hcmd])] at hfree ⊢
      have halloc := sameLocks_allocateBlock cfg.geom t₁ q now pkt.addr
      generalize allocateBlock cfg.geom t₁ q now pkt.addr = a at halloc hfree ⊢
      obtain ⟨t₂, _ | ptr, wbs⟩ := a
      · exact ⟨h₁.congr halloc, trivial⟩
      · dsimp only at hfree ⊢
        refine ⟨?_, trivial, trivial⟩
        have hnil : (t₁.blks ptr).lockList = [] := by rw [(hsame ptr).locks, hfree ptr rfl]
        refine h₁.reuse (Reuses.acceptWriteback (Reuses.modify ?_ ?_) pkt) hnil
        · exact reuses_insertBlock halloc pkt.addr pkt.req.contextId
        · rfl
    · have hnot : ¬((none : Option BlkPtr).isNone && pkt.cmd == .writeback) = true := by simp [hcmd]
      rw [if_neg hcmd, if_neg hnot]
      split <;> exact ⟨h₁, trivial⟩
  · have h₁ := h.congr hsame
    have hperm : permits pkt (t.blks ptr) = permits pkt (t₁.blks ptr) := by
      simp only [permits, CacheBlk.isWritable, CacheBlk.isReadable, hquiet.status]
    have hswap : swapWrites cfg.geom (t.blks ptr) pkt = swapWrites cfg.geom (t₁.blks ptr) pkt := by
      simp only [swapWrites, hquiet.data]
    dsimp only at hwrite ⊢
    simp only [Option.mem_def, Option.filter_eq_some_iff, Option.some.injEq] at hwrite
    by_cases hp : permits pkt (t₁.blks ptr) = true
    · rw [if_pos hp, if_pos hp]
      apply request_backed h₁ ptr pkt
      intro hsw
      rw [(hsame ptr).locks]
      exact hwrite ptr ⟨rfl, by simp [hperm, hp, hswap, hsw]⟩
    · rw [if_neg hp, if_neg hp]
      by_cases hcmd : pkt.cmd = .writeback
      · rw [if_pos hcmd, if_pos hcmd]
        have hnil : (t₁.blks ptr).lockList = [] := by
          rw [(hsame ptr).locks]
          exact hwrite ptr ⟨rfl, by simp [hperm, hp, hcmd]⟩
        refine ⟨h₁.reuse ?_ hnil, trivial, trivial⟩
        have hself : Reuses t₁ t₁ ptr := ⟨fun p _ => .refl _, rfl⟩
        exact hself.acceptWriteback pkt
      · rw [if_neg hcmd, if_neg hcmd]
        exact ⟨h₁, trivial⟩

/-- What a snoop does to the tags does not depend on the port, the time or the answer. -/
theorem snoop_backed (h : Backed cfg.geom t R) (ptr : BlkPtr) (pkt : Packet) :
    Backed cfg.geom ((BlkOp.snoop ptr pkt).apply cfg t)
        (((BlkOp.snoop ptr pkt).events cfg.geom t).foldl LockEvent.record R) ∧
      Runs.Guarded LockEvent.record LockEvent.Warranted R ((BlkOp.snoop ptr pkt).events cfg.geom t) := by
  unfold BlkOp.apply BlkOp.events
  dsimp only
  rw [handleSnoop_tags]
  by_cases hv : (t.blks ptr).isValid = true
  · rw [if_pos hv, hv, Bool.true_and]
    dsimp only
    generalize hshare : (if (pkt.cmd.isRead && !pkt.cmd.isInvalidate) = true then t.modify ptr fun b =>
      { b with status := { b.status with writable := false } } else t) = t₁
    have h₁ : Backed cfg.geom t₁ R := by
      rw [← hshare]
      split
      · apply h.congr
        apply sameLocks_modify
        exact ⟨rfl, rfl, rfl⟩
      · exact h
    split
    · exact ⟨h₁.invalidate ptr, trivial, trivial⟩
    · exact ⟨h₁, trivial⟩
  · rw [if_neg hv, if_neg (by simp [hv])]
    exact ⟨h, trivial⟩

/-- One operation. -/
theorem BlkOp.backed (h : Backed cfg.geom t R) {op : BlkOp} (hu : op.Unlocked cfg.geom t) :
    Backed cfg.geom (op.apply cfg t) ((op.events cfg.geom t).foldl LockEvent.record R) ∧
      Runs.Guarded LockEvent.record LockEvent.Warranted R (op.events cfg.geom t) := by
  cases op with
  | access q now pkt => exact access_backed h q now pkt hu
  | fill q now pkt => exact fill_backed h q now pkt hu
  | snoop ptr pkt => exact snoop_backed h ptr pkt
  | invalidate ptr => exact ⟨h.invalidate ptr, trivial, trivial⟩
  | setStatus ptr status =>
    refine ⟨h.congr ?_, trivial⟩
    dsimp only [BlkOp.apply]
    apply sameLocks_modify
    exact ⟨rfl, rfl, rfl⟩
  | serve ptr pkt =>
    apply request_backed h ptr pkt
    intro hsw
    apply hu.1 ptr
    simp [BlkOp.overwritten, hsw]

end

/-! ## Runs -/

/-- A cache as it is built, with no reservations. -/
def noReservations (g : Geometry) : Tags × Reservations := (Tags.initial g, fun _ => [])

/-- Every store-conditional that the operation lets succeed is warranted. -/
def BlkOp.Warranted (g : Geometry) (s : Tags × Reservations) (op : BlkOp) : Prop :=
  Runs.Guarded LockEvent.record LockEvent.Warranted s.2 (op.events g s.1)

instance (g : Geometry) (s : Tags × Reservations) : DecidablePred (BlkOp.Warranted g s) := fun op =>
  inferInstanceAs (Decidable (Runs.Guarded LockEvent.record LockEvent.Warranted s.2 (op.events g s.1)))

theorem store_conditional_warranted (cfg : Config) (ops : List BlkOp)
    (h : Runs.Guarded (BlkOp.step cfg) (fun s op => op.Unlocked cfg.geom s.1) (noReservations cfg.geom) ops) :
    Runs.Guarded (BlkOp.step cfg) (BlkOp.Warranted cfg.geom) (noReservations cfg.geom) ops := by
  have hempty : Backed cfg.geom (noReservations cfg.geom).1 (noReservations cfg.geom).2 := by
    intro ptr
    cases ptr <;> exact backedAt_of_nil rfl
  apply Runs.guarded_of_invariant (I := fun s => Backed cfg.geom s.1 s.2) ?_ ?_ ops _ hempty h
  · intro s op hs hu
    exact (BlkOp.backed hs hu).1
  · intro s op hs hu
    exact (BlkOp.backed hs hu).2

/-- Eight bytes, by one of the contexts. -/
def wordRequest (cmd : MemCmd) (context : Nat) (addr : Addr) : BlkOp :=
  .access (MshrQueue.create 2 4) 0 { Packet.ofRequest
    { paddr := addr, size := 8, contextId := some context } cmd 0 with data := List.replicate 8 1 }

/-- The block arrives and is not shared. -/
def blockArrives (addr : Addr) : BlkOp :=
  .fill (MshrQueue.create 2 4) 0 { Packet.ofRequest { paddr := addr, size := 64 } .readExResp 0 with
    data := List.replicate 64 0 }

theorem store_conditional_warranted_retry :
    let ops := [blockArrives 4096, wordRequest .loadLockedReq 0 4096, wordRequest .writeReq 1 4104,
      wordRequest .storeCondReq 0 4096, wordRequest .loadLockedReq 0 4096, wordRequest .storeCondReq 0 4096]
    Runs.Guarded (BlkOp.step (smallConfig 2)) (BlkOp.Warranted smallGeometry) (noReservations smallGeometry) ops :=
  store_conditional_warranted (smallConfig 2) _ (by decide +kernel)

/-- A swap by another context slips between the two halves; and a frame takes its lock
along to the next block. -/
theorem store_conditional_unwarranted :
    let swapped := [blockArrives 4096, wordRequest .loadLockedReq 0 4096, wordRequest .swapReq 1 4096,
      wordRequest .storeCondReq 0 4096]
    let reused := [blockArrives 4096, wordRequest .loadLockedReq 0 4096, blockArrives 4224,
      blockArrives 4352, wordRequest .storeCondReq 0 4352]
    ¬Runs.Guarded (BlkOp.step (smallConfig 2)) (BlkOp.Warranted smallGeometry) (noReservations smallGeometry)
        swapped ∧
      ¬Runs.Guarded (BlkOp.step (smallConfig 2)) (BlkOp.Warranted smallGeometry) (noReservations smallGeometry)
        reused := by
  decide +kernel

/-! ## The timing cache -/

/-- `t'` comes from `t` by operations on the blocks. -/
def BlkOps (cfg : Config) (t t' : Tags) : Prop := ∃ ops, Runs.exec (BlkOp.apply cfg) t ops = t'

namespace BlkOps

variable {cfg : Config} {t t' t'' : Tags}

theorem refl (t : Tags) : BlkOps cfg t t := ⟨[], rfl⟩

theorem one (op : BlkOp) : BlkOps cfg t (op.apply cfg t) := ⟨[op], rfl⟩

theorem trans (h : BlkOps cfg t t') (h' : BlkOps cfg t' t'') : BlkOps cfg t t'' := by
  obtain ⟨ops, rfl⟩ := h
  obtain ⟨ops', rfl⟩ := h'
  exact ⟨ops ++ ops', Runs.exec_append t ops ops'⟩

theorem status (ptr : BlkPtr) (f : Status → Status) (hf : ∀ st, (f st).valid = st.valid) :
    BlkOps cfg t (t.modify ptr fun b => { b with status := f b.status }) := by
  have hvalid : { f (t.blks ptr).status with valid := (t.blks ptr).isValid } = f (t.blks ptr).status := by
    rw [CacheBlk.isValid, ← hf]
  refine ⟨[.setStatus ptr (f (t.blks ptr).status)], ?_⟩
  simp only [Runs.exec_cons, Runs.exec_nil, BlkOp.apply, Tags.modify, hvalid]

theorem stays (t : Tags) : Cache.Stays cfg (BlkOps cfg t) where
  status ptr f hf h := h.trans (.status ptr f fun st => (hf st).1)
  invalidate ptr h := h.trans (.one (.invalidate ptr))

end BlkOps

theorem serviceTarget_blkOps {σ : Type} (cfg : Config) (P : Policy σ) (a : Answer) (s : Service σ)
    (target : Target) : BlkOps cfg s.tags (serviceTarget cfg P a s target).tags := by
  unfold serviceTarget
  split
  · dsimp only [serviceCpu]
    split
    · cases a.blk with
      | some ptr => exact .one (.serve ptr target.pkt)
      | none => exact .refl _
    · split <;> exact .refl _
  · split
    · exact .status _ (fun st => { st with hwPrefetched := true }) fun _ => rfl
    · exact .refl _
  · exact (BlkOps.stays _).handleSnoop (.refl _) ..

theorem serviceTargets_blkOps {σ : Type} (cfg : Config) (P : Policy σ) (a : Answer) (ts : List Target)
    (s : Service σ) : BlkOps cfg s.tags (ts.foldl (serviceTarget cfg P a) s).tags := by
  induction ts generalizing s with
  | nil => exact .refl _
  | cons target ts ih => exact (serviceTarget_blkOps cfg P a s target).trans (ih _)

namespace Cache

variable {σ : Type} {cfg : Config} {P : Policy σ}

theorem hitPath_blkOps (r : AccessResult) (time : Tick) (s : Cache σ) :
    BlkOps cfg s.tags (s.hitPath cfg P r time).tags := by
  rw [hitPath_tags]
  split
  · split
    · exact .status _ (fun st => { st with hwPrefetched := false }) fun _ => rfl
    · exact .refl _
  · exact .refl _

theorem cpuRecvTiming_blkOps (pkt : Packet) (s : Cache σ) :
    BlkOps cfg s.tags (s.cpuRecvTiming cfg P pkt).tags := by
  rw [cpuRecvTiming_tags]
  cases hmade : s.accessOf cfg pkt with
  | none => exact .refl _
  | some r =>
    have haccess : BlkOps cfg s.tags r.tags := by
      rw [accessOf_eq hmade]
      exact .one (.access s.mshrQueue s.curTick pkt)
    dsimp only
    split
    · exact haccess.trans (hitPath_blkOps _ _ { s with tags := r.tags })
    · exact (BlkOps.stays _).missPath (s := { s with tags := r.tags }) haccess ..

theorem fill_blkOps (m : MshrRef) (pkt : Packet) (isFill : Bool) (s : Cache σ) :
    BlkOps cfg s.tags (s.fill cfg m pkt isFill).1.tags := by
  unfold fill
  dsimp only
  split
  · have haddr : ((s.register m).handleFill pkt).2.addr = pkt.addr := by
      unfold Mshr.handleFill
      dsimp only
      split <;> rfl
    rw [← haddr]
    exact .one (.fill s.mshrQueue s.curTick ((s.register m).handleFill pkt).2)
  · exact .refl _

theorem answer_blkOps (m : MshrRef) (pkt : Packet) (upward : Nat → SnoopAnswer) (s : Cache σ) :
    BlkOps cfg s.tags (s.answer cfg P m pkt upward).1.tags := by
  have hserve : ∀ a (c : Cache σ), BlkOps cfg c.tags (c.serviceTargets cfg P m a).tags := by
    intro a c
    exact serviceTargets_blkOps cfg P a (c.register m).targets.list
      { tags := c.tags, prefetcher := c.prefetcher
        cpuSidePort := c.cpuSidePort, memSidePort := c.memSidePort }
  have hfill := @fill_blkOps σ cfg m pkt (s.isFill m pkt) s
  unfold answer answerOf
  dsimp only
  exact (BlkOps.stays _).retire (hfill.trans (hserve _ _)) ..

theorem handleResponse_blkOps (m : MshrRef) (pkt : Packet) (upward : Nat → SnoopAnswer) (s : Cache σ) :
    BlkOps cfg s.tags (s.handleResponse cfg P m pkt upward).tags := by
  unfold handleResponse
  dsimp only
  split
  · exact .refl _
  · have hanswer := @answer_blkOps σ cfg P m pkt upward (s.clearNoTarget m)
    have hwritebacks := copyWritebacks_tags ((s.clearNoTarget m).answer cfg P m pkt upward).2.2
      (s.curTick + cfg.geom.hitLatency) ((s.clearNoTarget m).answer cfg P m pkt upward).1
    rw [clearNoTarget_tags, ← hwritebacks] at hanswer
    exact (BlkOps.stays _).clearTemp hanswer ..

theorem sendPacket_blkOps (accept : Bool) (upward : Nat → SnoopAnswer) (s : Cache σ) :
    BlkOps cfg s.tags (s.sendPacket cfg P accept upward).tags := by
  rcases sendPacket_tags cfg P accept upward s with heq | ⟨c, m, target, pkt, hnext, -, -, -, heq⟩
  · rw [heq]
    exact .refl _
  · have htags := getNextMSHR_tags cfg s
    rw [hnext] at htags
    rw [heq, ← htags]
    exact handleResponse_blkOps m pkt upward c

/-- The timing cache does nothing else to its blocks. -/
theorem step_blkOps (cfg : Config) (P : Policy σ) (s : Cache σ) (a : Action) :
    BlkOps cfg s.tags (s.step cfg P a).tags := by
  cases a with
  | tick n => exact .refl _
  | cpuPacket pkt => exact cpuRecvTiming_blkOps pkt s
  | response m pkt upward => exact handleResponse_blkOps m pkt upward s
  | snoop pkt answer => exact (BlkOps.stays _).snoopTiming (.refl _) ..
  | sendPacket accept upward => exact sendPacket_blkOps accept upward s
  | cpuSend => exact .refl _
  | downstream m pending =>
    rw [step, setRegister, setQueue_tags]
    exact .refl _

end Cache

end PrefetchSim
