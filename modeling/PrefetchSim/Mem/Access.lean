import PrefetchSim.Mem.Lru
import PrefetchSim.Mem.MshrQueue

/- What the cache does to its blocks (`m5/src/mem/cache/cache_impl.hh`): the
   functions that change the tag store and the packet at hand, and nothing else
   of the cache.

   Correspondence (C++ ↔ Lean):
     `cmpAndSwap`, `satisfyCpuSideRequest`  ↔ `cmpAndSwap`, `satisfyCpuSideRequest`
     `writebackBlk`, `allocateBlock`        ↔ `writebackBlk`, `allocateBlock`
     `Cache::access`                        ↔ `access`
     `Cache::handleFill`                    ↔ `handleFill`
     `getBusPacket`                         ↔ `getBusPacket`

   An assertion of the source is not a branch here: past a failed one the
   functions compute what the code does in a build without assertions. -/
namespace PrefetchSim

/-- The bytes of a number in the host's (little-endian) order. -/
def littleEndian (n : Nat) (v : BitVec 64) : List UInt8 :=
  (List.range n).map fun i => UInt8.ofNat (v.toNat >>> (8 * i))

/-- Swap, conditional on the request's extra data if it asks for that. -/
def cmpAndSwap (g : Geometry) (t : Tags) (ptr : BlkPtr) (pkt : Packet) : Tags × Packet :=
  let offset := g.extractBlkOffset pkt.addr
  let blkData := (t.blks ptr).data.drop offset
  let overwriteVal := pkt.data.take pkt.size
  let overwriteMem := !pkt.req.condSwap ||
    decide (blkData.take pkt.size = littleEndian pkt.size pkt.req.extraData)
  (if overwriteMem then
      t.modify ptr fun b => { b with
        data := memcpyAt b.data offset overwriteVal
        status := { b.status with dirty := true } }
    else t,
    pkt.setData blkData)

def satisfyCpuSideRequest (g : Geometry) (t : Tags) (ptr : BlkPtr) (pkt : Packet) : Tags × Packet :=
  if pkt.cmd = .swapReq then cmpAndSwap g t ptr pkt
  else if pkt.cmd.isWrite then
    let r := (t.blks ptr).checkWrite pkt
    if r.2.2 then
      (t.modify ptr fun _ => { r.1 with
        data := pkt.writeDataToBlock r.1.data g.blkSize
        status := { r.1.status with dirty := true } }, r.2.1)
    else (t.modify ptr fun _ => r.1, r.2.1)
  else if pkt.cmd.isRead then
    let t := if pkt.cmd.isLLSC then t.modify ptr fun b => b.trackLoadLocked pkt else t
    let pkt := pkt.setDataFromBlock (t.blks ptr).data g.blkSize
    if pkt.size = g.blkSize then
      -- coherent block requests of the caches above
      if pkt.cmd.needsExclusive then (t.invalidateBlk g ptr, pkt)
      else (t.modify ptr fun b => { b with status := { b.status with writable := false } },
        { pkt with shared := true })
    else (t, pkt)
  else (t.invalidateBlk g ptr, pkt)

/-- The packet that takes the contents of a block to the next level. -/
def writebackPacket (g : Geometry) (now : Tick) (blk : CacheBlk) : Packet :=
  let req : Request := { paddr := g.regenerateBlkAddr blk.tag blk.set, size := g.blkSize }
  { Packet.ofRequest req .writeback now with data := blk.data }

/-- The writeback of a dirty block, which is clean afterwards. -/
def writebackBlk (g : Geometry) (t : Tags) (now : Tick) (ptr : BlkPtr) : Tags × Packet :=
  (t.modify ptr fun b => { b with status := { b.status with dirty := false } },
    writebackPacket g now (t.blks ptr))

/-- A frame for a new block, unless the victim has an outstanding miss. -/
def allocateBlock (g : Geometry) (t : Tags) (mshrQueue : MshrQueue) (now : Tick) (addr : Addr) :
    Tags × Option BlkPtr × List Packet :=
  let v := t.findVictim g addr
  let blk := v.1.blks v.2
  if blk.isValid then
    if (mshrQueue.findMatch (g.regenerateBlkAddr blk.tag blk.set)).isSome then (v.1, none, [])
    else if blk.isDirty then
      let w := writebackBlk g v.1 now v.2
      (w.1, some v.2, [w.2])
    else (v.1, some v.2, [])
  else (v.1, some v.2, [])

/-- What `access` returns and leaves in its reference parameters. -/
structure AccessResult where
  tags : Tags
  pkt : Packet
  blk : Option BlkPtr
  lat : Nat
  writebacks : List Packet := []
  satisfied : Bool

/-- Whether the block's permissions allow the request. -/
def permits (pkt : Packet) (b : CacheBlk) : Bool :=
  if pkt.cmd.needsExclusive then b.isWritable else b.isReadable

/-- The data of a writeback goes into the block whatever its permissions are. -/
def acceptWriteback (t : Tags) (ptr : BlkPtr) (pkt : Packet) : Tags :=
  t.modify ptr fun b => { b with data := pkt.data, status := { b.status with dirty := true } }

/-- `access` for a cacheable request. -/
def access (g : Geometry) (t : Tags) (mshrQueue : MshrQueue) (now : Tick) (pkt : Packet) :
    AccessResult :=
  let (t, lat, blk) := t.accessBlock g now pkt.addr
  match blk with
  | some ptr =>
    if permits pkt (t.blks ptr) then
      let r := satisfyCpuSideRequest g t ptr pkt
      { tags := r.1, pkt := r.2, blk := some ptr, lat, satisfied := true }
    else if pkt.cmd = .writeback then
      { tags := acceptWriteback t ptr pkt, pkt, blk := some ptr, lat, satisfied := true }
    else { tags := t, pkt, blk := some ptr, lat, satisfied := false }
  | none =>
    if pkt.cmd = .writeback then
      match allocateBlock g t mshrQueue now pkt.addr with
      | (t, none, wbs) => { tags := t, pkt, blk := none, lat, writebacks := wbs, satisfied := false }
      | (t, some ptr, wbs) =>
        let t := (t.insertBlock g pkt.addr ptr pkt.req.contextId).modify ptr fun b =>
          { b with status := { valid := true, readable := true } }
        { tags := acceptWriteback t ptr pkt, pkt, blk := some ptr, lat, writebacks := wbs
          satisfied := true }
    else if pkt.cmd.isLLSC && pkt.cmd.isWrite then
      -- a store conditional that misses completely has failed
      { tags := t, pkt := pkt.setExtraData 0, blk := none, lat, satisfied := true }
    else { tags := t, pkt, blk := none, lat, satisfied := false }

/-- The status of a block after a fill. -/
def fillStatus (pkt : Packet) : Status :=
  { valid := true, readable := true, writable := !pkt.shared, dirty := !pkt.shared && pkt.memInhibit }

/-- `handleFill`: the block that took the response, a new frame or the
temporary block if there was none, and the writebacks this caused. -/
def handleFill (g : Geometry) (t : Tags) (mshrQueue : MshrQueue) (now : Tick) (pkt : Packet)
    (blk : Option BlkPtr) : Tags × BlkPtr × List Packet :=
  let (t, ptr, wbs) :=
    match blk with
    | some ptr => (t, ptr, [])
    | none =>
      match allocateBlock g t mshrQueue now pkt.addr with
      | (t, none, wbs) =>
        (t.modify .temp fun b =>
          { b with set := g.extractSet pkt.addr, tag := g.extractTag pkt.addr }, .temp, wbs)
      | (t, some ptr, wbs) => (t.insertBlock g pkt.addr ptr pkt.req.contextId, ptr, wbs)
  (t.modify ptr fun b => { b with
      status := fillStatus pkt
      data := if pkt.cmd.isRead then pkt.data else b.data
      whenReady := pkt.finishTime }, ptr, wbs)

/-- The packet for the bus; `none` where the request itself is forwarded. -/
def getBusPacket (g : Geometry) (now : Tick) (cpuPkt : Packet) (blk : Option CacheBlk)
    (needsExclusive : Bool) : Option Packet :=
  let blkValid := blk.any CacheBlk.isValid
  if cpuPkt.req.uncacheable then none
  else if !blkValid && (cpuPkt.cmd == .writeback || cpuPkt.cmd.isUpgrade) then none
  else
    let cmd :=
      if blkValid then if cpuPkt.cmd.isLLSC then MemCmd.scUpgradeReq else MemCmd.upgradeReq
      else if needsExclusive then MemCmd.readExReq else MemCmd.readReq
    some { cmd, req := cpuPkt.req, addr := g.blockAlign cpuPkt.req.paddr, size := g.blkSize
           time := now }

/-! ## What these functions do to the lookups -/

/-- The requests that make the cache give up its copy: an exclusive read of a
whole block, and whatever is neither a read nor a write. -/
def givesUp (g : Geometry) (pkt : Packet) : Bool :=
  pkt.cmd != .swapReq && !pkt.cmd.isWrite &&
    (!pkt.cmd.isRead || (pkt.size == g.blkSize && pkt.cmd.needsExclusive))

theorem inert_writeback (pkt : Packet) (t : Tags) (ptr : BlkPtr) : t.Inert ptr fun b =>
    { b with data := pkt.data, status := { b.status with dirty := true } } :=
  .inr ⟨rfl, rfl, rfl⟩

theorem inert_status (f : Status → Status) (hf : ∀ st, (f st).valid = st.valid) (t : Tags)
    (ptr : BlkPtr) : t.Inert ptr fun b => { b with status := f b.status } :=
  .inr ⟨rfl, rfl, hf _⟩

theorem checkWrite_fields (b : CacheBlk) (pkt : Packet) :
    (b.checkWrite pkt).1 = { b with lockList := [] } := by
  unfold CacheBlk.checkWrite
  split <;> rfl

theorem modify_id (t : Tags) (ptr : BlkPtr) : t.modify ptr id = t := by simp [Tags.modify]

/-- `satisfyCpuSideRequest` makes a plain write to the block and, for the
requests it gives the block up to, invalidates it. -/
theorem satisfy_tags (g : Geometry) (t : Tags) (ptr : BlkPtr) (pkt : Packet) :
    ∃ f, Tags.Plain f ∧ (satisfyCpuSideRequest g t ptr pkt).1 =
      if givesUp g pkt then (t.modify ptr f).invalidateBlk g ptr else t.modify ptr f := by
  have plain_id : Tags.Plain id := ⟨fun _ => rfl, fun _ => rfl, fun _ => rfl, fun _ => rfl, fun _ => rfl⟩
  unfold satisfyCpuSideRequest givesUp
  by_cases hswap : pkt.cmd = .swapReq
  · simp only [hswap, if_true, bne_self_eq_false, Bool.false_and, Bool.false_eq_true, if_false,
      cmpAndSwap]
    split
    · refine ⟨_, ?_, rfl⟩
      exact ⟨fun _ => rfl, fun _ => rfl, fun _ => rfl, fun _ => rfl, fun _ => rfl⟩
    · exact ⟨id, plain_id, (modify_id t ptr).symm⟩
  by_cases hw : pkt.cmd.isWrite = true
  · simp only [hswap, hw, if_true, if_false, Bool.not_true, Bool.and_false, Bool.false_and,
      Bool.false_eq_true, checkWrite_fields]
    split
    · refine ⟨fun b => { b with
        lockList := [], data := pkt.writeDataToBlock b.data g.blkSize
        status := { b.status with dirty := true } }, ?_, rfl⟩
      exact ⟨fun _ => rfl, fun _ => rfl, fun _ => rfl, fun _ => rfl, fun _ => rfl⟩
    · refine ⟨fun b => { b with lockList := [] }, ?_, rfl⟩
      exact ⟨fun _ => rfl, fun _ => rfl, fun _ => rfl, fun _ => rfl, fun _ => rfl⟩
  by_cases hr : pkt.cmd.isRead = true
  · -- a load-lock is tracked first, and that is a plain write too
    obtain ⟨f, hf, htrack⟩ : ∃ f : CacheBlk → CacheBlk, Tags.Plain f ∧
        (if pkt.cmd.isLLSC then t.modify ptr fun b => b.trackLoadLocked pkt else t) =
          t.modify ptr f := by
      split
      · exact ⟨fun b => b.trackLoadLocked pkt,
          ⟨fun _ => rfl, fun _ => rfl, fun _ => rfl, fun _ => rfl, fun _ => rfl⟩, rfl⟩
      · exact ⟨id, plain_id, (modify_id t ptr).symm⟩
    simp only [hswap, hw, hr, if_true, if_false, htrack, Packet.setDataFromBlock, Packet.setData]
    by_cases hsize : pkt.size = g.blkSize <;> by_cases hex : pkt.cmd.needsExclusive = true
    · exact ⟨f, hf, by simp [hsize, hex, hswap]⟩
    · refine ⟨fun b => { f b with status := { (f b).status with writable := false } },
        ⟨hf.tag, hf.set, hf.valid, hf.touched, hf.source⟩, ?_⟩
      simp [hsize, hex, Tags.modify]
    · exact ⟨f, hf, by simp [hsize]⟩
    · exact ⟨f, hf, by simp [hsize]⟩
  · exact ⟨id, plain_id, by simp [hswap, hw, hr, modify_id]⟩

/-- The block a request has been satisfied from. -/
def satisfiedBlk (g : Geometry) (pkt : Packet) (b : CacheBlk) : CacheBlk :=
  let gone := { b with status := {}, isTouched := false, lockList := [], contextSrc := none }
  if pkt.cmd = .swapReq then
    let offset := g.extractBlkOffset pkt.addr
    if !pkt.req.condSwap ||
        decide ((b.data.drop offset).take pkt.size = littleEndian pkt.size pkt.req.extraData) then
      { b with data := memcpyAt b.data offset (pkt.data.take pkt.size)
               status := { b.status with dirty := true } }
    else b
  else if pkt.cmd.isWrite then
    if (b.checkWrite pkt).2.2 then
      { b with lockList := [], data := pkt.writeDataToBlock b.data g.blkSize
               status := { b.status with dirty := true } }
    else { b with lockList := [] }
  else if pkt.cmd.isRead then
    let b := if pkt.cmd.isLLSC then b.trackLoadLocked pkt else b
    if pkt.size = g.blkSize then
      if pkt.cmd.needsExclusive then gone
      else { b with status := { b.status with writable := false } }
    else b
  else gone

theorem satisfiedBlk_gone {g : Geometry} {pkt : Packet} (h : givesUp g pkt = true) (b : CacheBlk) :
    satisfiedBlk g pkt b = { b with status := {}, isTouched := false, lockList := [], contextSrc := none } := by
  simp only [givesUp, Bool.and_eq_true, bne_iff_ne, Bool.not_eq_true', Bool.or_eq_true, beq_iff_eq] at h
  obtain ⟨⟨hswap, hw⟩, hread | ⟨hsize, hex⟩⟩ := h
  · simp [satisfiedBlk, hswap, hw, hread]
  · by_cases hr : pkt.cmd.isRead = true
    · simp [satisfiedBlk, hswap, hw, hr, hsize, hex]
    · simp [satisfiedBlk, hswap, hw, hr]

theorem satisfy_blks (g : Geometry) (t : Tags) (ptr : BlkPtr) (pkt : Packet) :
    (satisfyCpuSideRequest g t ptr pkt).1.blks =
      Function.update t.blks ptr (satisfiedBlk g pkt (t.blks ptr)) := by
  unfold satisfyCpuSideRequest satisfiedBlk cmpAndSwap
  by_cases hswap : pkt.cmd = .swapReq
  · simp only [hswap, if_true]
    split
    · rfl
    · exact (Function.update_eq_self ptr t.blks).symm
  by_cases hw : pkt.cmd.isWrite = true
  · simp only [hswap, hw, if_true, if_false, checkWrite_fields]
    split <;> rfl
  by_cases hr : pkt.cmd.isRead = true
  · simp only [hswap, hw, hr, if_true, if_false, Packet.setDataFromBlock, Packet.setData]
    by_cases hl : pkt.cmd.isLLSC = true <;> by_cases hs : pkt.size = g.blkSize <;>
      by_cases hx : pkt.cmd.needsExclusive = true <;>
      simp [hl, hs, hx, Tags.modify, Tags.invalidateBlk, Tags.occupy, CacheBlk.trackLoadLocked]
  · simp only [hswap, hw, hr, if_false]
    rfl

theorem Tags.WellFormed.satisfy {g : Geometry} {t : Tags} (ht : t.WellFormed g) (ptr : BlkPtr)
    (pkt : Packet) : (satisfyCpuSideRequest g t ptr pkt).1.WellFormed g := by
  obtain ⟨f, hf, hsat⟩ := satisfy_tags g t ptr pkt
  have hmodify := ht.modify (hf.inert t ptr)
  rw [hsat]
  split
  · exact hmodify.invalidateBlk ptr
  · exact hmodify

/-- The two outcomes of `allocateBlock`, for the least recently used way `w`. -/
inductive Allocation (g : Geometry) (t : Tags) (q : MshrQueue) (now : Tick) (addr : Addr) (w : Nat) :
    Tags × Option BlkPtr × List Packet → Prop where
  | refused {t₁ : Tags} (quiet : Tags.Quiet t t₁)
      (valid : (t.blks (.frame (g.extractSet addr) w)).isValid = true)
      (busy : (q.findMatch (g.regenerateBlkAddr (t.blks (.frame (g.extractSet addr) w)).tag
        (t.blks (.frame (g.extractSet addr) w)).set)).isSome = true) :
      Allocation g t q now addr w (t₁, none, [])
  | granted {t₁ : Tags} (ways : t₁.ways = t.ways)
      (other : ∀ p, p ≠ .frame (g.extractSet addr) w → t₁.blks p = t.blks p)
      (set_eq : (t₁.blks (.frame (g.extractSet addr) w)).set =
        (t.blks (.frame (g.extractSet addr) w)).set)
      (idle : (t.blks (.frame (g.extractSet addr) w)).isValid = true →
        q.findMatch (g.regenerateBlkAddr (t.blks (.frame (g.extractSet addr) w)).tag
          (t.blks (.frame (g.extractSet addr) w)).set) = none) :
      Allocation g t q now addr w (t₁, some (.frame (g.extractSet addr) w),
        if (t.blks (.frame (g.extractSet addr) w)).isValid &&
            (t.blks (.frame (g.extractSet addr) w)).isDirty then
          [writebackPacket g now (t.blks (.frame (g.extractSet addr) w))] else [])

theorem allocateBlock_allocation {g : Geometry} {t : Tags} (ht : t.WellFormed g) (q : MshrQueue)
    (now : Tick) (addr : Addr) :
    ∃ w ∈ t.ways (g.extractSet addr), Allocation g t q now addr w (allocateBlock g t q now addr) := by
  obtain ⟨w, hw, hptr, hways, hblks⟩ := ht.findVictim addr
  refine ⟨w, hw, ?_⟩
  unfold allocateBlock
  generalize hv : t.findVictim g addr = v at hptr hways hblks ⊢
  obtain ⟨t₁, ptr⟩ := v
  dsimp only at hptr hways hblks ⊢
  subst hptr
  have quiet : Tags.Quiet t t₁ := by
    refine ⟨fun i => by rw [hways], ?_, ?_, ?_, ?_⟩
    all_goals
      intro p
      rcases hblks p with h | ⟨-, h⟩ <;> rw [h]
  have other : ∀ p, p ≠ .frame (g.extractSet addr) w → t₁.blks p = t.blks p :=
    fun p hp => (hblks p).resolve_right fun h => hp h.1
  have hvalid : (t₁.blks (.frame (g.extractSet addr) w)).isValid =
      (t.blks (.frame (g.extractSet addr) w)).isValid := by
    simp only [CacheBlk.isValid, quiet.status]
  have hdirty : (t₁.blks (.frame (g.extractSet addr) w)).isDirty =
      (t.blks (.frame (g.extractSet addr) w)).isDirty := by
    simp only [CacheBlk.isDirty, quiet.status]
  have hpacket : writebackPacket g now (t₁.blks (.frame (g.extractSet addr) w)) =
      writebackPacket g now (t.blks (.frame (g.extractSet addr) w)) := by
    simp only [writebackPacket, quiet.tag, quiet.set, quiet.data]
  simp only [hvalid, hdirty, quiet.tag, quiet.set, writebackBlk, hpacket]
  by_cases h : (t.blks (.frame (g.extractSet addr) w)).isValid = true
  · by_cases hm : (q.findMatch (g.regenerateBlkAddr (t.blks (.frame (g.extractSet addr) w)).tag
        (t.blks (.frame (g.extractSet addr) w)).set)).isSome = true
    · simp only [h, hm, if_true]
      exact .refused quiet h hm
    · have hnone := Option.not_isSome_iff_eq_none.1 hm
      by_cases hd : (t.blks (.frame (g.extractSet addr) w)).isDirty = true
      · -- the dirty victim is written back and left clean
        have := @Allocation.granted g t q now addr w
          (t₁.modify (.frame (g.extractSet addr) w) fun b =>
            { b with status := { b.status with dirty := false } }) hways
          (fun p hp => by rw [Tags.modify_of_ne _ hp, other p hp])
          (by rw [Tags.modify_self, ← quiet.set]) (fun _ => hnone)
        simpa [h, hm, hd] using this
      · have := @Allocation.granted g t q now addr w t₁ hways other (quiet.set _) (fun _ => hnone)
        simpa [h, hm, hd] using this
  · have := @Allocation.granted g t q now addr w t₁ hways other (quiet.set _)
      (fun hc => absurd hc h)
    simpa [h] using this

namespace Tags.WellFormed

variable {g : Geometry} {t : Tags}

/-- What an access does to the tags, whichever way it goes. -/
theorem access (ht : t.WellFormed g) (q : MshrQueue) (now : Tick) (pkt : Packet) :
    (PrefetchSim.access g t q now pkt).tags.WellFormed g := by
  have hfound := t.accessBlock_found g now pkt.addr
  have quiet := t.accessBlock_quiet g now pkt.addr
  unfold PrefetchSim.access
  generalize t.accessBlock g now pkt.addr = acc at hfound quiet ⊢
  obtain ⟨t₁, lat, blk⟩ := acc
  dsimp only at hfound quiet ⊢
  have ht₁ := quiet.wellFormed ht
  cases blk with
  | some ptr =>
    dsimp only
    split
    · exact ht₁.satisfy ptr pkt
    · split
      · exact ht₁.modify (inert_writeback pkt t₁ ptr)
      · exact ht₁
  | none =>
    have hnone : t₁.findBlk (g.extractSet pkt.addr) (g.extractTag pkt.addr) = none :=
      (quiet.findBlk ht _ _).trans hfound.symm
    dsimp only
    split
    · obtain ⟨w, hw, halloc⟩ := allocateBlock_allocation ht₁ q now pkt.addr
      generalize allocateBlock g t₁ q now pkt.addr = a at halloc ⊢
      cases halloc with
      | refused hq _ _ => exact hq.wellFormed ht₁
      | granted hways other hset _ =>
        have inst := @installs_of_insert g t₁ _ pkt.addr w pkt.req.contextId
          (fun b => { b with status := { valid := true, readable := true } }) hw hways other
          (hset.trans (ht₁.set_eq _ _)) (fun _ => rfl) (fun _ => rfl) (fun _ => rfl)
        exact (inst.wellFormed ht₁ hnone).modify (inert_writeback pkt _ _)
    · split <;> exact ht₁

/-- A fill goes to the block that is found, to a frame that is free for it, or
to the temporary block. -/
theorem handleFill (ht : t.WellFormed g) (q : MshrQueue) (now : Tick) {pkt : Packet}
    {blk : Option BlkPtr} (hblk : t.findBlock g pkt.addr = blk) :
    (PrefetchSim.handleFill g t q now pkt blk).1.WellFormed g := by
  unfold PrefetchSim.handleFill
  cases blk with
  | some ptr =>
    obtain ⟨w, hw, rfl, hh⟩ := mem_of_findBlk hblk
    have hvalid : (t.blks (.frame (g.extractSet pkt.addr) w)).isValid = true := by
      simp only [holds, Bool.and_eq_true] at hh
      exact hh.2
    dsimp only
    apply ht.modify
    exact .inr ⟨rfl, rfl, hvalid.symm⟩
  | none =>
    obtain ⟨w, hw, halloc⟩ := allocateBlock_allocation ht q now pkt.addr
    generalize allocateBlock g t q now pkt.addr = a at halloc ⊢
    cases halloc with
    | refused hq _ _ =>
      dsimp only
      exact ((hq.wellFormed ht).modify (.inl rfl)).modify (.inl rfl)
    | granted hways other hset _ =>
      have inst := @installs_of_insert g t _ pkt.addr w pkt.req.contextId
        (fun b => { b with
          status := fillStatus pkt
          data := if pkt.cmd.isRead then pkt.data else b.data
          whenReady := pkt.finishTime }) hw hways other
        (hset.trans (ht.set_eq _ _)) (fun _ => rfl) (fun _ => rfl) (fun _ => rfl)
      exact inst.wellFormed ht hblk

end Tags.WellFormed

/-! ## What these functions do to the packets -/

theorem satisfy_pkt (g : Geometry) (t : Tags) (ptr : BlkPtr) (pkt : Packet) :
    let p := (satisfyCpuSideRequest g t ptr pkt).2
    p.cmd = pkt.cmd ∧ p.addr = pkt.addr ∧ p.size = pkt.size := by
  have hcheck : ((t.blks ptr).checkWrite pkt).2.1.cmd = pkt.cmd ∧
      ((t.blks ptr).checkWrite pkt).2.1.addr = pkt.addr ∧
      ((t.blks ptr).checkWrite pkt).2.1.size = pkt.size := by
    unfold CacheBlk.checkWrite
    split <;> exact ⟨rfl, rfl, rfl⟩
  unfold satisfyCpuSideRequest
  generalize (if pkt.cmd.isLLSC then t.modify ptr fun b => b.trackLoadLocked pkt else t) = t₁
  split
  · exact ⟨rfl, rfl, rfl⟩
  split
  · dsimp only
    split <;> exact hcheck
  split
  · dsimp only
    split
    · split <;> exact ⟨rfl, rfl, rfl⟩
    · exact ⟨rfl, rfl, rfl⟩
  · exact ⟨rfl, rfl, rfl⟩

/-- An access changes neither the command nor the range of its packet. -/
theorem access_pkt (g : Geometry) (t : Tags) (q : MshrQueue) (now : Tick) (pkt : Packet) :
    let p := (access g t q now pkt).pkt
    p.cmd = pkt.cmd ∧ p.addr = pkt.addr ∧ p.size = pkt.size := by
  unfold access
  dsimp only
  split
  · split
    · exact satisfy_pkt ..
    · split <;> exact ⟨rfl, rfl, rfl⟩
  · split
    · split <;> exact ⟨rfl, rfl, rfl⟩
    · split <;> exact ⟨rfl, rfl, rfl⟩

theorem allocateBlock_writebacks (g : Geometry) (t : Tags) (q : MshrQueue) (now : Tick) (addr : Addr) :
    ∀ p ∈ (allocateBlock g t q now addr).2.2, p.cmd = .writeback := by
  unfold allocateBlock
  dsimp only
  split
  · split
    · simp
    · split <;> simp [writebackBlk, writebackPacket, Packet.ofRequest]
  · simp

theorem access_writebacks (g : Geometry) (t : Tags) (q : MshrQueue) (now : Tick) (pkt : Packet) :
    ∀ p ∈ (access g t q now pkt).writebacks, p.cmd = .writeback := by
  have halloc := allocateBlock_writebacks g (t.accessBlock g now pkt.addr).1 q now pkt.addr
  unfold access
  dsimp only
  split
  · split
    · simp
    · split <;> simp
  · split
    · split
      · rename_i hr
        rw [hr] at halloc
        exact halloc
      · rename_i hr
        rw [hr] at halloc
        exact halloc
    · split <;> simp

theorem handleFill_writebacks (g : Geometry) (t : Tags) (q : MshrQueue) (now : Tick) (pkt : Packet)
    (blk : Option BlkPtr) : ∀ p ∈ (handleFill g t q now pkt blk).2.2, p.cmd = .writeback := by
  have halloc := allocateBlock_writebacks g t q now pkt.addr
  unfold handleFill
  cases blk with
  | some ptr => simp
  | none =>
    generalize allocateBlock g t q now pkt.addr = r at halloc ⊢
    obtain ⟨t₁, _ | ptr, wbs⟩ := r <;> exact halloc

end PrefetchSim
