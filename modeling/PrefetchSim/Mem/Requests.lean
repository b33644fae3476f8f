import PrefetchSim.Lib.Serving
import PrefetchSim.Mem.System

/- What the requests of a CPU mean, and that the cache gives them this meaning.

   `Performs` says what a load, a store, a store conditional or a swap does to the
   bytes of its block and what it is answered; it is said of packets and bytes, and
   nothing of the cache is in it. `satisfyCpuSideRequest` performs a request on the
   block it is given (`satisfy_performs`), and the target loop of `handleResponse`
   performs the requests of an entry one after another, in the order in which they
   joined it (`serviceTargets_chain`). Both leave the block where it is and with the
   permissions it had; it is dirty afterwards or as it was before (`Served`). -/
namespace PrefetchSim

/-! ## Requests of a CPU -/

def MemCmd.ofCpu : MemCmd → Bool
  | .readReq | .softPFReq | .loadLockedReq | .writeReq | .storeCondReq | .swapReq => true
  | _ => false

/-- A cacheable request of a CPU for a part of a block. The last block of the address
space is left out: there the sums in the search for conflicting writes wrap round. -/
structure Packet.FromCpu (g : Geometry) (pkt : Packet) : Prop where
  cmd : pkt.cmd.ofCpu = true
  cacheable : pkt.req.uncacheable = false
  inhibit : pkt.memInhibit = false
  paddr : pkt.req.paddr = pkt.addr
  part : pkt.size < g.blkSize
  inside : pkt.getOffset g.blkSize + pkt.size ≤ g.blkSize
  data : pkt.cmd.isWrite = true → pkt.data.length = pkt.size
  low : (g.blockAlign pkt.addr).toNat + g.blkSize < 2 ^ 64

instance (g : Geometry) (pkt : Packet) : Decidable (pkt.FromCpu g) :=
  decidable_of_iff ((pkt.cmd.ofCpu = true ∧ pkt.req.uncacheable = false ∧ pkt.memInhibit = false ∧
      pkt.req.paddr = pkt.addr) ∧ pkt.size < g.blkSize ∧ pkt.getOffset g.blkSize + pkt.size ≤ g.blkSize ∧
      (pkt.cmd.isWrite = true → pkt.data.length = pkt.size) ∧
      (g.blockAlign pkt.addr).toNat + g.blkSize < 2 ^ 64)
    ⟨fun h => ⟨h.1.1, h.1.2.1, h.1.2.2.1, h.1.2.2.2, h.2.1, h.2.2.1, h.2.2.2.1, h.2.2.2.2⟩,
      fun h => ⟨⟨h.cmd, h.cacheable, h.inhibit, h.paddr⟩, h.part, h.inside, h.data, h.low⟩⟩

/-- What the attributes of these commands have in common. -/
theorem MemCmd.ofCpu_attributes {c : MemCmd} (h : c.ofCpu = true) :
    c.isRequest = true ∧ c.isResponse = false ∧ c.needsResponse = true ∧ c.isUpgrade = false ∧
      c ≠ .hardPFReq ∧ c ≠ .writeback ∧ c ≠ .scUpgradeFailReq ∧
      (c.isWrite = true → c.needsExclusive = true) ∧ (c.isWrite = false → c.isRead = true) := by
  revert h
  cases c <;> decide

/-- The bytes of its block that a packet is about. -/
def Packet.bytesIn (g : Geometry) (pkt : Packet) (v : List UInt8) : List UInt8 :=
  (v.drop (pkt.getOffset g.blkSize)).take pkt.size

/-- `pkt` finds the block as `v`, leaves it as `v'` and is answered by `resp`. A store
conditional may fail; it says so, and leaves the block alone. -/
def Packet.Performs (g : Geometry) (pkt : Packet) (v : List UInt8) (resp : Packet) (v' : List UInt8) : Prop :=
  (resp.cmd = pkt.cmd.responseCommand ∧ resp.addr = pkt.addr ∧ resp.size = pkt.size) ∧
    let old := pkt.bytesIn g v
    let new := memcpyAt v (pkt.getOffset g.blkSize) pkt.data
    match pkt.cmd with
    | .writeReq => v' = new
    | .storeCondReq => (resp.req.extraData = 1 ∧ v' = new) ∨ (resp.req.extraData = 0 ∧ v' = v)
    | .swapReq => resp.data = old ∧
        v' = if pkt.req.condSwap = true ∧ old ≠ littleEndian pkt.size pkt.req.extraData then v else new
    | _ => resp.data = old ∧ v' = v

/-- The meaning of requests, for memories of blocks. -/
def cpuMeaning (g : Geometry) : Serving.Meaning g.Block (List UInt8) Packet Packet where
  key pkt := g.block pkt.addr
  performs := Packet.Performs g

/-- Nothing is written outside the block. -/
theorem Packet.FromCpu.memcpy_length {g : Geometry} {pkt : Packet} (h : pkt.FromCpu g) {v : List UInt8}
    (hv : v.length = g.blkSize) : (memcpyAt v (pkt.getOffset g.blkSize) (pkt.data.take pkt.size)).length =
      g.blkSize := by
  have hinside := h.inside
  have htake : (pkt.data.take pkt.size).length ≤ pkt.size := List.length_take_le ..
  simp only [memcpyAt, List.length_append, List.length_drop, List.length_take, hv] at htake ⊢
  omega

/-! ## The block of a request -/

/-- What serving requests leaves of a block. Unless one of them was exclusive it is
clean as before. -/
structure CacheBlk.Served (exclusive : Bool) (b b' : CacheBlk) : Prop where
  tag : b'.tag = b.tag
  set : b'.set = b.set
  valid : b'.status.valid = b.status.valid
  readable : b'.status.readable = b.status.readable
  writable : b'.status.writable = b.status.writable
  length : b'.data.length = b.data.length
  dirty : b'.isDirty = true ∨ (b'.isDirty = b.isDirty ∧ b'.data = b.data)
  clean : exclusive = false → b'.isDirty = b.isDirty

namespace CacheBlk

theorem Served.refl (x : Bool) (b : CacheBlk) : Served x b b :=
  ⟨rfl, rfl, rfl, rfl, rfl, rfl, .inr ⟨rfl, rfl⟩, fun _ => rfl⟩

theorem Served.trans {x y : Bool} {b b' b'' : CacheBlk} (h : Served x b b') (h' : Served y b' b'') :
    Served (x || y) b b'' where
  tag := h'.tag.trans h.tag
  set := h'.set.trans h.set
  valid := h'.valid.trans h.valid
  readable := h'.readable.trans h.readable
  writable := h'.writable.trans h.writable
  length := h'.length.trans h.length
  dirty := by
    rcases h'.dirty with hd | ⟨hd, hv⟩
    · exact .inl hd
    · rcases h.dirty with hd' | ⟨hd', hv'⟩
      · exact .inl (hd.trans hd')
      · exact .inr ⟨hd.trans hd', hv.trans hv'⟩
  clean hx := by
    obtain ⟨hx, hy⟩ := Bool.or_eq_false_iff.1 hx
    exact (h'.clean hy).trans (h.clean hx)

end CacheBlk

section

variable {g : Geometry} {pkt : Packet}

theorem served_satisfiedBlk (h : pkt.FromCpu g) {b : CacheBlk} (hb : b.data.length = g.blkSize) :
    CacheBlk.Served pkt.cmd.needsExclusive b (satisfiedBlk g pkt b) := by
  obtain ⟨-, -, -, -, -, -, -, hexcl, hread⟩ := MemCmd.ofCpu_attributes h.cmd
  have hlen := h.memcpy_length hb
  have hpart : pkt.size ≠ g.blkSize := Nat.ne_of_lt h.part
  unfold satisfiedBlk
  dsimp only
  split
  · -- a swap
    rename_i hswap
    have hx : pkt.cmd.needsExclusive = true := by
      rw [hswap]
      rfl
    rw [hx]
    split
    · exact ⟨rfl, rfl, rfl, rfl, rfl, hlen.trans hb.symm, .inl rfl, fun hf => by cases hf⟩
    · exact .refl true b
  split
  · -- a store
    rename_i hwrite
    rw [hexcl hwrite]
    split
    · exact ⟨rfl, rfl, rfl, rfl, rfl, hlen.trans hb.symm, .inl rfl, fun hf => by cases hf⟩
    · exact ⟨rfl, rfl, rfl, rfl, rfl, rfl, .inr ⟨rfl, rfl⟩, fun _ => rfl⟩
  · -- a load
    rename_i hwrite
    rw [if_pos (hread (by simpa using hwrite))]
    split
    · exact ⟨rfl, rfl, rfl, rfl, rfl, rfl, .inr ⟨rfl, rfl⟩, fun _ => rfl⟩
    · exact .refl _ b

/-- The block a request is satisfied from, and nothing else of the tags, is written. -/
theorem satisfy_modify (h : pkt.FromCpu g) (t : Tags) (ptr : BlkPtr) :
    (satisfyCpuSideRequest g t ptr pkt).1 = t.modify ptr fun _ => satisfiedBlk g pkt (t.blks ptr) := by
  obtain ⟨-, -, -, -, -, -, -, -, hread⟩ := MemCmd.ofCpu_attributes h.cmd
  have hkeep : givesUp g pkt = false := by
    have hpart : pkt.size ≠ g.blkSize := Nat.ne_of_lt h.part
    unfold givesUp
    cases hw : pkt.cmd.isWrite with
    | true => simp
    | false => simp [hread hw, hpart]
  obtain ⟨f, -, htags⟩ := satisfy_tags g t ptr pkt
  rw [hkeep, if_neg Bool.false_ne_true] at htags
  have hblk := congrFun (satisfy_blks g t ptr pkt) ptr
  rw [htags, Tags.modify_self, Function.update_self] at hblk
  rw [htags, ← hblk]
  rfl

/-- A load takes its bytes from the block. -/
theorem satisfy_load (hswap : pkt.cmd ≠ .swapReq) (hwrite : pkt.cmd.isWrite = false)
    (hread : pkt.cmd.isRead = true) (hpart : pkt.size ≠ g.blkSize) (t : Tags) (ptr : BlkPtr) :
    (satisfyCpuSideRequest g t ptr pkt).2 = pkt.setDataFromBlock (t.blks ptr).data g.blkSize ∧
      (satisfiedBlk g pkt (t.blks ptr)).data = (t.blks ptr).data := by
  unfold satisfyCpuSideRequest satisfiedBlk
  cases hl : pkt.cmd.isLLSC <;>
    simp [hswap, hwrite, hread, hpart, Packet.setDataFromBlock, Packet.setData, CacheBlk.trackLoadLocked]

/-- A request is performed on the block it is satisfied from. -/
theorem satisfy_performs (h : pkt.FromCpu g) (t : Tags) (ptr : BlkPtr) :
    pkt.Performs g (t.blks ptr).data (satisfyCpuSideRequest g t ptr pkt).2.makeTimingResponse
      (satisfiedBlk g pkt (t.blks ptr)).data := by
  have hsame := satisfy_pkt g t ptr pkt
  have hpart : pkt.size ≠ g.blkSize := Nat.ne_of_lt h.part
  have hdata : pkt.cmd.isWrite = true → pkt.data.take pkt.size = pkt.data := fun hw =>
    List.take_of_length_le (le_of_eq (h.data hw))
  have hoff : g.extractBlkOffset pkt.addr = pkt.getOffset g.blkSize := rfl
  refine ⟨⟨congrArg MemCmd.responseCommand hsame.1, hsame.2⟩, ?_⟩
  have hcmd := h.cmd
  cases hc : pkt.cmd <;> rw [hc] at hcmd <;> cases hcmd
  case writeReq =>
    have hw : pkt.cmd.isWrite = true := by rw [hc]; rfl
    simp [satisfiedBlk, hc, MemCmd.isWrite, MemCmd.testCmdAttrib, MemCmd.attributes, CacheBlk.checkWrite,
      MemCmd.isLLSC, Packet.writeDataToBlock, hdata hw]
  case storeCondReq =>
    have hw : pkt.cmd.isWrite = true := by rw [hc]; rfl
    have hl : pkt.cmd.isLLSC = true := by rw [hc]; rfl
    have hs : pkt.cmd ≠ .swapReq := by rw [hc]; decide
    simp only [satisfiedBlk, satisfyCpuSideRequest, if_neg hs, hw, if_true, CacheBlk.checkWrite, hl]
    by_cases hlock : ((t.blks ptr).lockList.any fun c => pkt.req.contextId == some c) = true
    · left
      simp [hlock, Packet.makeTimingResponse, Packet.setExtraData, Packet.writeDataToBlock, hdata hw]
    · right
      simp [hlock, Packet.makeTimingResponse, Packet.setExtraData]
  case swapReq =>
    have hw : pkt.cmd.isWrite = true := by rw [hc]; rfl
    have hpkt : (satisfyCpuSideRequest g t ptr pkt).2 =
        pkt.setData ((t.blks ptr).data.drop (pkt.getOffset g.blkSize)) := by
      rw [satisfyCpuSideRequest, if_pos hc]
      rfl
    refine ⟨by rw [hpkt]; rfl, ?_⟩
    simp only [satisfiedBlk, hc, if_true, hoff, hdata hw, Packet.bytesIn]
    cases hcond : pkt.req.condSwap with
    | false => simp
    | true =>
      by_cases heq : ((t.blks ptr).data.drop (pkt.getOffset g.blkSize)).take pkt.size =
          littleEndian pkt.size pkt.req.extraData
      · simp [heq]
      · simp [heq]
  all_goals
    have hs : pkt.cmd ≠ .swapReq := by rw [hc]; decide
    have hw : pkt.cmd.isWrite = false := by rw [hc]; rfl
    have hr : pkt.cmd.isRead = true := by rw [hc]; rfl
    obtain ⟨hpkt, hblk⟩ := satisfy_load hs hw hr hpart t ptr
    exact ⟨by rw [hpkt]; rfl, hblk⟩

end

/-! ## The target loop -/

/-- A target that waits for the block at `addr`: a request of a CPU, or a prefetch. -/
structure Target.Asks (g : Geometry) (addr : Addr) (t : Target) : Prop where
  block : g.blockAlign t.pkt.addr = addr
  kind : (t.source = .fromCPU ∧ t.pkt.FromCpu g ∧ t.needsResponse = true) ∨
    (t.source = .fromPrefetcher ∧ IsPrefetch t.pkt)

/-- The requests of CPUs among some targets. -/
def cpuPackets (ts : List Target) : List Packet := (ts.filter fun t => t.source = .fromCPU).map Target.pkt

theorem cpuPackets_append (ts ts' : List Target) : cpuPackets (ts ++ ts') = cpuPackets ts ++ cpuPackets ts' := by
  simp [cpuPackets]

/-- A response joins what the port has to send. -/
theorem CachePort.respond_perm (p : CachePort) (pkt : Packet) (time : Tick) :
    ((p.respond pkt time).transmitList.map Prod.snd).Perm (p.transmitList.map Prod.snd ++ [pkt]) := by
  have hlast : ((p.transmitList ++ [(time, pkt)]).map Prod.snd).Perm (p.transmitList.map Prod.snd ++ [pkt]) := by
    simp
  refine List.Perm.trans (List.Perm.map _ ?_) hlast
  unfold respond
  dsimp only
  split
  · exact (List.perm_append_singleton ..).symm
  split
  · exact List.Perm.refl _
  · exact (List.perm_orderedInsert ..).trans (List.perm_append_singleton ..).symm

/-- The response is a fill, and the block it went to is `ptr`. -/
structure Answer.Fills (a : Answer) (ptr : BlkPtr) : Prop where
  fill : a.isFill = true
  blk : a.blk = some ptr
  noError : a.pkt.cmd.isError = false
  keeps : a.pkt.cmd.isInvalidate = false

/-- What the targets served so far have done: their requests are performed one after
another on the block, and their responses are on the way. -/
structure Service.Chain {σ : Type} (g : Geometry) (b : g.Block) (ptr : BlkPtr) (exclusive : Bool)
    (ops : List (Packet × Packet)) (s s' : Service σ) : Prop where
  performed : (cpuMeaning g).Chain b (s.tags.blks ptr).data ops (s'.tags.blks ptr).data
  tags : s'.tags = s.tags.modify ptr fun _ => s'.tags.blks ptr
  served : CacheBlk.Served exclusive (s.tags.blks ptr) (s'.tags.blks ptr)
  responses : (s'.cpuSidePort.transmitList.map Prod.snd).Perm
    (s.cpuSidePort.transmitList.map Prod.snd ++ ops.map Prod.snd)

section

variable {σ : Type} {cfg : Config} {P : Policy σ} {a : Answer} {ptr : BlkPtr} {b : cfg.geom.Block}

theorem serviceTarget_chain (ha : a.Fills ptr) {t : Target} (ht : t.Asks cfg.geom b.1) (s : Service σ)
    (hlen : (s.tags.blks ptr).data.length = cfg.geom.blkSize) :
    ∃ ops, ops.map Prod.fst = cpuPackets [t] ∧ Service.Chain cfg.geom b ptr t.pkt.cmd.needsExclusive ops s
      (serviceTarget cfg P a s t) := by
  rcases ht.kind with ⟨hsource, hcpu, -⟩ | ⟨hsource, -⟩
  · have hresponse : ∀ p, cpuResponse a p = p.makeTimingResponse := by
      intro p
      simp [cpuResponse, ha.noError, ha.keeps]
    have hkey : cfg.geom.block t.pkt.addr = b := Subtype.ext ht.block
    refine ⟨[(t.pkt, (satisfyCpuSideRequest cfg.geom s.tags ptr t.pkt).2.makeTimingResponse)], ?_, ?_⟩
    · simp [cpuPackets, hsource]
    · have hblk : ((serviceTarget cfg P a s t).tags.blks ptr) =
          satisfiedBlk cfg.geom t.pkt (s.tags.blks ptr) := by
        simp [serviceTarget, hsource, serviceCpu, ha.fill, ha.blk, satisfy_blks]
      refine ⟨?_, ?_, ?_, ?_⟩
      · rw [hblk]
        exact .one hkey (satisfy_performs hcpu s.tags ptr)
      · rw [hblk]
        simp [serviceTarget, hsource, serviceCpu, ha.fill, ha.blk, satisfy_modify hcpu]
      · rw [hblk]
        exact served_satisfiedBlk hcpu hlen
      · simp only [serviceTarget, hsource, serviceCpu, ha.fill, ha.blk, if_true, hresponse]
        exact CachePort.respond_perm ..
  · have hblk : ((serviceTarget cfg P a s t).tags.blks ptr) = { s.tags.blks ptr with
        status := { (s.tags.blks ptr).status with hwPrefetched := true } } := by
      simp [serviceTarget, hsource, ha.blk]
    refine ⟨[], by simp [cpuPackets, hsource], ⟨?_, ?_, ?_, ?_⟩⟩
    · rw [hblk]
      exact .nil _
    · rw [hblk]
      simp only [serviceTarget, hsource, ha.blk]
      rfl
    · rw [hblk]
      exact ⟨rfl, rfl, rfl, rfl, rfl, rfl, .inr ⟨rfl, rfl⟩, fun _ => rfl⟩
    · simp [serviceTarget, hsource, ha.blk]

/-- The requests of an entry are performed on the block in the order of its targets. -/
theorem serviceTargets_chain (ha : a.Fills ptr) (ts : List Target) (hts : ∀ t ∈ ts, t.Asks cfg.geom b.1)
    (s : Service σ) (hlen : (s.tags.blks ptr).data.length = cfg.geom.blkSize) :
    ∃ ops, ops.map Prod.fst = cpuPackets ts ∧
      Service.Chain cfg.geom b ptr (ts.any fun t => t.pkt.cmd.needsExclusive) ops s
        (ts.foldl (serviceTarget cfg P a) s) := by
  induction ts generalizing s with
  | nil =>
    refine ⟨[], rfl, ⟨.nil _, ?_, .refl _ _, by simp⟩⟩
    exact (modify_id s.tags ptr).symm
  | cons t ts ih =>
    obtain ⟨first, hfirst, hone⟩ := serviceTarget_chain (P := P) ha (hts t (List.mem_cons_self ..)) s hlen
    obtain ⟨rest, hrest, hchain⟩ := ih (fun t' ht' => hts t' (List.mem_cons_of_mem _ ht'))
      (serviceTarget cfg P a s t) (hone.served.length.trans hlen)
    refine ⟨first ++ rest, ?_, ⟨hone.performed.append hchain.performed, ?_, ?_, ?_⟩⟩
    · rw [List.map_append, hfirst, hrest, ← cpuPackets_append]
      rfl
    · refine hchain.tags.trans ?_
      rw [hone.tags]
      simp [Tags.modify]
    · rw [List.any_cons]
      exact hone.served.trans hchain.served
    · refine hchain.responses.trans ((hone.responses.append_right _).trans (List.Perm.of_eq ?_))
      simp

end

end PrefetchSim
