import PrefetchSim.Mem.Fills

/- The cache and its memory together are a flat memory.

   The steps of `Node` that a request does not make are here: the cache gets the bus,
   and a response arrives. When the request of a miss goes out, no write to its block
   is left in the write buffer, so its answer is what is seen of the block, and it
   stays so until it arrives. Then the requests that wait for it are performed on the
   block one after another. So a run is a history of requests performed on a plain
   memory (`flat_memory`). -/
namespace PrefetchSim

/-! ## Misses and the writes to their blocks -/

/-- Whole blocks overlap only if they are the same. -/
theorem Geometry.block_overlap {g : Geometry} (b b' : g.Block) (h : b.1.toNat < b'.1.toNat + g.blkSize)
    (h' : b'.1.toNat < b.1.toNat + g.blkSize) : b = b' := by
  have haligned : ∀ b : g.Block, b.1.toNat = b.1.toNat / 2 ^ g.blkBits * 2 ^ g.blkBits := by
    intro b
    have hk : g.blkBits < 64 := by
      have := g.fits
      omega
    have := Words.toNat_align hk b.1
    rwa [show b.1 &&& ~~~(BitVec.ofNat 64 (2 ^ g.blkBits) - 1) = b.1 from b.2] at this
  apply Subtype.ext
  apply BitVec.eq_of_toNat_eq
  have hsize : g.blkSize = 2 ^ g.blkBits := rfl
  rw [hsize, haligned b, haligned b', ← Nat.succ_mul] at h h'
  have hle := Nat.lt_of_mul_lt_mul_right h
  have hle' := Nat.lt_of_mul_lt_mul_right h'
  rw [haligned b, haligned b']
  congr 1
  omega

namespace Cache

variable {σ : Type} {cfg : Config} {P : Policy σ} {reply : Nat → Option Packet} {c c' : Cache σ}

/-- The search for conflicts sees every write to the block of a miss that waits. -/
theorem Tidy.allSeen (hs : c.Tidy cfg reply) : c.AllSeen := by
  rintro i hi j hj hunseen ⟨hover, -⟩
  have hmem := (hs.misses_wellFormed.mem_ready.1 hi).1
  have hm := hs.misses i hmem
  have hw := hs.writes j hj
  rcases hunseen with hin | hrange
  · rw [hw.waits] at hin
    cases hin
  · have hsame : (c.writeBuffer.registers j).addr = (c.mshrQueue.registers i).addr := by
      have hb := Geometry.block_overlap (g := cfg.geom)
        ⟨_, hw.holds.aligned⟩ ⟨_, hm.aligned (hs.misses_wellFormed.busy i hmem)⟩
        (by simpa only [Mshr.slot, hm.size] using hover.1) (by simpa only [Mshr.slot, hw.holds.size] using hover.2)
      exact congrArg Subtype.val hb
    have hpos : 0 < cfg.geom.blkSize := Nat.two_pow_pos _
    have hlow := hw.low
    rw [hsame] at hlow
    have hsum : ((c.mshrQueue.registers i).addr + BitVec.ofNat 64 cfg.geom.blkSize).toNat =
        (c.mshrQueue.registers i).addr.toNat + cfg.geom.blkSize := by
      rw [BitVec.toNat_add, BitVec.toNat_ofNat, Nat.mod_eq_of_lt (show cfg.geom.blkSize < 2 ^ 64 by omega)]
      exact Nat.mod_eq_of_lt hlow
    rw [Mshr.overlapsRange, hsame, if_neg (BitVec.lt_irrefl _), hm.size, decide_eq_false_iff_not,
      BitVec.lt_def, hsum] at hrange
    omega

/-- No write to the block of the miss that is chosen is left in the write buffer. -/
theorem Tidy.chosen_clear (hs : c.Tidy cfg reply) {i : Nat} (h : c.pendingMSHR = some (.mshrs, i)) :
    ∀ j ∈ c.writeBuffer.allocatedList, (c.writeBuffer.registers j).addr ≠ (c.mshrQueue.registers i).addr := by
  intro j hj haddr
  have hready := pendingMSHR_ready h
  have hpos : 0 < cfg.geom.blkSize := Nat.two_pow_pos _
  apply hs.ordered.pending_inOrder hs.allSeen h hj
  refine ⟨?_, hs.younger i hready j hj haddr⟩
  have hm := hs.misses i (hs.misses_wellFormed.mem_ready.1 hready).1
  show _ < _ ∧ _ < _
  simp only [Mshr.slot, haddr, hm.size, (hs.writes j hj).holds.size]
  omega

end Cache

/-! ## The cache gets the bus -/

theorem MshrQueue.requests_congr {q q' : MshrQueue} (hlist : q'.allocatedList = q.allocatedList)
    (h : ∀ k, (q'.registers k).requests = (q.registers k).requests) : q'.requests = q.requests := by
  unfold MshrQueue.requests
  simp only [hlist, h]

/-- A step in which nothing is performed. -/
structure System.Keeps {σ : Type} (cfg : Config) (s s' : System σ) : Prop where
  tidy : s'.cache.Tidy cfg s'.reply
  moves : Layers.Moves (s.view cfg) [] (s'.view cfg)
  requests : s'.cache.mshrQueue.requests = s.cache.mshrQueue.requests
  responses : s'.cache.responses = s.cache.responses

namespace System

variable {σ : Type} {cfg : Config} {P : Policy σ} {s s' s'' : System σ}

theorem Keeps.trans (h : s.Keeps cfg s') (h' : s'.Keeps cfg s'') : s.Keeps cfg s'' :=
  ⟨h'.tidy, h.moves.trans h'.moves, h'.requests.trans h.requests, h'.responses.trans h.responses⟩

/-- Nothing has changed but the ports, the time and the prefetcher. -/
theorem Keeps.congr (hs : s.cache.Tidy cfg s.reply) {c : Cache σ} (hordered : c.Ordered cfg)
    (hspare : c.Spare cfg) (hqueue : c.mshrQueue = s.cache.mshrQueue) (hbuffer : c.writeBuffer = s.cache.writeBuffer)
    (htags : c.tags = s.cache.tags) (hpf : ∀ p ∈ c.prefetcher.pf, IsPrefetch p)
    (hresponses : c.responses = s.cache.responses) : s.Keeps cfg { s with cache := c } := by
  refine ⟨hs.congr hordered hspare hqueue hbuffer hpf htags, moves_view (.refl _) ?_ ?_ rfl ?_, ?_, hresponses⟩
  · exact congrArg (Tags.line cfg.geom) htags
  · exact congrArg (MshrQueue.writes cfg.geom) hbuffer
  · show (fun b : cfg.geom.Block => (c.mshrQueue.fetch s.reply b.1).sent) = _
    rw [hqueue]
    rfl
  · exact congrArg MshrQueue.requests hqueue

/-- The packet for a miss: an upgrade if its block is in the cache, and a read if not. -/
theorem timingPacketFor_miss {c : Cache σ} {i : Nat} {reply : Option Packet}
    (hm : (c.mshrQueue.registers i).Awaits cfg.geom
      (c.tags.findBlock cfg.geom (c.mshrQueue.registers i).addr).isSome reply)
    (hb : (c.mshrQueue.registers i).Busy) (upward : Nat → SnoopAnswer) :
    ∃ t pkt, (c.register (.mshrs, i)).getTarget = some t ∧
      c.timingPacketFor cfg P upward (.mshrs, i) t = (c.setRegister (.mshrs, i)
        { c.mshrQueue.registers i with isForward := false }, some pkt) ∧
      pkt.cmd.isWrite = false ∧ pkt.addr = (c.mshrQueue.registers i).addr ∧
      ∀ data, (c.mshrQueue.registers i).Response
        (c.tags.findBlock cfg.geom (c.mshrQueue.registers i).addr).isSome { pkt.makeTimingResponse with data } := by
  obtain ⟨t, ts, hlist⟩ := List.exists_cons_of_ne_nil hb.nonempty
  have ht := hm.asks t (by simp [hlist])
  -- the packet of the first target, of a CPU or of the prefetcher
  have hpkt : t.pkt.req.uncacheable = false ∧ t.pkt.req.paddr = t.pkt.addr ∧ t.pkt.cmd.isUpgrade = false ∧
      t.pkt.cmd ≠ .writeback ∧ t.pkt.cmd ≠ .scUpgradeFailReq ∧ (t.source = .fromCPU → t.pkt.cmd ≠ .hardPFReq) := by
    rcases ht.kind with ⟨-, hcpu, -⟩ | ⟨hsource, hpf⟩
    · obtain ⟨-, -, -, hup, hne, hwb, hsc, -⟩ := MemCmd.ofCpu_attributes hcpu.cmd
      exact ⟨hcpu.cacheable, hcpu.paddr, hup, hwb, hsc, fun _ => hne⟩
    · refine ⟨hpf.cacheable, hpf.paddr, ?_, ?_, ?_, fun h => ?_⟩
      · rw [hpf.cmd]
        rfl
      · rw [hpf.cmd]
        decide
      · rw [hpf.cmd]
        decide
      · rw [hsource] at h
        cases h
  obtain ⟨hcache, hpaddr, hup, hwb, hsc, hcpu⟩ := hpkt
  have hreg : c.register (.mshrs, i) = c.mshrQueue.registers i := rfl
  have hwait : (c.mshrQueue.registers i).isForwardNoResponse = false := hm.responds hb
  have hvalid : ((c.tags.findBlock cfg.geom (c.mshrQueue.registers i).addr).map c.tags.blks).any CacheBlk.isValid =
      (c.tags.findBlock cfg.geom (c.mshrQueue.registers i).addr).isSome := by
    cases hf : c.tags.findBlock cfg.geom (c.mshrQueue.registers i).addr with
    | none => rfl
    | some p => simpa using Tags.findBlock_valid hf
  have hneed : c.needless cfg (.mshrs, i) t = false := by
    unfold Cache.needless
    rw [hreg]
    cases hf : c.tags.findBlock cfg.geom (c.mshrQueue.registers i).addr with
    | none => rfl
    | some p =>
      have hsource : t.source = .fromCPU := hm.demand (by rw [hf]; rfl) t (by simp [hlist])
      simp [hcpu hsource]
  have haddr : cfg.geom.blockAlign t.pkt.req.paddr = (c.mshrQueue.registers i).addr := by
    rw [hpaddr]
    exact ht.block
  let cmd := if (c.tags.findBlock cfg.geom (c.mshrQueue.registers i).addr).isSome then
      if t.pkt.cmd.isLLSC then MemCmd.scUpgradeReq else MemCmd.upgradeReq
    else if (c.mshrQueue.registers i).needsExclusive then MemCmd.readExReq else MemCmd.readReq
  have hbus : getBusPacket cfg.geom c.curTick t.pkt
      ((c.tags.findBlock cfg.geom (c.mshrQueue.registers i).addr).map c.tags.blks)
      (c.mshrQueue.registers i).needsExclusive = some
        { cmd, req := t.pkt.req, addr := cfg.geom.blockAlign t.pkt.req.paddr
          size := cfg.geom.blkSize, time := c.curTick } := by
    have hno : (t.pkt.cmd == .writeback || t.pkt.cmd.isUpgrade) = false := by simp [hwb, hup]
    simp only [getBusPacket, hcache, Bool.false_eq_true, if_false, hvalid, hno, Bool.and_false, cmd]
  refine ⟨t, { cmd, req := t.pkt.req, addr := cfg.geom.blockAlign t.pkt.req.paddr, size := cfg.geom.blkSize
               time := c.curTick }, ?_, ?_, ?_, haddr, fun data => ⟨haddr, rfl, ?_, ?_⟩⟩
  · rw [hreg, Mshr.getTarget, hlist]
    rfl
  · simp only [Cache.timingPacketFor, if_neg hsc, hreg, hwait, hneed, Bool.false_eq_true, if_false, hbus,
      Option.isNone_some, Option.getD_some]
  · simp only [cmd]
    split
    · split <;> rfl
    · split <;> rfl
  · intro hp
    show cmd.responseCommand = _
    simp only [cmd, hp, if_true]
    split <;> rfl
  · intro hp
    show cmd.responseCommand = _ ∨ (cmd.responseCommand = _ ∧ _)
    simp only [cmd, hp, Bool.false_eq_true, if_false]
    split
    · exact .inl rfl
    · rename_i hx
      exact .inr ⟨rfl, by simpa [Mshr.needsExclusive] using hx⟩

/-- The bus takes the request of a miss, or refuses it. -/
theorem dispatch_keeps (hs : s.cache.Tidy cfg s.reply) {i : Nat} (hi : i ∈ s.cache.mshrQueue.readyList)
    (hclear : ∀ j ∈ s.cache.writeBuffer.allocatedList,
      (s.cache.writeBuffer.registers j).addr ≠ (s.cache.mshrQueue.registers i).addr)
    (accept : Bool) (upward : Nat → SnoopAnswer)
    (hordered : (s.dispatch cfg P accept upward (.mshrs, i)).cache.Ordered cfg)
    (hspare : (s.dispatch cfg P accept upward (.mshrs, i)).cache.Spare cfg) :
    s.Keeps cfg (s.dispatch cfg P accept upward (.mshrs, i)) := by
  have hq := hs.misses_wellFormed
  obtain ⟨hmem, hin⟩ := hq.mem_ready.1 hi
  have hm := hs.misses i hmem
  have hb := hq.busy i hmem
  obtain ⟨t, pkt, htarget, hpacket, hwrite, haddr, hresponse⟩ := timingPacketFor_miss (P := P) hm hb upward
  let r := { s.cache.mshrQueue.registers i with isForward := false }
  have hself : s.cache.mshrQueue.fetch s.reply (s.cache.mshrQueue.registers i).addr = .waiting := by
    rw [hs.distinct.fetch_self s.reply hmem, hin]
    rfl
  have hrequests : ∀ q' : MshrQueue, q'.allocatedList = s.cache.mshrQueue.allocatedList →
      (∃ sent, q'.registers = Function.update s.cache.mshrQueue.registers i { r with inService := sent }) →
      q'.requests = s.cache.mshrQueue.requests := by
    rintro q' hlist ⟨sent, hregs⟩
    refine MshrQueue.requests_congr hlist fun k => ?_
    rw [hregs]
    by_cases hk : k = i
    · subst hk
      rw [Function.update_self]
      rfl
    · rw [Function.update_of_ne hk]
  unfold dispatch at hordered hspare ⊢
  simp only [htarget, hpacket] at hordered hspare ⊢
  cases accept with
  | false =>
    simp only [Bool.false_eq_true, if_false] at hordered hspare ⊢
    obtain ⟨htidy, hfetch⟩ := hs.rewrite (r := r) s.reply hmem rfl rfl hordered hspare (.refl _ _)
      hs.queued rfl rfl (fun _ hk => hk) rfl (fun _ _ => rfl) (hm.forward hin (s.reply i))
    refine ⟨htidy, moves_view (.refl _) rfl rfl rfl ?_, hrequests _ rfl ⟨r.inService, rfl⟩, rfl⟩
    have hno : ¬ r.inService = true := by simp [r, hin]
    rw [if_neg hno, Function.update_eq_self_iff.2 hself.symm] at hfetch
    exact congrArg (fun f (b : cfg.geom.Block) => Layers.Fetch.sent (f b.1)) hfetch
  | true =>
    simp only [if_true] at hordered hspare ⊢
    let c := ((s.cache.setRegister (.mshrs, i) r).waiting false).markInService (.mshrs, i)
    let response := { pkt.makeTimingResponse with data := s.memory pkt.addr }
    have htake : ({ s with cache := c } : System σ).take pkt (.mshrs, i) =
        { s with cache := c, reply := Function.update s.reply i (some response) } := by
      simp only [take, hwrite, Bool.false_eq_true, if_false]
      rfl
    change ((({ s with cache := c } : System σ).take pkt (.mshrs, i)).cache).Ordered cfg at hordered
    change ((({ s with cache := c } : System σ).take pkt (.mshrs, i)).cache).Spare cfg at hspare
    show s.Keeps cfg (({ s with cache := c } : System σ).take pkt (.mshrs, i))
    rw [htake] at hordered hspare ⊢
    have hqueue : c.mshrQueue = { s.cache.mshrQueue.modify i fun _ => { r with inService := true } with
        readyList := s.cache.mshrQueue.readyList.erase i
        inServiceEntries := s.cache.mshrQueue.inServiceEntries + 1 } := by
      refine (Cache.queue_freed _ .mshrs .mshrs _).trans ?_
      show (s.cache.mshrQueue.modify i fun _ => r).markInService i = _
      have hreg : (s.cache.mshrQueue.modify i fun _ => r).registers i = r := by simp [MshrQueue.modify]
      have hresp : r.isForwardNoResponse = false := hm.responds hb
      rw [MshrQueue.markInService, hreg, Mshr.markInService, hresp]
      simp only [Bool.false_eq_true, if_false, MshrQueue.modify_modify]
      rfl
    have htags : c.tags = s.cache.tags := Cache.freed_tags ..
    have hbuffer : c.writeBuffer = s.cache.writeBuffer := Cache.queue_freed _ .mshrs .writeBuffer _
    have hpf : c.prefetcher = s.cache.prefetcher := Cache.freed_prefetcher ..
    have hresponses : c.responses = s.cache.responses :=
      congrArg (List.map Prod.snd) (Cache.freed_transmitList ..)
    obtain ⟨htidy, hfetch⟩ := hs.rewrite (r := { r with inService := true })
      (Function.update s.reply i (some response)) hmem rfl rfl hordered hspare
      (by rw [htags]; exact .refl _ _) (by rw [hpf]; exact hs.queued) hbuffer (by rw [hqueue]; rfl)
      (by rw [hqueue]; exact fun _ hk => List.mem_of_mem_erase hk) (by rw [hqueue]; rfl)
      (fun k hk => Function.update_of_ne hk ..)
      (by rw [Function.update_self]; exact hm.sent (hresponse (s.memory pkt.addr)))
    refine ⟨htidy, ?_, hrequests _ (by rw [hqueue]; rfl) ⟨true, by rw [hqueue]; rfl⟩, hresponses⟩
    -- the block of the miss is asked for and answered at once
    let b : cfg.geom.Block := ⟨(s.cache.mshrQueue.registers i).addr, hm.aligned hb⟩
    have hpending : ∀ w ∈ (s.view cfg).pending, w.1 ≠ b := by
      intro w hw hwb
      obtain ⟨j, hj, rfl⟩ := List.mem_map.1 hw
      have hj' := (hs.writes_wellFormed.mem_ready.1 hj).1
      apply hclear j hj'
      rw [← (hs.writes j hj').holds.aligned]
      exact congrArg Subtype.val hwb
    have hmoves := (Layers.Move.ask (s := s.view cfg) b hpending).one.tail (.send b (Function.update_self ..))
    refine moves_view hmoves (congrArg (Tags.line cfg.geom) htags) (congrArg (MshrQueue.writes cfg.geom) hbuffer)
      rfl ?_
    dsimp only at hfetch ⊢
    rw [if_pos rfl, Function.update_self] at hfetch
    rw [sent_update (b := b) hfetch, Function.update_idem]
    have hdata : s.memory pkt.addr = s.memory b.1 := congrArg s.memory haddr
    exact congrArg (fun v => Function.update (s.view cfg).fetch b (.answered v)) hdata

/-- A write that is sent leaves the buffer, and the others stay as they are. -/
theorem sent_entries {q : MshrQueue} (hq : q.WellFormed) {j : Nat} (hj : j ∈ q.readyList)
    (hb : (q.registers j).HoldsBlock cfg.geom) : ∀ k ∈ (q.markInService j).allocatedList,
      k ∈ q.allocatedList ∧ (q.markInService j).registers k = q.registers k := by
  unfold MshrQueue.markInService Mshr.markInService
  simp only [hq.forwards hj hb, if_true]
  intro k hk
  have hk' : k ∈ q.allocatedList.erase j := hk
  have hne : k ≠ j := fun e => hq.nodup_allocated.not_mem_erase (e ▸ hk')
  refine ⟨List.mem_of_mem_erase hk', ?_⟩
  simp [MshrQueue.deallocate, MshrQueue.modify, hne]

/-- The bus takes a write, or refuses it. -/
theorem drains_keeps (hs : s.cache.Tidy cfg s.reply) {j : Nat} (hj : j ∈ s.cache.writeBuffer.readyList)
    (hdrains : Drains cfg s j s') (hordered : s'.cache.Ordered cfg) (hspare : s'.cache.Spare cfg) :
    s.Keeps cfg s' := by
  have hq := hs.writes_wellFormed
  have hkept : ∀ k ∈ s'.cache.writeBuffer.allocatedList, k ∈ s.cache.writeBuffer.allocatedList ∧
      s'.cache.writeBuffer.registers k = s.cache.writeBuffer.registers k := by
    rcases hdrains.buffer with hbuffer | hbuffer
    · rw [hbuffer]
      exact fun k hk => ⟨hk, rfl⟩
    · rw [hbuffer]
      exact sent_entries hq hj (hs.writes j (hq.mem_ready.1 hj).1).holds
  refine ⟨⟨hordered, hspare, hdrains.tags ▸ hs.housed, hdrains.prefetcher ▸ hs.queued, hdrains.misses ▸ hs.distinct,
    ?_, ?_, ?_, ?_⟩, ?_, ?_, ?_⟩
  · rw [hdrains.misses, hdrains.reply, hdrains.tags]
    exact hs.misses
  · intro k hk
    obtain ⟨hk', hreg⟩ := hkept k hk
    rw [hreg]
    exact hs.writes k hk'
  · rw [hdrains.misses]
    intro i hi k hk
    obtain ⟨hk', hreg⟩ := hkept k hk
    rw [hreg]
    exact hs.younger i hi k hk'
  · rw [hdrains.misses, hdrains.tags]
    exact hs.fits
  · refine moves_view (hdrains.moves (s.view cfg) rfl rfl) (congrArg (Tags.line cfg.geom) hdrains.tags) rfl rfl ?_
    rw [hdrains.misses, hdrains.reply]
    rfl
  · rw [hdrains.misses]
  · exact congrArg (List.map Prod.snd) hdrains.responses

/-- A prefetch becomes a miss: its block is not in the cache, and nothing is asked for yet. -/
theorem ask_keeps (hs : s.cache.Tidy cfg s.reply) {p : Packet} (hp : IsPrefetch p)
    (hwanted : s.cache.wanted cfg p = true) {pf' : Prefetcher σ} {i : Nat} {c : Cache σ}
    (hmade : s.cache.MakesMiss cfg p pf' i c) (hpf : ∀ p ∈ c.prefetcher.pf, IsPrefetch p)
    (hordered : c.Ordered cfg) (hspare : c.Spare cfg) : s.Keeps cfg { s with cache := c } := by
  have hq := hs.misses_wellFormed
  simp only [Cache.wanted, Bool.and_eq_true, Option.isNone_iff_eq_none] at hwanted
  obtain ⟨habsent, hnone⟩ := hwanted
  have hresponses : c.responses = s.cache.responses := by
    rw [hmade.cache]
    exact Cache.allocateBuffer_responses ..
  have hfits : c.tags.Fits cfg.geom fun b =>
      b.1 ≠ cfg.geom.blockAlign p.addr ∧ s.cache.mshrQueue.findMatch b.1 = none := by
    rw [hmade.tags]
    refine hs.fits.update (cfg.geom.block p.addr) ?_ (fun _ _ _ h => ⟨h, rfl⟩) ?_
    · intro ptr hptr
      rw [show s.cache.tags.findBlock cfg.geom (cfg.geom.block p.addr).1 = none from habsent] at hptr
      cases hptr
    · intro b hb
      exact ⟨fun h => h.2, fun h => ⟨fun e => hb (Subtype.ext e), h⟩⟩
  have hmisses : p.Misses cfg.geom (s.cache.tags.findBlock cfg.geom p.addr).isSome := by
    refine .inr ⟨hp, ?_⟩
    rw [← Tags.findBlock_block, show s.cache.tags.findBlock cfg.geom (cfg.geom.block p.addr).1 = none from habsent]
    rfl
  have htidy : c.Tidy cfg s.reply := hs.enter hmisses hnone hordered hspare hmade.misses hmade.writes hpf
    (hmade.tags ▸ hs.housed) (fun _ => by rw [hmade.tags]) hfits
  refine ⟨htidy, moves_view (.refl _) (congrArg (Tags.line cfg.geom) hmade.tags)
    (congrArg (MshrQueue.writes cfg.geom) hmade.writes) rfl ?_, ?_, hresponses⟩
  · have hfetch : c.mshrQueue.fetch s.reply =
        Function.update (s.cache.mshrQueue.fetch s.reply) (cfg.geom.block p.addr).1 .waiting := by
      rw [hmade.misses]
      exact hq.fetch_allocate hs.distinct hnone hs.spare.free _ p _ _ s.reply
    dsimp only
    rw [sent_update hfetch]
    refine Function.update_eq_self_iff.2 ?_
    show Layers.Fetch.idle = (s.cache.mshrQueue.fetch s.reply (cfg.geom.blockAlign p.addr)).sent
    rw [MshrQueue.fetch_eq_idle hnone]
    rfl
  · show c.mshrQueue.requests = _
    rw [hmade.misses, hq.requests_allocate hs.spare.free, if_pos hp.cmd, List.append_nil]

/-- The entry that is chosen: a write that is the oldest of its block, or a miss with no
write to its block before it. -/
theorem next_keeps (P : Policy σ) (hs : s.cache.Tidy cfg s.reply) (hclear : s.cache.PrefetchClear cfg)
    {c : Cache σ} {o : Option MshrRef} (h : s.cache.getNextMSHR cfg = (c, o)) :
    s.Keeps cfg { s with cache := c } ∧ ∀ m, o = some m →
      (c = s.cache ∧ ∃ j, m = (.writeBuffer, j) ∧ s.cache.pendingMSHR = some m) ∨
      ∃ i, m = (.mshrs, i) ∧ i ∈ c.mshrQueue.readyList ∧ ∀ j ∈ c.writeBuffer.allocatedList,
        (c.writeBuffer.registers j).addr ≠ (c.mshrQueue.registers i).addr := by
  have hqueued : ∀ p ∈ c.prefetcher.pf, IsPrefetch p := by
    have := s.cache.getNextMSHR_queued cfg
    rw [h] at this
    exact fun p hp => hs.queued p (this p hp)
  cases Cache.next P { prefetch := Cache.Clear cfg } hs.ordered.sound.free h with
  | waiting hm =>
    rename_i m
    refine ⟨.congr hs hs.ordered hs.spare rfl rfl rfl hs.queued rfl, ?_⟩
    rintro _ ⟨⟩
    obtain ⟨_ | _, i⟩ := m
    · exact .inr ⟨i, rfl, Cache.pendingMSHR_ready hm, hs.chosen_clear hm⟩
    · exact .inl ⟨rfl, i, rfl, hm⟩
  | nothing _ hmicros =>
    exact ⟨.congr hs (Cache.invariant_of_micro (fun _ _ h hs => h.ordered hs) hmicros hs.ordered)
      (Cache.invariant_of_micro (fun _ _ h hs => h.spare hs) hmicros hs.spare) rfl rfl rfl hqueued rfl, by simp⟩
  | prefetch hp hwanted hmade hmicros =>
    have hmicros := hmicros fun _ => hclear _ hp
    have hkeeps := ask_keeps hs (hs.queued _ (Cache.nextPrefetch_queued hp)) hwanted hmade hqueued
      (Cache.invariant_of_micro (fun _ _ h hs => h.ordered hs) hmicros hs.ordered)
      (Cache.invariant_of_micro (fun _ _ h hs => h.spare hs) hmicros hs.spare)
    refine ⟨hkeeps, ?_⟩
    rintro _ ⟨⟩
    refine .inr ⟨_, rfl, hmade.entry.2.1, ?_⟩
    rw [hmade.writes, hmade.entry.2.2]
    intro j hj heq
    have hpos : 0 < cfg.geom.blkSize := Nat.two_pow_pos _
    apply hclear _ hp j hj
    show _ < _ ∧ _ < _
    simp only [Mshr.slot, heq, (hs.writes j hj).holds.size, Mshr.allocate]
    omega

theorem send_keeps (hs : s.cache.Tidy cfg s.reply) (hclear : s.cache.PrefetchClear cfg) (accept : Bool)
    (upward : Nat → SnoopAnswer) : s.Keeps cfg (s.step cfg P (.send accept upward)) := by
  have hcache : (s.step cfg P (.send accept upward)).cache = s.cache.step cfg P (.sendPacket accept upward) :=
    takeIf_cache ..
  have hordered : (s.step cfg P (.send accept upward)).cache.Ordered cfg := by
    rw [hcache]
    exact Cache.step_ordered hs.ordered (fun _ _ _ => hclear) trivial
  have hspare : (s.step cfg P (.send accept upward)).cache.Spare cfg := by
    rw [hcache]
    exact Cache.step_spare hs.spare trivial
  rcases @step_send σ cfg P s accept upward with ⟨port, heq⟩ | ⟨c, hnext, heq⟩ | ⟨c, m, hnext, heq⟩
  · rw [heq] at hordered hspare ⊢
    exact .congr hs hordered hspare rfl rfl rfl hs.queued rfl
  · obtain ⟨hkeeps, -⟩ := next_keeps P hs hclear hnext
    rw [heq] at hordered hspare ⊢
    exact hkeeps.trans (.congr hkeeps.tidy hordered hspare rfl rfl rfl hkeeps.tidy.queued rfl)
  · obtain ⟨hkeeps, hchoice⟩ := next_keeps P hs hclear hnext
    rw [heq] at hordered hspare ⊢
    rcases hchoice m rfl with ⟨rfl, j, rfl, hpending⟩ | ⟨i, rfl, hready, hnone⟩
    · have hq := hs.writes_wellFormed
      obtain ⟨l, l', hl, hfirst⟩ := oldest_write
        (fun i hi => (hs.writes i (hq.mem_ready.1 hi).1).holds.size) hpending
      exact drains_keeps hs (by simp [hl])
        (dispatch_drains hq (fun k hk => (hs.writes k hk).holds) hl hfirst accept upward) hordered hspare
    · exact hkeeps.trans (dispatch_keeps hkeeps.tidy hready hnone accept upward hordered hspare)

end System

/-! ## A response arrives -/

namespace Cache

variable {σ : Type} {cfg : Config} {P : Policy σ} {reply : Nat → Option Packet} {c c' : Cache σ}

/-- What is in the write buffer after at most one writeback. -/
theorem Posted.entries {g : Geometry} {q q' : MshrQueue} {time : Tick} {wbs : List Packet} (h : Posted q time wbs q')
    (hq : q.WellFormed) (hall : ∀ j ∈ q.allocatedList, (q.registers j).Posts g)
    (hnew : ∀ p ∈ wbs, ∃ (b : g.Block) (v : _), GivesBack g b v p ∧ b.1.toNat + g.blkSize < 2 ^ 64) :
    ∀ j ∈ q'.allocatedList, (q'.registers j).Posts g ∧
      ((j ∈ q.allocatedList ∧ q'.registers j = q.registers j) ∨ ∃ p ∈ wbs, (q'.registers j).addr = p.addr) := by
  cases h with
  | none => exact fun j hj => ⟨hall j hj, .inl ⟨hj, rfl⟩⟩
  | one p order =>
    obtain ⟨b, v, hgives, hlow⟩ := hnew p (List.mem_singleton.2 rfl)
    intro j hj
    have hholds := hq.holdsBlock_allocate (fun k hk => (hall k hk).holds) hgives time order j hj
    cases hi : (q.allocate p.addr p.size p time order).2 with
    | none =>
      have hsame : (q.allocate p.addr p.size p time order).1 = q := by
        unfold MshrQueue.allocate at hi ⊢
        cases hf : q.freeList with
        | nil => rfl
        | cons k rest =>
          rw [hf] at hi
          cases hi
      rw [hsame] at hj ⊢
      exact ⟨hall j hj, .inl ⟨hj, rfl⟩⟩
    | some i =>
      rcases hq.allocate_cases hi hj with ⟨rfl, -, hreg⟩ | ⟨hold, hreg⟩
      · have haddr : ((q.allocate p.addr p.size p time order).1.registers j).addr = p.addr := by
          rw [hreg]
          rfl
        refine ⟨⟨hholds, ?_, ?_⟩, .inr ⟨p, List.mem_singleton.2 rfl, haddr⟩⟩
        · rw [hreg]
          rfl
        · rw [haddr, hgives.addr]
          exact hlow
      · rw [hreg]
        exact ⟨hall j hold, .inl ⟨hold, rfl⟩⟩

/-- The permissions of the block of an entry that has been answered. -/
theorem answered_fits (hs : c.Tidy cfg reply) {i : Nat} (hi : i ∈ c.mshrQueue.allocatedList) {b : cfg.geom.Block}
    (hb : (c.mshrQueue.registers i).addr = b.1) {pkt : Packet} {present : Bool}
    (hresp : (c.mshrQueue.registers i).Response present pkt) (hshared : pkt.shared = true → pkt.cmd = .readResp)
    {q' : MshrQueue} {blk blk' : CacheBlk} {served : List Packet} {again : Bool}
    (hagain : again = true → pkt.shared = true) (hret : MshrQueue.Retires cfg.geom i served again c.mshrQueue q')
    (hstatus : blk.status = fillStatus pkt)
    (hserved : CacheBlk.Served (((c.mshrQueue.registers i).handleFill pkt).1.targets.list.any fun t =>
      t.pkt.cmd.needsExclusive) blk blk') :
    (blk'.hide again).status.Fits b (q'.findMatch b.1 = none) ∧
      (blk'.isDirty = true → b.1.toNat + cfg.geom.blkSize < 2 ^ 64 ∧ q'.findMatch b.1 = none) := by
  have hm := hs.misses i hi
  obtain ⟨-, hfilled⟩ := hm.filled pkt
  have hidle : q'.findMatch b.1 = none ↔ again = false := by
    rw [hret.idle]
    constructor
    · rintro (h | ⟨h, -⟩)
      · rw [hs.distinct.findMatch_eq_some.2 ⟨hi, hb⟩] at h
        cases h
      · exact h
    · exact fun h => .inr ⟨h, hb.symm⟩
  have hwritable : blk'.status.writable = !pkt.shared := by
    rw [hserved.writable, hstatus]
    rfl
  have hreadable : blk'.status.readable = true := by
    rw [hserved.readable, hstatus]
    rfl
  -- a shared block has been asked for by loads only, and a target that writes says where the block is
  have hdirty : blk'.isDirty = true → pkt.shared = false ∧ b.1.toNat + cfg.geom.blkSize < 2 ^ 64 := by
    intro hd
    have hblk : blk.isDirty = false := by
      rw [CacheBlk.isDirty, hstatus]
      simp [fillStatus, hresp.inhibit]
    have hany : (((c.mshrQueue.registers i).handleFill pkt).1.targets.list.any fun t =>
        t.pkt.cmd.needsExclusive) = true := by
      rw [← Bool.not_eq_false]
      intro hno
      rw [hserved.clean hno, hblk] at hd
      cases hd
    obtain ⟨t, ht, hx⟩ := List.any_eq_true.1 hany
    obtain ⟨hmem, hfirst⟩ :
        t ∈ (c.mshrQueue.registers i).targets.list ++ (c.mshrQueue.registers i).deferredTargets.list ∧
        (pkt.shared = true → t ∈ (c.mshrQueue.registers i).targets.list) := by
      rcases hfilled with ⟨-, -, hsame⟩ | ⟨-, hlist, hnil⟩
      · exact ⟨List.mem_append_left _ (hsame ▸ ht), fun _ => hsame ▸ ht⟩
      · rw [hlist] at ht
        refine ⟨ht, fun h => ?_⟩
        rwa [hnil h, List.append_nil] at ht
    have hasks := hm.asks t hmem
    refine ⟨?_, ?_⟩
    · rw [← Bool.not_eq_true]
      intro h
      have hloads : (c.mshrQueue.registers i).targets.needsExclusive = false := by
        cases present with
        | true =>
          have := (hresp.upgrade rfl).symm.trans (hshared h)
          cases this
        | false =>
          rcases hresp.read rfl with hex | ⟨-, hno⟩
          · have := hex.symm.trans (hshared h)
            cases this
          · exact hno
      rw [hm.exclusive t (hfirst h) hx] at hloads
      cases hloads
    · rcases hasks.kind with ⟨-, hcpu, -⟩ | ⟨-, hpf⟩
      · have := hcpu.low
        rwa [hasks.block, hb] at this
      · rw [hpf.cmd] at hx
        cases hx
  rw [CacheBlk.hide_status]
  refine ⟨⟨?_, ?_, ?_⟩, ?_⟩
  · intro hd
    obtain ⟨hns, hlow⟩ := hdirty hd
    exact ⟨by simp [hwritable, hns], hlow⟩
  · rw [hidle]
    simp [hreadable]
  · intro hw
    rw [hidle, ← Bool.not_eq_true]
    intro ha
    simp [hwritable, hagain ha] at hw
  · intro hd
    obtain ⟨hns, hlow⟩ := hdirty hd
    refine ⟨hlow, hidle.2 ?_⟩
    rw [← Bool.not_eq_true]
    intro ha
    rw [hagain ha] at hns
    cases hns

section

variable {b : cfg.geom.Block} {pkt : Packet} {v : List UInt8} {blk : CacheBlk} {again : Bool} {i : Nat}
  {served : List Packet}

/-- The writebacks of a response are of blocks for which no miss is outstanding. -/
theorem Landing.writebacks (h : Landing cfg b pkt v blk again c c') (hs : c.Tidy cfg reply)
    (hret : MshrQueue.Retires cfg.geom i served again c.mshrQueue c'.mshrQueue)
    (hdirty : blk.isDirty = true → b.1.toNat + cfg.geom.blkSize < 2 ^ 64 ∧ c'.mshrQueue.findMatch b.1 = none) :
    ∃ wbs, Posted c.writeBuffer (c.curTick + cfg.geom.hitLatency) wbs c'.writeBuffer ∧
      ∀ p ∈ wbs, ∃ (b' : cfg.geom.Block) (v' : List UInt8), GivesBack cfg.geom b' v' p ∧
        b'.1.toNat + cfg.geom.blkSize < 2 ^ 64 ∧ c'.mshrQueue.findMatch b'.1 = none := by
  cases h with
  | cached t ptr line wbs room arrived received housed filled inert tags posted =>
    refine ⟨wbs, posted, ?_⟩
    cases room with
    | free => exact fun p hp => by cases hp
    | clean => exact fun p hp => by cases hp
    | dirty b' v' p held idle gives =>
      intro p' hp'
      obtain rfl := List.mem_singleton.1 hp'
      refine ⟨b', v', gives, ?_, (hret.idle _).2 (.inl idle)⟩
      obtain ⟨ptr', hfound, hblk⟩ := Option.map_eq_some_iff.1 held
      exact ((hs.fits b' ptr' hfound).dirty (congrArg Prod.snd hblk)).2
  | passed wbs absent arrived same written posted =>
    refine ⟨wbs, posted, ?_⟩
    rcases written with ⟨-, rfl⟩ | ⟨hd, p, rfl, gives⟩
    · exact fun p hp => by cases hp
    · intro p' hp'
      obtain rfl := List.mem_singleton.1 hp'
      exact ⟨b, blk.data, gives, hdirty hd⟩

/-- The blocks of other misses are where they were. -/
theorem Landing.present (h : Landing cfg b pkt v blk again c c') {b' : cfg.geom.Block} (hne : b' ≠ b)
    (hbusy : c.mshrQueue.findMatch b'.1 ≠ none) :
    (c'.tags.findBlock cfg.geom b'.1).isSome = (c.tags.findBlock cfg.geom b'.1).isSome := by
  cases h with
  | cached t ptr line wbs room arrived received housed filled inert tags posted =>
    have hline : ∀ t : Tags, (t.findBlock cfg.geom b'.1).isSome = (t.line cfg.geom b').isSome := fun t => by
      simp [Tags.line]
    have hroom : line b' = c.tags.line cfg.geom b' := by
      cases room with
      | free => rfl
      | clean x _ _ idle => exact Function.update_of_ne (fun e : b' = x => hbusy (e ▸ idle)) ..
      | dirty x _ _ _ idle _ => exact Function.update_of_ne (fun e : b' = x => hbusy (e ▸ idle)) ..
    rw [tags, Tags.findBlock_modify inert, hline, hline, filled, Function.update_of_ne hne, hroom]
  | passed wbs absent arrived same written posted => rw [same.find]

/-- The permissions of the blocks fit the misses that are left. -/
theorem Landing.fits (h : Landing cfg b pkt v blk again c c') (hs : c.Tidy cfg reply)
    (hb : (c.mshrQueue.registers i).addr = b.1)
    (hret : MshrQueue.Retires cfg.geom i served again c.mshrQueue c'.mshrQueue)
    (hblk : (blk.hide again).status.Fits b (c'.mshrQueue.findMatch b.1 = none)) :
    c'.tags.Housed cfg.geom ∧ c'.tags.Fits cfg.geom fun b => c'.mshrQueue.findMatch b.1 = none := by
  have hidle : ∀ b' : cfg.geom.Block, b' ≠ b →
      (c'.mshrQueue.findMatch b'.1 = none ↔ c.mshrQueue.findMatch b'.1 = none) := by
    intro b' hne
    rw [hret.idle, or_iff_left]
    rintro ⟨-, h⟩
    exact hne (Subtype.ext (h.trans hb))
  cases h with
  | cached t ptr line wbs room arrived received housed filled inert tags posted =>
    have hfind : ∀ a, c'.tags.findBlock cfg.geom a = t.findBlock cfg.geom a := by
      intro a
      rw [tags, Tags.findBlock_modify inert]
    refine ⟨tags ▸ housed.modify inert, hs.fits.update b ?_ ?_ hidle⟩
    · intro p hp
      rw [hfind, received.here] at hp
      cases hp
      rw [tags, Tags.modify_self]
      exact hblk
    · intro b' hne p hp
      rw [hfind] at hp
      have hpp : p ≠ ptr := by
        rintro rfl
        exact hne ((Tags.findBlock_inj hp received.here).trans (Geometry.block_val b))
      obtain ⟨hold, hst⟩ := received.rest b' hne p hp
      rw [tags, Tags.modify_of_ne t hpp]
      exact ⟨hold, hst⟩
  | passed wbs absent arrived same written posted =>
    refine ⟨same.housed hs.housed, hs.fits.update b ?_ ?_ hidle⟩
    · intro p hp
      rw [same.find, absent] at hp
      cases hp
    · intro b' hne p hp
      rw [same.find] at hp
      exact ⟨hp, same.status _ _ hp⟩

/-- The invariant after a response. Nothing waits to be written to its block, whose old
contents it has read from the memory. -/
theorem Landing.tidy (h : Landing cfg b pkt v blk again c c') (hs : c.Tidy cfg reply)
    (hi : i ∈ c.mshrQueue.allocatedList) (hb : (c.mshrQueue.registers i).addr = b.1)
    (hclear : ∀ j ∈ c.writeBuffer.allocatedList, (c.writeBuffer.registers j).addr ≠ b.1)
    (hret : MshrQueue.Retires cfg.geom i served again c.mshrQueue c'.mshrQueue)
    (hblk : (blk.hide again).status.Fits b (c'.mshrQueue.findMatch b.1 = none))
    (hdirty : blk.isDirty = true → b.1.toNat + cfg.geom.blkSize < 2 ^ 64 ∧ c'.mshrQueue.findMatch b.1 = none)
    (hordered : c'.Ordered cfg) (hspare : c'.Spare cfg) (hpf : c'.prefetcher.pf = c.prefetcher.pf) :
    c'.Tidy cfg reply := by
  obtain ⟨wbs, hposted, hwbs⟩ := h.writebacks hs hret hdirty
  obtain ⟨hhoused, hfits⟩ := h.fits hs hb hret hblk
  have hentries := hposted.entries hs.writes_wellFormed hs.writes fun p hp =>
    (hwbs p hp).imp fun _ h => h.imp fun _ h => ⟨h.1, h.2.1⟩
  have hq := hs.misses_wellFormed
  have hq' : c'.mshrQueue.WellFormed := hordered.sound.queues .mshrs
  refine ⟨hordered, hspare, hhoused, hpf ▸ hs.queued, hret.distinct, ?_, fun j hj => (hentries j hj).1, ?_, hfits⟩
  · intro k hk
    by_cases hki : k = i
    · subst hki
      exact (hret.self hk).2.2 _ _
    · obtain ⟨hold, hreg⟩ := hret.rest k hk hki
      rw [hreg]
      have hm := hs.misses k hold
      let b' : cfg.geom.Block := ⟨(c.mshrQueue.registers k).addr, hm.aligned (hq.busy k hold)⟩
      have hne : b' ≠ b := by
        intro e
        exact hki (hs.distinct k hold i hi ((congrArg Subtype.val e).trans hb.symm))
      have hbusy : c.mshrQueue.findMatch b'.1 ≠ none := by
        rw [hs.distinct.findMatch_eq_some.2 ⟨hold, rfl⟩]
        simp
      have hpresent := h.present hne hbusy
      rw [show (c'.tags.findBlock cfg.geom (c.mshrQueue.registers k).addr).isSome = _ from hpresent]
      exact hm
  · intro k hk j hj haddr
    obtain ⟨hmem, hin⟩ := hq'.mem_ready.1 hk
    obtain ⟨-, ⟨hj', hreg⟩ | ⟨p, hp, hpaddr⟩⟩ := hentries j hj
    · rw [hreg] at haddr ⊢
      by_cases hki : k = i
      · subst hki
        exact absurd (haddr.trans ((hret.self hmem).2.1.trans hb)) (hclear j hj')
      · obtain ⟨hold, hsame⟩ := hret.rest k hmem hki
        rw [hsame] at hin haddr ⊢
        exact hs.younger k (hq.mem_ready.2 ⟨hold, hin⟩) j hj' haddr
    · obtain ⟨b', _, hgives, -, hidle⟩ := hwbs p hp
      rw [MshrQueue.findMatch_eq_none] at hidle
      exact absurd (haddr.symm.trans (hpaddr.trans hgives.addr)) (hidle k hmem)

end

end Cache

namespace Node

variable {σ : Type} {cfg : Config} {P : Policy σ} {s s' : Node σ}

variable (s') in
/-- What is seen of a block is what the response brings or the cache holds, and what it
holds after the targets are served is written to it. -/
theorem landing_moves {b : cfg.geom.Block} {pkt : Packet} {v : List UInt8} {blk : CacheBlk} {again : Bool}
    (h : Cache.Landing cfg b pkt v blk again s.cache s'.cache) (hs : s.cache.Tidy cfg s.reply)
    (hgood : (s.view cfg).Good) (hanswer : (s.view cfg).fetch b = .answered pkt.data)
    (hfree : s.cache.writeBuffer.freeList ≠ [])
    (htouch : blk.isDirty = true ∨ (blk.isDirty = false ∧ blk.data = v)) (hmemory : s'.memory = s.memory)
    (hfetch : (fun b : cfg.geom.Block => (s'.cache.mshrQueue.fetch s'.reply b.1).sent) =
      Function.update (s.view cfg).fetch b .idle) :
    (s.view cfg).seen b = v ∧ ∃ ws, Layers.Moves (s.view cfg) ws (s'.view cfg) ∧ (∀ w ∈ ws, w.2 = blk.data) ∧
      Layers.settled (s.view cfg).seen ws = Function.update (s.view cfg).seen b blk.data := by
  have hq := hs.writes_wellFormed
  have hlate := hs.ordered.timely
  have hmem : (fun b : cfg.geom.Block => s'.memory b.1) = (s.view cfg).memory := by
    rw [hmemory]
    rfl
  cases h with
  | cached t ptr line wbs room arrived received housed filled inert tags posted =>
    have hroom := MakesRoom.moves (S := s.view cfg) room (fun b' hb' => by
      show (s.cache.mshrQueue.fetch s.reply b'.1).sent = _
      rw [MshrQueue.fetch_eq_idle hb']
      rfl) posted rfl hq hfree hlate
    let S₁ : Layers.Store cfg.geom.Block (List UInt8) :=
      { s.view cfg with cached := line, pending := s'.cache.writeBuffer.writes cfg.geom }
    let S₂ : Layers.Store cfg.geom.Block (List UInt8) :=
      { S₁ with cached := Function.update line b (some (v, false)), fetch := Function.update S₁.fetch b .idle }
    have hfill : Layers.Moves S₁ [] S₂ ∧ S₁.seen b = v := by
      rcases arrived with ⟨hnone, rfl⟩ | hheld
      · exact ⟨(Layers.Move.fill (s := S₁) b pkt.data hnone hanswer).one,
          Layers.Store.Good.seen_answered (s := S₁) (hroom.good hgood) hnone hanswer⟩
      · have hself : Function.update line b (some (v, false)) = line := by
          rw [← hheld, Function.update_eq_self]
        refine ⟨?_, ?_⟩
        · simp only [S₂, hself]
          exact (Layers.Move.cancel (s := S₁) b).one
        · simp [Layers.Store.seen, S₁, hheld]
    have hmoves := hroom.trans hfill.1
    have hseen : S₂.seen = (s.view cfg).seen := hmoves.seen_eq hgood
    have hbefore : S₁.seen = (s.view cfg).seen := hroom.seen_eq hgood
    obtain ⟨ws, htouched, hws, hsettled⟩ := Layers.Moves.touch S₂ (k := b) blk.data
      (Function.update_self ..) htouch
    refine ⟨by rw [← hbefore]; exact hfill.2, ws, ?_, hws, by rw [← hseen]; exact hsettled⟩
    refine System.moves_view (hmoves.trans htouched) ?_ rfl hmem hfetch
    show s'.cache.tags.line cfg.geom = Function.update (Function.update line b (some (v, false))) b _
    rw [tags, Tags.line_modify inert received.here, filled]
    have hdata : (blk.hide again).data = blk.data := (CacheBlk.hide_eq again blk).2.2
    have hdirty : (blk.hide again).isDirty = blk.isDirty := by
      rw [CacheBlk.isDirty, CacheBlk.hide_status]
      rfl
    rw [hdata, hdirty]
  | passed wbs absent arrived same written posted =>
    have hnone : (s.view cfg).cached b = none := Tags.line_eq_none.2 absent
    have hseen : (s.view cfg).seen b = v := (hgood.seen_answered hnone hanswer).trans arrived.symm
    have hcancel := (Layers.Move.cancel (s := s.view cfg) b).one
    refine ⟨hseen, ?_⟩
    rcases written with ⟨hclean, rfl⟩ | ⟨-, p, rfl, gives⟩
    · obtain ⟨-, hsame⟩ := htouch.resolve_left (by simp [hclean])
      refine ⟨[], System.moves_view hcancel same.line ?_ hmem hfetch, by simp, ?_⟩
      · show s'.cache.writeBuffer.writes cfg.geom = s.cache.writeBuffer.writes cfg.geom
        generalize s'.cache.writeBuffer = w at posted ⊢
        cases posted
        rfl
      · rw [hsame, ← hseen, Function.update_eq_self]
        rfl
    · have hpost := Layers.Move.post (s := { s.view cfg with fetch := Function.update (s.view cfg).fetch b .idle })
        b blk.data hnone (Function.update_self ..)
      refine ⟨[(b, blk.data)], System.moves_view (hcancel.tail hpost) same.line ?_ hmem hfetch, by simp, rfl⟩
      generalize s'.cache.writeBuffer = w at posted ⊢
      cases posted with
      | one _ order => exact hq.writes_allocate hfree gives hlate order

theorem respond_advances (hs : s.cache.Tidy cfg s.reply) (hgood : (s.view cfg).Good)
    (hsizes : (s.view cfg).All fun v => v.length = cfg.geom.blkSize) {i : Nat} {shared : Bool}
    (firstWordTime finishTime : Tick) (henabled : s.Enabled cfg (.respond i shared firstWordTime finishTime)) :
    s.Advances cfg [] (s.step cfg P (.respond i shared firstWordTime finishTime)) := by
  obtain ⟨hi, hin, hshared, hfree⟩ := henabled
  have hm := hs.misses i hi
  have hq := hs.misses_wellFormed
  obtain ⟨hforward, p, hreply, hresp⟩ := hm.answer hin
  let pkt : Packet := { p with shared, firstWordTime, finishTime }
  have hstep : s.step cfg P (.respond i shared firstWordTime finishTime) =
      { s with cache := s.cache.step cfg P (.response (.mshrs, i) pkt noSnoops) } := by
    simp only [step, System.step, hreply]
    rfl
  have henabled : s.cache.Enabled cfg (.response (.mshrs, i) pkt noSnoops) := ⟨hi, hin⟩
  have hordered : (s.cache.step cfg P (.response (.mshrs, i) pkt noSnoops)).Ordered cfg :=
    Cache.step_ordered hs.ordered (fun _ _ h => by cases h) henabled
  have hspare : (s.cache.step cfg P (.response (.mshrs, i) pkt noSnoops)).Spare cfg :=
    Cache.step_spare hs.spare henabled
  -- the block of the entry
  let b : cfg.geom.Block := ⟨(s.cache.mshrQueue.registers i).addr, hm.aligned (hq.busy i hi)⟩
  have hanswer : (s.view cfg).fetch b = .answered pkt.data := by
    show (s.cache.mshrQueue.fetch s.reply (s.cache.mshrQueue.registers i).addr).sent = _
    rw [hs.distinct.fetch_self s.reply hi, hin, hreply]
    rfl
  have hclear : ∀ j ∈ s.cache.writeBuffer.allocatedList, (s.cache.writeBuffer.registers j).addr ≠ b.1 := by
    intro j hj haddr
    have hposts := hs.writes j hj
    refine hgood.clear b (by rw [hanswer]; simp) ((s.cache.writeBuffer.registers j).write cfg.geom) ?_ ?_
    · exact List.mem_map.2 ⟨j, hs.writes_wellFormed.mem_ready.2 ⟨hj, hposts.waits⟩, rfl⟩
    · exact Subtype.ext (hposts.holds.aligned.trans haddr)
  have hresp' : (s.cache.mshrQueue.registers i).Response (s.cache.tags.findBlock cfg.geom b.1).isSome pkt :=
    ⟨hresp.addr, hresp.inhibit, hresp.upgrade, hresp.read⟩
  have hread : pkt.shared = true → pkt.cmd = .readResp := by
    intro h
    have := hshared h
    rw [hreply] at this
    simpa using this
  obtain ⟨ops, blk, blk', hstatus, hlen, hans, hland⟩ := Cache.handleResponse_fills (P := P) hs
    (fun b c h => hsizes.cached b c h) hi hforward (b := b) rfl hresp' (hsizes.fetch b _ hanswer) noSnoops
  obtain ⟨hagain, hret⟩ := hq.retires hs.distinct hi hm s.cache.curTick pkt
  rw [hstep]
  change Cache.Answered cfg i b _ ops blk blk' s.cache (s.cache.step cfg P (.response (.mshrs, i) pkt noSnoops)) at hans
  change Cache.Landing cfg b pkt _ blk' _ s.cache (s.cache.step cfg P (.response (.mshrs, i) pkt noSnoops)) at hland
  generalize s.cache.step cfg P (.response (.mshrs, i) pkt noSnoops) = c' at hordered hspare hans hland ⊢
  rw [← hans.misses] at hret
  obtain ⟨hfits, hdirty⟩ := Cache.answered_fits hs hi (b := b) rfl hresp' hread hagain hret hstatus hans.served
  have hclean : blk.isDirty = false := by
    rw [CacheBlk.isDirty, hstatus]
    simp [fillStatus, hresp'.inhibit]
  have htouch : blk'.isDirty = true ∨ (blk'.isDirty = false ∧ blk'.data = blk.data) := by
    rw [← hclean]
    exact hans.served.dirty
  have hfetch : (fun b' : cfg.geom.Block => (c'.mshrQueue.fetch s.reply b'.1).sent) =
      Function.update (s.view cfg).fetch b .idle := by
    rw [System.sent_update (b := b) (hret.fetch s.reply)]
    refine congrArg (Function.update (s.view cfg).fetch b) ?_
    split <;> rfl
  obtain ⟨hseen, ws, hmoves, hws, hsettled⟩ := landing_moves { s with cache := c' } hland hs hgood hanswer
    hfree htouch rfl hfetch
  refine ⟨hland.tidy hs hi rfl hclear hret hfits hdirty hordered hspare hans.prefetches, ops, ws, hmoves, ?_, ?_, ?_,
    answers_perm hans.responses⟩
  · intro w hw
    rw [hws w hw, hans.served.length]
    exact hlen
  · rw [hsettled]
    exact hans.performed.performs _ hseen
  · rw [List.append_nil, hans.requests]
    exact hret.requests

/-! ## Runs -/

structure Inv (cfg : Config) (s : Node σ) : Prop where
  tidy : s.cache.Tidy cfg s.reply
  good : (s.view cfg).Good
  sizes : (s.view cfg).All fun v => v.length = cfg.geom.blkSize

theorem initial_inv (cfg : Config) (policy : σ) {memory : Addr → List UInt8}
    (hmem : ∀ a, (memory a).length = cfg.geom.blkSize) : (initial cfg policy memory).Inv cfg := by
  obtain ⟨-, -, hsizes, hgood, -⟩ := System.initial_inv cfg policy hmem
  refine ⟨Cache.initial_tidy cfg policy _, ?_, ?_⟩
  · exact ⟨hgood.clean, fun b h => absurd rfl h, fun b v h => by cases h⟩
  · exact ⟨hsizes.cached, hsizes.pending, hsizes.memory, fun b v h => by cases h⟩

/-- A step that advances keeps the invariant, and is accounted for. -/
theorem Advances.serves {a : Action} (hi : s.Inv cfg)
    (h : s.Advances cfg ((server cfg P).arriving s a) (s.step cfg P a)) :
    (s.step cfg P a).Inv cfg ∧ (server cfg P).Serves s a := by
  obtain ⟨htidy, ops, ws, hmoves, hlen, hperf, hrequests, hanswers⟩ := h
  refine ⟨⟨htidy, hmoves.good hi.good, hmoves.all hi.sizes hlen⟩, ops, ?_, hrequests, hanswers⟩
  show (cpuMeaning cfg.geom).Performs (s.value cfg) ops ((s.step cfg P a).value cfg)
  rw [System.value_eq_view, System.value_eq_view, hmoves.seen_eq hi.good]
  exact hperf

/-- A step that leaves the queues and the tags alone. -/
theorem congr_advances (hs : s.cache.Tidy cfg s.reply) {c : Cache σ} {sent : List Packet}
    (hordered : c.Ordered cfg) (hspare : c.Spare cfg) (hqueue : c.mshrQueue = s.cache.mshrQueue)
    (hbuffer : c.writeBuffer = s.cache.writeBuffer) (htags : c.tags = s.cache.tags)
    (hpf : c.prefetcher = s.cache.prefetcher) (hanswers : sent ++ c.responses = s.answers) :
    s.Advances cfg [] { s with cache := c, delivered := sent } := by
  refine .quiet (hs.congr hordered hspare hqueue hbuffer (hpf ▸ hs.queued) htags)
    (System.moves_view (.refl _) (congrArg (Tags.line cfg.geom) htags) (congrArg (MshrQueue.writes cfg.geom) hbuffer)
      rfl ?_) ?_ (List.Perm.of_eq hanswers)
  · show (fun b : cfg.geom.Block => (c.mshrQueue.fetch s.reply b.1).sent) = _
    rw [hqueue]
    rfl
  · show (s.cache.mshrQueue.requests ++ []).Perm c.mshrQueue.requests
    rw [hqueue, List.append_nil]

theorem step_advances (hi : s.Inv cfg) {a : Action} (he : s.Enabled cfg a) :
    s.Advances cfg ((server cfg P).arriving s a) (s.step cfg P a) := by
  have hs := hi.tidy
  cases a with
  | tick n =>
    have hordered : (s.cache.step cfg P (.tick n)).Ordered cfg :=
      Cache.step_ordered hs.ordered (fun _ _ h => by cases h) trivial
    have hspare : (s.cache.step cfg P (.tick n)).Spare cfg := Cache.step_spare hs.spare trivial
    exact congr_advances hs hordered hspare rfl rfl rfl rfl rfl
  | request pkt =>
    cases hblocked : s.cache.cpuSidePort.blocked with
    | false =>
      have harriving : (server cfg P).arriving s (.request pkt) = [pkt] := by simp [server, hblocked]
      rw [harriving]
      exact request_advances hs hi.sizes he hblocked
    | true =>
      -- refused: only the port notes that a retry is owed
      obtain ⟨hreq, -, -, -, hpf, -⟩ := MemCmd.ofCpu_attributes (c := pkt.cmd) he.cmd
      have henabled : s.cache.Enabled cfg (.cpuPacket pkt) := ⟨hpf, .inl hreq⟩
      have hordered : (s.cache.step cfg P (.cpuPacket pkt)).Ordered cfg :=
        Cache.step_ordered hs.ordered (fun _ _ h => by cases h) henabled
      have hspare : (s.cache.step cfg P (.cpuPacket pkt)).Spare cfg := Cache.step_spare hs.spare henabled
      have hcache : s.cache.step cfg P (.cpuPacket pkt) =
          { s.cache with cpuSidePort := { s.cache.cpuSidePort with mustSendRetry := true } } := by
        simp [Cache.step, Cache.cpuRecvTiming, hreq, he.inhibit, hblocked]
      have harriving : (server cfg P).arriving s (.request pkt) = [] := by simp [server, hblocked]
      have hstep : s.step cfg P (.request pkt) = { s with cache := s.cache.step cfg P (.cpuPacket pkt) } := rfl
      rw [harriving, hstep]
      rw [hcache] at hordered hspare ⊢
      exact congr_advances hs hordered hspare rfl rfl rfl rfl rfl
  | send accept =>
    obtain ⟨htidy, hmoves, hrequests, hresponses⟩ := System.send_keeps (P := P) hs he accept noSnoops
    refine .quiet htidy hmoves ?_ (List.Perm.of_eq (congrArg (s.delivered ++ ·) hresponses))
    exact List.Perm.of_eq ((List.append_nil _).trans hrequests.symm)
  | respond i shared firstWordTime finishTime =>
    exact respond_advances hs hi.good hi.sizes firstWordTime finishTime he
  | deliver =>
    have hordered : (s.cache.step cfg P .cpuSend).Ordered cfg :=
      Cache.step_ordered hs.ordered (fun _ _ h => by cases h) trivial
    have hspare : (s.cache.step cfg P .cpuSend).Spare cfg := Cache.step_spare hs.spare trivial
    refine congr_advances hs hordered hspare rfl rfl rfl rfl ?_
    show (s.delivered ++ (s.cache.cpuSidePort.transmitList.map Prod.snd).head?.toList) ++
      s.cache.cpuSidePort.transmitList.tail.map Prod.snd = s.delivered ++ _
    rw [List.append_assoc]
    cases s.cache.cpuSidePort.transmitList <;> rfl

/-- The cache and its memory are a flat memory: the requests that have been performed
after each step of a run, one after another and each once, make what is seen of the
memory and the responses given so far; the others wait. -/
theorem flat_memory (cfg : Config) (P : Policy σ) (policy : σ) (memory : Addr → List UInt8)
    (hmem : ∀ a, (memory a).length = cfg.geom.blkSize) (as : List Action)
    (hen : Runs.Guarded (step cfg P) (Enabled cfg) (initial cfg policy memory) as) :
    ∃ ops : Nat → List (Packet × Packet), ∀ n ≤ as.length, (server cfg P).Accounts (initial cfg policy memory)
      ((server cfg P).arrived (initial cfg policy memory) (as.take n)) ((List.range n).flatMap ops)
      (Runs.exec (step cfg P) (initial cfg policy memory) (as.take n)) := by
  apply Serving.Server.history
  exact Runs.guarded_of_invariant (fun _ _ hi he => ((step_advances hi he).serves hi).1)
    (fun _ _ hi he => ((step_advances hi he).serves hi).2) as _ (initial_inv cfg policy hmem) hen

/-- The block of a load comes shared while a store to it waits; the store upgrades it, and
a second load hits. -/
def upgradeRun : List Action :=
  [.request (load 1 4096), .tick 1, .send true,
    .request { load 2 4096 with cmd := .writeReq, data := List.replicate 8 7 }, .respond 0 true 0 0, .tick 1,
    .send true, .respond 0 false 0 0, .request (load 1 4096), .deliver, .deliver, .deliver]

theorem flat_memory_upgrade :
    let cfg := smallConfig 6
    let S := server cfg (proxy 0 dcpt)
    let s := initial cfg Dcpt.initial fun _ => List.replicate 64 0
    ∃ ops : Nat → List (Packet × Packet), ∀ n ≤ upgradeRun.length,
      S.Accounts s (S.arrived s (upgradeRun.take n)) ((List.range n).flatMap ops)
        (Runs.exec (step cfg (proxy 0 dcpt)) s (upgradeRun.take n)) :=
  flat_memory (smallConfig 6) (proxy 0 dcpt) Dcpt.initial (fun _ => List.replicate 64 0)
    (fun _ => List.length_replicate) upgradeRun (by decide +kernel)

end Node

end PrefetchSim
