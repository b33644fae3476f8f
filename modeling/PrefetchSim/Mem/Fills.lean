import PrefetchSim.Mem.Node

/- The response to a miss, as a whole.

   `handleResponse` fills the block of the entry, serves its targets on the block,
   frees the entry or lets the deferred targets wait for the bus, and buffers the
   writebacks that this makes. `Answered` says what becomes of the block, the entry
   and the responses, and `Landing` where the block is afterwards: in the cache, or,
   if there was no frame for it, in the write buffer if a target has written to it
   and nowhere if not. -/
namespace PrefetchSim

/-! ## The block -/

/-- A block for which a miss is outstanding again may not be read. -/
def CacheBlk.hide (again : Bool) (b : CacheBlk) : CacheBlk :=
  if again then { b with status := { b.status with readable := false } } else b

namespace CacheBlk

theorem hide_status (again : Bool) (b : CacheBlk) :
    (b.hide again).status = { b.status with readable := b.status.readable && !again } := by
  cases again <;> simp [hide]

theorem hide_eq (again : Bool) (b : CacheBlk) :
    (b.hide again).tag = b.tag ∧ (b.hide again).set = b.set ∧ (b.hide again).data = b.data := by
  cases again <;> exact ⟨rfl, rfl, rfl⟩

end CacheBlk

/-! ## The entry's part -/

namespace Cache

variable {σ : Type} {cfg : Config} {P : Policy σ} {s : Cache σ}

theorem clearNoTarget_responses (m : MshrRef) (s : Cache σ) : (s.clearNoTarget m).responses = s.responses := by
  unfold clearNoTarget clearBlocked responses
  split
  · dsimp only
    split <;> rfl
  · rfl

theorem copyWritebacks_responses (wbs : List Packet) (time : Tick) (s : Cache σ) :
    (s.copyWritebacks wbs time).responses = s.responses :=
  copyWritebacks_keeps responses (fun _ _ _ => allocateBuffer_responses ..) wbs time s

/-- The end of an entry, as the block and the responses see it. -/
theorem retire_block (m : MshrRef) (ptr : BlkPtr) (s : Cache σ) :
    (s.retire m (some ptr)).tags =
      (s.tags.modify ptr fun b => b.hide ((s.register m).promoteDeferredTargets s.curTick).2) ∧
    (s.retire m (some ptr)).responses = s.responses := by
  unfold retire
  generalize (s.register m).promoteDeferredTargets s.curTick = p
  obtain ⟨r, again⟩ := p
  cases again with
  | true => exact ⟨setQueue_tags .., by cases m.1 <;> rfl⟩
  | false =>
    refine ⟨(freed_tags ..).trans (modify_id s.tags ptr).symm, ?_⟩
    exact congrArg (List.map Prod.snd) (freed_transmitList ..)

variable (cfg P) in
/-- The target loop, as the block and the responses see it. -/
theorem serviceTargets_service (m : MshrRef) (a : Answer) (s : Cache σ) :
    let service := (s.register m).targets.list.foldl (serviceTarget cfg P a)
      { tags := s.tags, prefetcher := s.prefetcher, cpuSidePort := s.cpuSidePort, memSidePort := s.memSidePort }
    (s.serviceTargets cfg P m a).tags = service.tags ∧
      (s.serviceTargets cfg P m a).responses = service.cpuSidePort.transmitList.map Prod.snd :=
  ⟨rfl, rfl⟩

/-- What a response has done: the requests `ops` are performed on the block `b`, which
is `blk` before and `blk'` after them, and the entry, with its targets as they are in
`r`, is done with. -/
structure Answered (cfg : Config) (i : Nat) (b : cfg.geom.Block) (r : Mshr) (ops : List (Packet × Packet))
    (blk blk' : CacheBlk) (s s' : Cache σ) : Prop where
  requests : ops.map Prod.fst = cpuPackets r.targets.list
  performed : (cpuMeaning cfg.geom).Chain b blk.data ops blk'.data
  served : CacheBlk.Served (r.targets.list.any fun t => t.pkt.cmd.needsExclusive) blk blk'
  responses : s'.responses.Perm (s.responses ++ ops.map Prod.snd)
  misses : s'.mshrQueue = s.mshrQueue.finish i s.curTick r.served
  prefetches : s'.prefetcher.pf = s.prefetcher.pf

theorem Answered.congr {i : Nat} {b : cfg.geom.Block} {r : Mshr} {ops : List (Packet × Packet)} {blk blk' : CacheBlk}
    {s₀ s₁ s' : Cache σ} (h : Answered cfg i b r ops blk blk' s₀ s₁) (hs : s₀ = s.clearNoTarget (.mshrs, i))
    (hmisses : s'.mshrQueue = s₁.mshrQueue) (hpf : s'.prefetcher = s₁.prefetcher)
    (hresponses : s'.responses = s₁.responses) : Answered cfg i b r ops blk blk' s s' := by
  subst hs
  refine ⟨h.requests, h.performed, h.served, ?_, ?_, ?_⟩
  · rw [hresponses, ← clearNoTarget_responses (.mshrs, i) s]
    exact h.responses
  · rw [hmisses, h.misses, clearNoTarget_curTick]
    exact congrArg (fun q : MshrQueue => q.finish i s.curTick r.served) (clearNoTarget_queue _ s .mshrs)
  · rw [hpf, h.prefetches, clearNoTarget_prefetcher]

/-- Responses to the requests of misses are fills. -/
theorem response_attributes {c : MemCmd} (h : c = .upgradeResp ∨ c = .readExResp ∨ c = .readResp) :
    (c.isRead || c == .upgradeResp) = true ∧ c.isError = false ∧ c.isInvalidate = false ∧ c ≠ .networkNackError ∧
      (c = .upgradeResp ↔ c.isRead = false) := by
  rcases h with rfl | rfl | rfl <;> decide

theorem answer_fills {i : Nat} {pkt : Packet} {b : cfg.geom.Block} {present : Bool} {reply : Option Packet}
    (hm : (s.mshrQueue.registers i).Awaits cfg.geom present reply)
    (hforward : (s.mshrQueue.registers i).isForward = false) (hb : (s.mshrQueue.registers i).addr = b.1)
    (hcmd : pkt.cmd = .upgradeResp ∨ pkt.cmd = .readExResp ∨ pkt.cmd = .readResp)
    {f : Tags × BlkPtr × List Packet}
    (hf : PrefetchSim.handleFill cfg.geom s.tags s.mshrQueue s.curTick pkt (s.tags.findBlock cfg.geom pkt.addr) = f)
    (hlen : (f.1.blks f.2.1).data.length = cfg.geom.blkSize) (upward : Nat → SnoopAnswer) :
    let r := ((s.mshrQueue.registers i).handleFill pkt).1
    let s' := (s.answer cfg P (.mshrs, i) pkt upward).1
    ∃ ops blk, Answered cfg i b r ops (f.1.blks f.2.1) blk s s' ∧ s'.writeBuffer = s.writeBuffer ∧
      s'.tags = (f.1.modify f.2.1 fun _ => blk.hide (r.served.promoteDeferredTargets s.curTick).2) ∧
      (s.answer cfg P (.mshrs, i) pkt upward).2 = (some f.2.1, f.2.2) := by
  intro r s'
  obtain ⟨hfill, herror, hinval, -⟩ := response_attributes hcmd
  obtain ⟨hpkt, hfilled⟩ := hm.filled pkt
  have hasks : ∀ t ∈ r.targets.list, t.Asks cfg.geom b.1 := by
    rw [← hb]
    intro t ht
    apply hm.asks
    rcases hfilled with ⟨-, -, hsame⟩ | ⟨-, hlist, -⟩
    · exact List.mem_append_left _ (hsame ▸ ht)
    · exact hlist ▸ ht
  have hwf : s.tags.WellFormed cfg.geom → f.1.WellFormed cfg.geom := by
    intro ht
    rw [← hf]
    exact ht.handleFill s.mshrQueue s.curTick rfl
  obtain ⟨s₁, hs₁⟩ : ∃ s₁ : Cache σ, s₁ = { s.setRegister (.mshrs, i) r with tags := f.1 } := ⟨_, rfl⟩
  let a : Answer := {
    pkt, isFill := true, blk := some f.2.1, upward, now := s₁.curTick
    initialOffset := ((s₁.register (.mshrs, i)).getTarget.map (·.pkt.getOffset cfg.geom.blkSize)).getD 0
    pendingInvalidate := (s₁.register (.mshrs, i)).pendingInvalidate }
  have ha : a.Fills f.2.1 := ⟨rfl, rfl, herror, hinval⟩
  -- the parts of `answer` one after another
  have hanswer : s.answer cfg P (.mshrs, i) pkt upward =
      ((s₁.serviceTargets cfg P (.mshrs, i) a).retire (.mshrs, i) (some f.2.1), some f.2.1, f.2.2) := by
    have hreg : s.register (.mshrs, i) = s.mshrQueue.registers i := rfl
    unfold answer answerOf isFill fill
    simp only [hreg, hforward, hfill, herror, Bool.not_false, Bool.and_self, if_true, hpkt, hf, invalidateAfter,
      hinval, Bool.false_eq_true, if_false]
    subst hs₁
    rfl
  have hreg₁ : s₁.register (.mshrs, i) = r := by
    rw [hs₁]
    exact register_setRegister s (.mshrs, i) r
  obtain ⟨ops, hops, hchain⟩ := serviceTargets_chain (P := P) ha r.targets.list hasks
    { tags := s₁.tags, prefetcher := s₁.prefetcher, cpuSidePort := s₁.cpuSidePort, memSidePort := s₁.memSidePort }
    (by rw [hs₁]; exact hlen)
  have hcore : SameCore cfg.geom
      { s.setRegister (.mshrs, i) r.served with
        prefetcher := servePrefetches P a.blk.isSome r.targets.list s.prefetcher }
      (s₁.serviceTargets cfg P (.mshrs, i) a) := by
    rw [hs₁]
    exact serviceTargets_core P hwf a
  have hdone := retire_core hcore (some f.2.1)
  obtain ⟨hservice, hservice'⟩ := serviceTargets_service cfg P (.mshrs, i) a s₁
  rw [hreg₁] at hservice hservice'
  obtain ⟨htags, hresponses⟩ := retire_block (.mshrs, i) f.2.1 (s₁.serviceTargets cfg P (.mshrs, i) a)
  have hserved : (s₁.serviceTargets cfg P (.mshrs, i) a).register (.mshrs, i) = r.served := by
    refine Eq.trans ?_ (register_setRegister s (.mshrs, i) r.served)
    exact congrArg (fun q : MshrQueue => q.registers i) hcore.mshrQueue
  have hs' : s' = (s₁.serviceTargets cfg P (.mshrs, i) a).retire (.mshrs, i) (some f.2.1) :=
    congrArg Prod.fst hanswer
  have hf₁ : s₁.tags = f.1 := by rw [hs₁]
  generalize List.foldl (serviceTarget cfg P a) _ _ = service at hchain hservice hservice'
  refine ⟨ops, service.tags.blks f.2.1, ⟨hops, ?_, ?_, ?_, ?_, ?_⟩, ?_, ?_, ?_⟩
  · rw [← hf₁]
    exact hchain.performed
  · rw [← hf₁]
    exact hchain.served
  · rw [hs', hresponses, hservice']
    have hport : s₁.cpuSidePort = s.cpuSidePort := by
      rw [hs₁]
      rfl
    have := hchain.responses
    dsimp only at this
    rwa [hport] at this
  · rw [hs', hdone.mshrQueue]
    exact (queue_settle (.mshrs, i) r s .mshrs).trans (if_pos rfl)
  · rw [hs', hdone.prefetcher]
    exact servePrefetches_pf ..
  · rw [hs', hdone.writeBuffer]
    exact (queue_settle (.mshrs, i) r s .writeBuffer).trans (if_neg (by simp))
  · have hnow : (s₁.serviceTargets cfg P (.mshrs, i) a).curTick = s.curTick := hcore.curTick
    rw [hs', htags, hserved, hnow, hservice]
    have hall := hchain.tags
    rw [show ({ tags := s₁.tags, prefetcher := s₁.prefetcher, cpuSidePort := s₁.cpuSidePort
                memSidePort := s₁.memSidePort } : Service σ).tags = f.1 from hf₁] at hall
    conv_lhs => rw [hall]
    simp [Tags.modify]
  · rw [hanswer]

/-! ## The response -/

/-- The temporary block is given up; if it is dirty it goes to the write buffer. -/
theorem clearTemp_posted (ht : s.tags.WellFormed cfg.geom) (time : Tick) :
    let s' := s.clearTemp cfg (some .temp) time
    s'.mshrQueue = s.mshrQueue ∧ s'.prefetcher = s.prefetcher ∧ s'.responses = s.responses ∧
      Tags.SameBlocks cfg.geom s.tags s'.tags ∧
      Posted s.writeBuffer time
        (if (s.tags.blks .temp).isDirty then [writebackPacket cfg.geom s.curTick (s.tags.blks .temp)] else [])
        s'.writeBuffer := by
  unfold clearTemp
  simp only [if_true]
  split
  · have htags : ∀ p, (({ s with tags := (writebackBlk cfg.geom s.tags s.curTick .temp).1 } :
        Cache σ).allocateWriteBuffer p time).tags = (writebackBlk cfg.geom s.tags s.curTick .temp).1 := fun p => allocateBuffer_tags ..
    refine ⟨allocateWriteBuffer_mshrQueue .., allocateBuffer_prefetcher .., allocateBuffer_responses .., ?_, ?_⟩
    · rw [htags]
      exact (Tags.sameBlocks_temp cfg.geom s.tags _).trans (Tags.sameBlocks_invalidate (ht.modify (.inl rfl)))
    · have hbuffer : ∀ p, (({ s with tags := (writebackBlk cfg.geom s.tags s.curTick .temp).1 } :
          Cache σ).allocateWriteBuffer p time).writeBuffer =
          (s.writeBuffer.allocate p.addr p.size p time s.order).1 := fun p => allocateWriteBuffer_writeBuffer ..
      show Posted s.writeBuffer time _ (({ s with tags := (writebackBlk cfg.geom s.tags s.curTick .temp).1 } :
          Cache σ).allocateWriteBuffer _ time).writeBuffer
      rw [hbuffer]
      exact .one _ s.order
  · exact ⟨rfl, rfl, rfl, Tags.sameBlocks_invalidate ht, .none⟩

/-- Where the block `b` is after the response `pkt`: it held `v` before the targets were
served and is `blk` after them. -/
inductive Landing (cfg : Config) (b : cfg.geom.Block) (pkt : Packet) (v : List UInt8) (blk : CacheBlk) (again : Bool)
    (s s' : Cache σ) : Prop where
  | cached (t : Tags) (ptr : BlkPtr) (line : cfg.geom.Block → Option (List UInt8 × Bool)) (wbs : List Packet)
      (room : MakesRoom cfg.geom s.mshrQueue (s.tags.line cfg.geom) line wbs)
      (arrived : (line b = none ∧ v = pkt.data) ∨ line b = some (v, false))
      (received : Tags.Receives cfg.geom b pkt ptr s.tags t) (housed : t.Housed cfg.geom)
      (filled : t.line cfg.geom = Function.update line b (some (v, false)))
      (inert : t.Inert ptr fun _ => blk.hide again)
      (tags : s'.tags = t.modify ptr fun _ => blk.hide again)
      (posted : Posted s.writeBuffer (s.curTick + cfg.geom.hitLatency) wbs s'.writeBuffer)
  | passed (wbs : List Packet) (absent : s.tags.findBlock cfg.geom b.1 = none) (arrived : v = pkt.data)
      (same : Tags.SameBlocks cfg.geom s.tags s'.tags)
      (written : (blk.isDirty = false ∧ wbs = []) ∨
        (blk.isDirty = true ∧ ∃ p, wbs = [p] ∧ GivesBack cfg.geom b blk.data p))
      (posted : Posted s.writeBuffer (s.curTick + cfg.geom.hitLatency) wbs s'.writeBuffer)

theorem handleResponse_fills {reply : Nat → Option Packet} (hs : s.Tidy cfg reply)
    (hsizes : ∀ b c, s.tags.line cfg.geom b = some c → c.1.length = cfg.geom.blkSize) {i : Nat}
    (hi : i ∈ s.mshrQueue.allocatedList) (hforward : (s.mshrQueue.registers i).isForward = false)
    {b : cfg.geom.Block} (hb : (s.mshrQueue.registers i).addr = b.1) {pkt : Packet}
    (hresp : (s.mshrQueue.registers i).Response (s.tags.findBlock cfg.geom b.1).isSome pkt)
    (hlen : pkt.data.length = cfg.geom.blkSize) (upward : Nat → SnoopAnswer) :
    let r := ((s.mshrQueue.registers i).handleFill pkt).1
    let s' := s.handleResponse cfg P (.mshrs, i) pkt upward
    ∃ ops blk blk', blk.status = fillStatus pkt ∧ blk.data.length = cfg.geom.blkSize ∧
      Answered cfg i b r ops blk blk' s s' ∧
      Landing cfg b pkt blk.data blk' (r.served.promoteDeferredTargets s.curTick).2 s s' := by
  intro r s'
  have hm := hs.misses i hi
  have haddr : pkt.addr = b.1 := hresp.addr.trans hb
  have hcmd : pkt.cmd = .upgradeResp ∨ pkt.cmd = .readExResp ∨ pkt.cmd = .readResp := by
    cases hp : (s.tags.findBlock cfg.geom b.1).isSome with
    | true => exact .inl (hresp.upgrade hp)
    | false => exact .inr ((hresp.read hp).imp_right fun h => h.1)
  obtain ⟨-, -, -, hnack, hread⟩ := response_attributes hcmd
  have hclean : (fillStatus pkt).dirty = false := by simp [fillStatus, hresp.inhibit]
  -- the entry that has run out of targets changes nothing that matters here
  obtain ⟨s₀, hs₀⟩ : ∃ s₀, s₀ = s.clearNoTarget (.mshrs, i) := ⟨_, rfl⟩
  have hq₀ : s₀.mshrQueue = s.mshrQueue := by
    rw [hs₀]
    exact clearNoTarget_queue _ s .mshrs
  have hw₀ : s₀.writeBuffer = s.writeBuffer := by
    rw [hs₀]
    exact clearNoTarget_queue _ s .writeBuffer
  have ht₀ : s₀.tags = s.tags := by rw [hs₀, clearNoTarget_tags]
  have hn₀ : s₀.curTick = s.curTick := by rw [hs₀, clearNoTarget_curTick]
  obtain ⟨f, hf⟩ : ∃ f, PrefetchSim.handleFill cfg.geom s.tags s.mshrQueue s.curTick pkt
      (s.tags.findBlock cfg.geom pkt.addr) = f := ⟨_, rfl⟩
  have hanswer := fun hsize => answer_fills (s := s₀) (P := P) (f := f) (b := b) (by rw [hq₀]; exact hm)
    (by rw [hq₀]; exact hforward) (by rw [hq₀]; exact hb) hcmd (by rw [hq₀, ht₀, hn₀]; exact hf) hsize upward
  have hstep : s' = ((s₀.answer cfg P (.mshrs, i) pkt upward).1.copyWritebacks
      (s₀.answer cfg P (.mshrs, i) pkt upward).2.2 (s.curTick + cfg.geom.hitLatency)).clearTemp cfg
      (s₀.answer cfg P (.mshrs, i) pkt upward).2.1 (s.curTick + cfg.geom.hitLatency) := by
    simp only [s', handleResponse, if_neg hnack, hs₀]
  generalize s₀.answer cfg P (.mshrs, i) pkt upward = A at hanswer hstep
  obtain ⟨s₁, o, wbs⟩ := A
  dsimp only at hanswer hstep
  rw [hq₀, hw₀, hn₀] at hanswer
  -- a block in a frame stays there
  have hstays : ∀ {t ptr line wbs'}, f = (t, ptr, wbs') → ptr ≠ .temp → (t.blks ptr).data.length = cfg.geom.blkSize →
      MakesRoom cfg.geom s.mshrQueue (s.tags.line cfg.geom) line wbs' →
      ((line b = none ∧ (t.blks ptr).data = pkt.data) ∨ line b = some ((t.blks ptr).data, false)) →
      Tags.Receives cfg.geom b pkt ptr s.tags t → t.Housed cfg.geom →
      t.line cfg.geom = Function.update line b (some ((t.blks ptr).data, false)) →
      ∃ ops blk blk', blk.status = fillStatus pkt ∧ blk.data.length = cfg.geom.blkSize ∧
        Answered cfg i b r ops blk blk' s s' ∧
        Landing cfg b pkt blk.data blk' (r.served.promoteDeferredTargets s.curTick).2 s s' := by
    rintro t ptr line wbs' rfl hptr hsize hroom harrived hrec hhoused hline
    obtain ⟨ops, blk', hans, hwrites, htags, hout⟩ := hanswer hsize
    cases hout
    have hclear : ∀ c : Cache σ, c.clearTemp cfg (some ptr) (s.curTick + cfg.geom.hitLatency) = c := by
      intro c
      simp [clearTemp, hptr]
    rw [hclear] at hstep
    have hlast := hans.served
    refine ⟨ops, t.blks ptr, blk', hrec.status, hsize, ?_, ?_⟩
    · rw [hstep]
      exact hans.congr hs₀ (copyWritebacks_mshrQueue ..) (copyWritebacks_prefetcher ..) (copyWritebacks_responses ..)
    · refine .cached t ptr line _ hroom harrived hrec hhoused hline ?_ ?_ ?_
      · obtain ⟨htag, hset, -⟩ := CacheBlk.hide_eq (r.served.promoteDeferredTargets s.curTick).2 blk'
        refine .inr ⟨htag.trans hlast.tag, hset.trans hlast.set, ?_⟩
        rw [CacheBlk.isValid, CacheBlk.hide_status]
        exact hlast.valid
      · rw [hstep, copyWritebacks_tags]
        exact htags
      · rw [hstep, ← hwrites]
        exact copyWritebacks_posted hroom _ s₁
  cases hfound : s.tags.findBlock cfg.geom b.1 with
  | some ptr =>
    have hupgrade : pkt.cmd.isRead = false := hread.1 (hresp.upgrade (by rw [hfound]; rfl))
    rw [haddr, hfound] at hf
    obtain ⟨hhoused, hout, hrec, hdata, hline⟩ := handleFill_present hs.housed s.mshrQueue s.curTick hfound hupgrade
    rw [hf] at hhoused hout hrec hdata hline
    -- a miss is outstanding, so the block is not writable and thus clean
    have hold : s.tags.line cfg.geom b = some ((s.tags.blks ptr).data, false) := by
      have hfits := hs.fits b ptr hfound
      have hbusy : s.mshrQueue.findMatch b.1 ≠ none := by
        rw [hs.distinct.findMatch_eq_some.2 ⟨hi, hb⟩]
        simp
      have hnot : (s.tags.blks ptr).isDirty = false := by
        rw [← Bool.not_eq_true]
        exact fun hd => hbusy (hfits.writable (hfits.dirty hd).1)
      rw [Tags.line, hfound, Option.map_some, hnot]
    obtain ⟨t, ptr', wbs'⟩ := f
    cases hout
    rw [hclean, ← hdata] at hline
    refine hstays rfl (fun e => Tags.findBlock_ne_temp (e ▸ hfound)) ?_ .free (.inr ?_) hrec hhoused hline
    · rw [hdata]
      exact hsizes b _ hold
    · rw [hdata]
      exact hold
  | none =>
    have hreads : pkt.cmd.isRead = true := by
      rcases hresp.read (by rw [hfound]; rfl) with h | ⟨h, -⟩
      · rw [h]
        rfl
      · rw [h]
        rfl
    have hblock : cfg.geom.block pkt.addr = b := by
      rw [haddr]
      exact Geometry.block_val b
    have habsent : s.tags.findBlock cfg.geom pkt.addr = none := by
      rw [haddr]
      exact hfound
    rw [habsent] at hf
    obtain ⟨hhoused, hcases⟩ := handleFill_absent hs.ordered.sound.tags hs.housed s.mshrQueue s.curTick habsent hreads
    have hwf := hs.ordered.sound.tags.handleFill s.mshrQueue s.curTick habsent
    rw [hf] at hhoused hcases hwf
    rw [hclean, hblock] at hcases
    obtain ⟨t, ptr, wbs'⟩ := f
    dsimp only at hhoused hcases hwf hanswer
    rcases hcases with ⟨line, hroom, hptr, hline, hrec, hdata⟩ | ⟨rfl, rfl, -, hstatus, hsame, hdata, htarget⟩
    · refine hstays rfl hptr ?_ hroom (.inl ⟨?_, hdata⟩) hrec hhoused ?_
      · rw [hdata]
        exact hlen
      · exact hroom.absent (Tags.line_eq_none.2 hfound)
      · rw [hdata]
        exact hline
    · -- there is no frame: the targets are served on the temporary block
      obtain ⟨ops, blk', hans, hwrites, htags, hout⟩ := hanswer (by rw [hdata]; exact hlen)
      cases hout
      have hinert : t.Inert .temp fun _ => blk'.hide (r.served.promoteDeferredTargets s.curTick).2 := .inl rfl
      obtain ⟨hq, hp, hr, hsame', hposted⟩ := clearTemp_posted (s := s₁) (by rw [htags]; exact hwf.modify hinert)
        (s.curTick + cfg.geom.hitLatency)
      have hs' : s' = s₁.clearTemp cfg (some .temp) (s.curTick + cfg.geom.hitLatency) := hstep
      rw [← hs'] at hq hp hr hsame' hposted
      have htemp : s₁.tags.blks .temp = blk'.hide (r.served.promoteDeferredTargets s.curTick).2 := by
        rw [htags, Tags.modify_self]
      have hdirty : (blk'.hide (r.served.promoteDeferredTargets s.curTick).2).isDirty = blk'.isDirty := by
        rw [CacheBlk.isDirty, CacheBlk.hide_status]
        rfl
      obtain ⟨htag, hset, hsame₂⟩ := CacheBlk.hide_eq (r.served.promoteDeferredTargets s.curTick).2 blk'
      rw [hwrites, htemp, hdirty] at hposted
      refine ⟨ops, t.blks .temp, blk', hstatus, by rw [hdata]; exact hlen, hans.congr hs₀ hq hp hr,
        .passed _ hfound hdata ?_ ?_ hposted⟩
      · rw [htags] at hsame'
        exact (hsame.trans (Tags.sameBlocks_temp cfg.geom t _)).trans hsame'
      · cases hd : blk'.isDirty with
        | false => exact .inl ⟨rfl, rfl⟩
        | true =>
          refine .inr ⟨rfl, _, rfl, rfl, ?_, rfl, hsame₂⟩
          show cfg.geom.regenerateBlkAddr _ _ = b.1
          rw [htag, hset, hans.served.tag, hans.served.set, htarget, haddr]
          exact b.2

end Cache

end PrefetchSim
