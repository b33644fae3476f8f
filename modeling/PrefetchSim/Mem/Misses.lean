import PrefetchSim.Mem.Blocked

/- What a step of the cache does to its misses: to the miss queue, to the entry that
   has run out of targets and to the bit of `blocked` for it.

   Entries are made at two places, for a demand miss and for a prefetch that is taken
   off its queue, and each of them first looks for an entry of the block; an uncached
   read takes an entry without looking. A request joins an entry only while the port
   is open. `step_misses` says that a step is a sequence of such operations, snoops
   apart: `snoopTiming_misses` says what a snoop does. -/
namespace PrefetchSim

structure Misses where
  queue : MshrQueue
  noTarget : Option MshrRef
  /-- the bit for `Blocked_NoTargets` -/
  noTargets : Bool

namespace Misses

/-- A request joins entry `i`, which may be its last target. -/
def join (cfg : Config) (v : Misses) (i : Nat) (pkt : Packet) (time : Tick) (order : Nat) : Misses :=
  let r := (v.queue.registers i).allocateTarget pkt time order
  let queue := v.queue.modify i fun _ => r
  if r.getNumTargets = cfg.numTarget then { queue, noTarget := some (.mshrs, i), noTargets := true }
  else { v with queue }

/-- A response to entry `m` has come, so it has room for targets again. -/
def clear (v : Misses) (m : MshrRef) : Misses :=
  if v.noTarget = some m then { v with noTarget := none, noTargets := false } else v

@[simp] theorem clear_queue (v : Misses) (m : MshrRef) : (v.clear m).queue = v.queue := by
  unfold clear
  split <;> rfl

@[simp] theorem join_queue (cfg : Config) (v : Misses) (i : Nat) (pkt : Packet) (time : Tick) (order : Nat) :
    (v.join cfg i pkt time order).queue =
      v.queue.modify i fun _ => (v.queue.registers i).allocateTarget pkt time order := by
  unfold join
  dsimp only
  split <;> rfl

end Misses

/-- What a step other than a snoop does to the misses; if its request is cacheable, a new
entry is for a block that has none. -/
inductive MissStep (cfg : Config) (cacheable : Prop) (v : Misses) : Misses → Prop where
  | allocate (addr : Addr) (size : Nat) (pkt : Packet) (time : Tick) (order : Nat)
      (fresh : cacheable → v.queue.findMatch addr = none) :
      MissStep cfg cacheable v { v with queue := (v.queue.allocate addr size pkt time order).1 }
  | join (i : Nat) (pkt : Packet) (time : Tick) (order : Nat) (mem : i ∈ v.queue.allocatedList)
      (demand : pkt.cmd ≠ .hardPFReq) (room : v.noTargets = false) :
      MissStep cfg cacheable v (v.join cfg i pkt time order)
  | flags (i : Nat) (forward pending : Bool) (mem : i ∈ v.queue.allocatedList) :
      MissStep cfg cacheable v { v with queue := v.queue.modify i fun _ =>
        { v.queue.registers i with isForward := forward, downstreamPending := pending } }
  | sent (i : Nat) (ready : i ∈ v.queue.readyList) :
      MissStep cfg cacheable v { v with queue := v.queue.markInService i }
  | bail (i : Nat) (target : Target) (ready : i ∈ v.queue.readyList)
      (first : (v.queue.registers i).getTarget = some target) (pf : target.pkt.cmd = .hardPFReq) :
      MissStep cfg cacheable v { v with queue := v.queue.bailOut i }
  | answer (i : Nat) (now : Tick) (r : Mshr) (mem : i ∈ v.queue.allocatedList)
      (filled : r = v.queue.registers i ∨ ∃ pkt, r = ((v.queue.registers i).handleFill pkt).1) :
      MissStep cfg cacheable v { v.clear (.mshrs, i) with queue := v.queue.finish i now r.served }
  /-- the response to a write -/
  | written (i : Nat) : MissStep cfg cacheable v (v.clear (.writeBuffer, i))

abbrev MissSteps (cfg : Config) (cacheable : Prop) : Misses → Misses → Prop :=
  Relation.ReflTransGen (MissStep cfg cacheable)

/-- New entries are for addresses without one. -/
def Entering.fresh (cacheable : Prop) (q : MshrQueue) : Entering :=
  ⟨fun addr _ _ _ _ => cacheable → q.findMatch addr = none, fun _ _ _ _ => True⟩

theorem MissStep.queueStep {cfg : Config} {cacheable : Prop} {v v' : Misses} (h : MissStep cfg cacheable v v') :
    QueueStep (.fresh cacheable v.queue) .mshrs v.queue v'.queue := by
  cases h with
  | allocate addr size pkt time order fresh => exact .allocate addr size pkt time order (by simp) fresh
  | join i pkt time order mem demand room =>
    rw [Misses.join_queue]
    exact .target i pkt time order mem rfl demand trivial
  | flags i forward pending mem => exact .flags i forward pending mem
  | sent i ready => exact .sent i ready
  | bail i target ready first pf => exact .bail i target ready first pf
  | answer i now r mem filled => exact .finish i now r mem filled
  | written i =>
    rw [Misses.clear_queue]
    exact .same

namespace Cache

variable {σ : Type} {cfg : Config} {P : Policy σ} {s : Cache σ} {cacheable : Prop}

def misses (s : Cache σ) : Misses :=
  ⟨s.mshrQueue, s.noTargetMSHR, s.blocked.getLsbD BlockedCause.noTargets.bit⟩

/-! ## The parts of a step -/

theorem misses_setBlocked (idx : QueueIdx) (s : Cache σ) : (s.setBlocked idx.cause).misses = s.misses := by
  have hother : idx.cause ≠ .noTargets := by cases idx <;> decide
  simp [misses, setBlocked, BitVec.getLsbD_or, getLsbD_flag, hother]

theorem misses_clearBlocked (idx : QueueIdx) (s : Cache σ) : (s.clearBlocked idx.cause).misses = s.misses := by
  have hother : idx.cause ≠ .noTargets := by cases idx <;> decide
  simp only [misses, clearBlocked, BitVec.getLsbD_and, getLsbD_not_flag, decide_eq_true hother, Bool.and_true]

theorem misses_setQueue (idx : QueueIdx) (q : MshrQueue) (s : Cache σ) :
    (s.setQueue idx q).misses = if idx = .mshrs then { s.misses with queue := q } else s.misses := by
  cases idx <;> rfl

theorem misses_freed (idx : QueueIdx) (q : MshrQueue) (s : Cache σ) :
    (s.freed idx q).misses = if idx = .mshrs then { s.misses with queue := q } else s.misses := by
  unfold freed
  split
  · rw [misses_clearBlocked, misses_setQueue]
  · rw [misses_setQueue]

theorem misses_allocateBuffer (idx : QueueIdx) (addr : Addr) (size : Nat) (pkt : Packet) (time : Tick)
    (s : Cache σ) : (s.allocateBuffer idx addr size pkt time).1.misses =
      if idx = .mshrs then { s.misses with queue := (s.mshrQueue.allocate addr size pkt time s.order).1 }
      else s.misses := by
  unfold allocateBuffer
  dsimp only
  split
  · rw [misses_setBlocked]
    cases idx <;> rfl
  · cases idx <;> rfl

theorem misses_clearNoTarget (m : MshrRef) (s : Cache σ) : (s.clearNoTarget m).misses = s.misses.clear m := by
  unfold clearNoTarget Misses.clear
  by_cases h : s.noTargetMSHR = some m
  · rw [if_pos h, if_pos (show s.misses.noTarget = some m from h)]
    simp only [misses, clearBlocked, BitVec.getLsbD_and, getLsbD_not_flag, ne_eq, not_true_eq_false,
      decide_false, Bool.and_false]
  · rw [if_neg h, if_neg (show ¬s.misses.noTarget = some m from h)]

theorem misses_addTarget (i : Nat) (pkt : Packet) (time : Tick) (s : Cache σ) :
    (s.addTarget cfg i pkt time).misses = s.misses.join cfg i pkt time s.order := by
  unfold addTarget Misses.join
  dsimp only
  by_cases h : ((s.mshrQueue.registers i).allocateTarget pkt time s.order).getNumTargets = cfg.numTarget
  · rw [if_pos h, if_pos (show ((s.misses.queue.registers i).allocateTarget pkt time
      s.order).getNumTargets = cfg.numTarget from h)]
    simp [misses, setBlocked, BitVec.getLsbD_or, getLsbD_flag]
    rfl
  · rw [if_neg h, if_neg (show ¬((s.misses.queue.registers i).allocateTarget pkt time
      s.order).getNumTargets = cfg.numTarget from h)]
    rfl

theorem misses_bailOut (m : MshrRef) (target : Target) (s : Cache σ) : (s.bailOut m target).misses =
    if m.1 = .mshrs then { s.misses with queue := s.mshrQueue.bailOut m.2 } else s.misses := by
  rw [bailOut_eq]
  obtain ⟨_ | _, i⟩ := m <;> rfl

theorem misses_settle (m : MshrRef) (r : Mshr) (s : Cache σ) : (s.settle m r).misses =
    if m.1 = .mshrs then { s.misses with queue := s.mshrQueue.finish m.2 s.curTick r.served }
    else s.misses := by
  unfold settle
  split
  · rw [misses_setQueue]
    obtain ⟨_ | _, i⟩ := m <;> rfl
  · rw [misses_freed]
    obtain ⟨_ | _, i⟩ := m <;> rfl

theorem misses_copyWritebacks (wbs : List Packet) (time : Tick) (s : Cache σ) :
    (s.copyWritebacks wbs time).misses = s.misses :=
  copyWritebacks_keeps misses (fun _ _ _ => misses_allocateBuffer .writeBuffer ..) wbs time s

theorem misses_clearTemp (blk : Option BlkPtr) (time : Tick) (s : Cache σ) :
    (s.clearTemp cfg blk time).misses = s.misses := by
  unfold clearTemp
  split
  · dsimp only
    split
    · exact misses_allocateBuffer .writeBuffer ..
    · rfl
  · rfl

theorem misses_hideBlock (blk : Option BlkPtr) (s : Cache σ) : (s.hideBlock blk).misses = s.misses := by
  unfold hideBlock
  split
  · split <;> rfl
  · rfl

theorem misses_hitPath (r : AccessResult) (time : Tick) (s : Cache σ) :
    (s.hitPath cfg P r time).misses = s.misses := by
  unfold hitPath
  cases r.blk <;> dsimp only <;> split <;> split <;> rfl

/-! ## Requests from the CPU side -/

theorem PortExact.noTargets (hp : s.PortExact) (hopen : s.cpuSidePort.blocked = false) :
    s.misses.noTargets = false := by
  have hzero : s.blocked = 0 := by
    rw [hp] at hopen
    simpa using hopen
  simp [misses, hzero]

/-- A demand miss makes a new entry if there is none for its block, or joins the one
there is. -/
theorem missPath_misses {r : AccessResult} {time : Tick} (hp : r.pkt.cmd ≠ .hardPFReq)
    (hroom : s.misses.noTargets = false) :
    MissSteps cfg cacheable s.misses (s.missPath cfg P r time).misses := by
  unfold missPath
  cases hm : s.mshrQueue.findMatch (cfg.geom.blockAlign r.pkt.addr) with
  | some i =>
    show MissSteps cfg cacheable s.misses (s.addTarget cfg i r.pkt time).misses
    rw [misses_addTarget]
    exact .single (.join i r.pkt time s.order (List.mem_of_find?_eq_some hm) hp hroom)
  | none =>
    dsimp only
    split
    · have hsame := misses_allocateBuffer .writeBuffer r.pkt.addr r.pkt.size r.pkt time s
      show MissSteps cfg cacheable s.misses (s.allocateWriteBuffer r.pkt time).misses
      rw [show (s.allocateWriteBuffer r.pkt time).misses = s.misses from hsame]
    · have hnew := misses_allocateBuffer .mshrs (cfg.geom.blockAlign r.pkt.addr) cfg.geom.blkSize r.pkt
        time (s.hideBlock r.blk)
      have core := hideBlock_sameCore cfg.geom r.blk s
      rw [if_pos rfl, misses_hideBlock, core.mshrQueue, core.order] at hnew
      show MissSteps cfg cacheable s.misses ((s.hideBlock r.blk).allocateMissBuffer cfg r.pkt time).1.misses
      rw [allocateMissBuffer, hnew]
      exact .single (.allocate _ _ r.pkt time s.order fun _ => hm)

theorem timingAccess_misses {pkt : Packet} (hp : pkt.cmd ≠ .hardPFReq)
    (hc : cacheable → pkt.req.uncacheable = false)
    (hroom : pkt.cmd.isResponse = false → pkt.memInhibit = false → s.misses.noTargets = false) :
    MissSteps cfg cacheable s.misses (s.timingAccess cfg P pkt).misses := by
  unfold timingAccess
  dsimp only
  split
  · exact .refl
  rename_i hresp
  split
  · exact .refl
  rename_i hinh
  have hfree := hroom (by simpa using hresp) (by simpa using hinh)
  split
  · rename_i hunc
    split
    · have hsame := misses_allocateBuffer .writeBuffer pkt.addr pkt.size pkt
        (s.curTick + cfg.geom.hitLatency) s
      rw [show (s.allocateWriteBuffer pkt _).misses = s.misses from hsame]
    · have hnew := misses_allocateBuffer .mshrs pkt.addr pkt.size pkt (s.curTick + cfg.geom.hitLatency) s
      rw [if_pos rfl] at hnew
      rw [allocateUncachedReadBuffer, hnew]
      exact .single (.allocate _ _ pkt _ s.order fun h => by simp [hc h] at hunc)
  rw [misses_copyWritebacks]
  split
  · rw [misses_hitPath]
    exact .refl
  · apply missPath_misses (s := { s with tags := (access cfg.geom s.tags s.mshrQueue s.curTick pkt).tags })
    · rw [(access_pkt cfg.geom s.tags s.mshrQueue s.curTick pkt).1]
      exact hp
    · exact hfree

/-! ## Responses and snoops -/

theorem setQueue_noTargetMSHR (s : Cache σ) (idx : QueueIdx) (q : MshrQueue) :
    (s.setQueue idx q).noTargetMSHR = s.noTargetMSHR := by
  cases idx <;> rfl

theorem freed_noTargetMSHR (s : Cache σ) (idx : QueueIdx) (q : MshrQueue) :
    (s.freed idx q).noTargetMSHR = s.noTargetMSHR := by
  unfold freed
  split <;> exact setQueue_noTargetMSHR s idx q

theorem settle_noTargetMSHR (m : MshrRef) (r : Mshr) (s : Cache σ) :
    (s.settle m r).noTargetMSHR = s.noTargetMSHR := by
  unfold settle
  split
  · exact setQueue_noTargetMSHR ..
  · exact freed_noTargetMSHR ..

theorem retire_noTargetMSHR (m : MshrRef) (blk : Option BlkPtr) (s : Cache σ) :
    (s.retire m blk).noTargetMSHR = s.noTargetMSHR := by
  unfold retire
  dsimp only
  split
  · cases blk <;> exact setQueue_noTargetMSHR ..
  · exact freed_noTargetMSHR ..

theorem answer_noTargetMSHR (P : Policy σ) (m : MshrRef) (pkt : Packet) (upward : Nat → SnoopAnswer)
    (s : Cache σ) : (s.answer cfg P m pkt upward).1.noTargetMSHR = s.noTargetMSHR := by
  have hinvalidate : ∀ (c : Cache σ) p blk, (c.invalidateAfter cfg p blk).noTargetMSHR = c.noTargetMSHR := by
    intro c p blk
    unfold invalidateAfter
    split
    · split <;> rfl
    · rfl
  have hserve : ∀ (c : Cache σ) a, (c.serviceTargets cfg P m a).noTargetMSHR = c.noTargetMSHR :=
    fun c a => setQueue_noTargetMSHR ..
  have hfill : ∀ (p : Packet) (isFill : Bool), (s.fill cfg m p isFill).1.noTargetMSHR = s.noTargetMSHR := by
    intro p isFill
    unfold fill
    dsimp only
    split
    · exact setQueue_noTargetMSHR ..
    · rfl
  unfold answer answerOf
  dsimp only
  rw [retire_noTargetMSHR, hinvalidate, hserve, hfill]

theorem handleResponse_misses {m : MshrRef} (hm : m.2 ∈ (s.queue m.1).allocatedList) (pkt : Packet)
    (upward : Nat → SnoopAnswer) :
    MissSteps cfg cacheable s.misses (s.handleResponse cfg P m pkt upward).misses := by
  unfold handleResponse
  dsimp only
  split
  · exact .refl
  obtain ⟨r, hasBlk, hfill, hcore, -⟩ := @answer_core σ cfg P m pkt upward (s.clearNoTarget m)
  have hsettle : ((s.clearNoTarget m).answer cfg P m pkt upward).1.misses =
      ((s.clearNoTarget m).settle m r).misses := by
    have hno := @answer_noTargetMSHR σ cfg P m pkt upward (s.clearNoTarget m)
    have hq : ((s.clearNoTarget m).answer cfg P m pkt upward).1.mshrQueue =
      ((s.clearNoTarget m).settle m r).mshrQueue := hcore.mshrQueue
    have hb : ((s.clearNoTarget m).answer cfg P m pkt upward).1.blocked =
      ((s.clearNoTarget m).settle m r).blocked := hcore.blocked
    rw [misses, misses, hq, hb, hno, settle_noTargetMSHR]
  rw [misses_clearTemp, misses_copyWritebacks, hsettle, misses_settle, misses_clearNoTarget]
  obtain ⟨_ | _, i⟩ := m
  · rw [register, clearNoTarget_queue] at hfill
    have hq : (s.clearNoTarget (.mshrs, i)).mshrQueue = s.mshrQueue := clearNoTarget_queue _ s .mshrs
    rw [if_pos rfl, clearNoTarget_curTick, hq]
    exact .single (.answer i s.curTick r hm hfill)
  · exact .single (.written i)

/-- A snoop is at most tracked by the outstanding miss of its block. -/
theorem snoopTiming_misses (s : Cache σ) (pkt : Packet) (answer : SnoopAnswer) :
    (s.snoopTiming cfg pkt answer).misses = s.misses ∨
      ((pkt.req.uncacheable || pkt.cmd == .writeback) = false ∧
        ∃ i, s.mshrQueue.findMatch (cfg.geom.blockAlign pkt.addr) = some i ∧
          (s.snoopTiming cfg pkt answer).misses = { s.misses with queue := s.mshrQueue.modify i fun _ =>
            ((s.mshrQueue.registers i).handleSnoop s.curTick pkt s.order).1 }) := by
  have hwrite : ∀ (c : Cache σ) p, (c.snoopWriteback cfg (cfg.geom.blockAlign pkt.addr) p).1.misses =
      c.misses := by
    intro c p
    unfold snoopWriteback
    split
    · rfl
    · dsimp only
      split
      · exact misses_freed .writeBuffer ..
      · rfl
  by_cases hskip : (pkt.req.uncacheable || pkt.cmd == .writeback) = true
  · left
    rw [snoopTiming, if_pos hskip]
  · have hmshr : (s.snoopTiming cfg pkt answer).misses =
        (s.snoopMSHR (cfg.geom.blockAlign pkt.addr) pkt).1.misses := by
      rw [snoopTiming, if_neg hskip]
      dsimp only
      split
      · rfl
      · exact hwrite ..
    rw [hmshr]
    unfold snoopMSHR
    cases hm : s.mshrQueue.findMatch (cfg.geom.blockAlign pkt.addr) with
    | none => exact .inl rfl
    | some i => exact .inr ⟨Bool.eq_false_iff.2 hskip, i, rfl, rfl⟩

/-! ## Sending -/

/-- The packet for an entry that waits for the bus. -/
theorem timingPacketFor_misses {m : MshrRef} {target : Target} (hready : m.2 ∈ (s.queue m.1).readyList)
    (hmem : m.2 ∈ (s.queue m.1).allocatedList) (hfirst : (s.register m).getTarget = some target)
    (upward : Nat → SnoopAnswer) :
    MissSteps cfg cacheable s.misses (s.timingPacketFor cfg P upward m target).1.misses := by
  unfold timingPacketFor
  dsimp only
  split
  · exact handleResponse_misses hmem _ upward
  split
  · exact .refl
  split
  · rename_i hneed
    have hcmd : target.pkt.cmd = .hardPFReq := by
      simp only [needless, Bool.and_eq_true, beq_iff_eq] at hneed
      exact hneed.2
    rw [misses_bailOut]
    obtain ⟨_ | _, i⟩ := m
    · exact .single (.bail i target hready hfirst hcmd)
    · exact .refl
  · obtain ⟨_ | _, i⟩ := m
    · exact .single (.flags i _ (s.mshrQueue.registers i).downstreamPending hmem)
    · exact .refl

theorem getNextMSHR_misses (P : Policy σ) (hs : s.Sound cfg) {c : Cache σ} {o : Option MshrRef}
    (h : s.getNextMSHR cfg = (c, o)) :
    MissSteps cfg cacheable s.misses c.misses ∧ ∀ m, o = some m → m.2 ∈ (c.queue m.1).readyList ∧
      m.2 ∈ (c.queue m.1).allocatedList := by
  cases next P {} hs.free h with
  | waiting hm =>
    have hready := pendingMSHR_ready hm
    refine ⟨.refl, ?_⟩
    rintro _ ⟨⟩
    exact ⟨hready, ((hs.queues _).mem_ready.1 hready).1⟩
  | nothing => exact ⟨.refl, by simp⟩
  | @prefetch p pf' i _ hp hwanted hmade _ =>
    obtain ⟨hmem, hready, -⟩ := hmade.entry
    have hnone : s.mshrQueue.findMatch (cfg.geom.blockAlign p.addr) = none := by
      simp only [wanted, Bool.and_eq_true, Option.isNone_iff_eq_none] at hwanted
      exact hwanted.2
    have hnew : c.misses = { s.misses with queue :=
        (s.mshrQueue.allocate (cfg.geom.blockAlign p.addr) cfg.geom.blkSize p s.curTick s.order).1 } := by
      rw [hmade.cache]
      exact (misses_allocateBuffer .mshrs ..).trans (if_pos rfl)
    rw [hnew]
    refine ⟨.single (.allocate _ _ p s.curTick s.order fun _ => hnone), ?_⟩
    rintro _ ⟨⟩
    exact ⟨hready, hmem⟩

theorem sendPacket_misses (hs : s.Sound cfg) (accept : Bool) (upward : Nat → SnoopAnswer) :
    MissSteps cfg cacheable s.misses (s.sendPacket cfg P accept upward).misses := by
  unfold sendPacket getTimingPacket
  split
  · exact .refl
  cases hnext : s.getNextMSHR cfg with
  | mk c o =>
    obtain ⟨hsteps, hwaits⟩ := getNextMSHR_misses P hs hnext
    cases o with
    | none => exact hsteps
    | some m =>
      obtain ⟨hready, hmem⟩ := hwaits m rfl
      dsimp only
      cases hfirst : (c.register m).getTarget with
      | none => exact hsteps
      | some target =>
        have hpacket := @timingPacketFor_misses σ cfg P c cacheable m target hready hmem hfirst upward
        have hstill := (@timingPacketFor_micros σ cfg P {} m target c hready
          hmem hfirst (fun _ _ => trivial) upward).2
        dsimp only
        generalize c.timingPacketFor cfg P upward m target = r at hpacket hstill ⊢
        obtain ⟨c', _ | pkt⟩ := r
        · exact hsteps.trans hpacket
        · dsimp only [Option.map_some] at hstill ⊢
          split
          · rw [markInService, misses_freed]
            obtain ⟨_ | _, i⟩ := m
            · exact (hsteps.trans hpacket).tail (.sent i (hstill rfl))
            · exact hsteps.trans hpacket
          · exact hsteps.trans hpacket

end Cache

/-! ## Steps -/

/-- The requests of the CPU side are cacheable. -/
def Action.Cacheable : Action → Prop
  | .cpuPacket pkt => pkt.req.uncacheable = false
  | _ => True

instance : DecidablePred Action.Cacheable := by
  rintro ⟨⟩ <;> dsimp only [Action.Cacheable] <;> infer_instance

def Action.IsSnoop : Action → Prop
  | .snoop .. => True
  | _ => False

theorem Cache.step_misses {σ : Type} {cfg : Config} {P : Policy σ} {s : Cache σ} (hs : s.Sound cfg)
    (hp : s.PortExact) {a : Action} (he : s.Enabled cfg a) (ha : ¬a.IsSnoop) :
    MissSteps cfg a.Cacheable s.misses (s.step cfg P a).misses := by
  cases a with
  | tick n => exact .refl
  | cpuPacket pkt =>
    show MissSteps cfg _ s.misses (s.cpuRecvTiming cfg P pkt).misses
    unfold cpuRecvTiming
    split
    · exact .refl
    · rename_i haccept
      refine timingAccess_misses he.1 id fun hresp hinh => hp.noTargets ?_
      have hreq : pkt.cmd.isRequest = true := he.2.resolve_right (by simp [hresp])
      simpa [hreq, hinh] using haccept
  | response m pkt upward => exact handleResponse_misses he.1 pkt upward
  | snoop pkt answer => exact absurd trivial ha
  | sendPacket accept upward => exact sendPacket_misses hs accept upward
  | cpuSend => exact .refl
  | downstream m pending =>
    obtain ⟨_ | _, i⟩ := m
    · exact .single (.flags i (s.mshrQueue.registers i).isForward pending he)
    · exact .refl

end PrefetchSim
