import PrefetchSim.Mem.Steps

/- The invariant of the whole cache: well-formed tags, two well-formed queues of
   the sizes they were built with, and a write buffer that holds writes only.

   `QueueStep` is what an elementary operation does to one of the queues. The
   invariant is proved from it, and with the invariant every action the
   environment may take is a sequence of elementary operations (`step_micros`).

   The environment (`Enabled`) may do anything at any time, except that a
   response answers a request that is out, that hardware prefetches are made in
   the cache and not received from outside, and that no assertion of the source
   fails in the write buffer. -/
namespace PrefetchSim

/-! ## What happens to a queue -/

/-- The queue after the bail-out of its entry `i`. -/
def MshrQueue.bailOut (q : MshrQueue) (i : Nat) : MshrQueue :=
  let q := q.modify i Mshr.popTarget
  if (q.registers i).hasTargets then q else q.deallocate i

/-- What a step may enter into a queue: a new entry with its range, its packet, its
time and its order, and a new target, into an entry with its range, with its time and its
order. -/
structure Entering where
  entry : Addr → Nat → Packet → Tick → Nat → Prop
  target : Addr → Nat → Tick → Nat → Prop

def Entering.any : Entering := ⟨fun _ _ _ _ _ => True, fun _ _ _ _ => True⟩

inductive QueueStep (new : Entering) (idx : QueueIdx) (q : MshrQueue) : MshrQueue → Prop where
  | same : QueueStep new idx q q
  | allocate (addr : Addr) (size : Nat) (pkt : Packet) (time : Tick) (order : Nat)
      (demand : idx = .writeBuffer → pkt.cmd ≠ .hardPFReq) (ok : new.entry addr size pkt time order) :
      QueueStep new idx q (q.allocate addr size pkt time order).1
  | target (i : Nat) (pkt : Packet) (time : Tick) (order : Nat) (mem : i ∈ q.allocatedList)
      (miss : idx = .mshrs) (demand : pkt.cmd ≠ .hardPFReq)
      (ok : new.target (q.registers i).addr (q.registers i).size time order) :
      QueueStep new idx q (q.modify i fun _ => (q.registers i).allocateTarget pkt time order)
  | snoop (i : Nat) (now : Tick) (pkt : Packet) (order : Nat) (mem : i ∈ q.allocatedList)
      (miss : idx = .mshrs) (demand : pkt.cmd ≠ .hardPFReq) :
      QueueStep new idx q (q.modify i fun _ => ((q.registers i).handleSnoop now pkt order).1)
  | flags (i : Nat) (forward pending : Bool) (mem : i ∈ q.allocatedList) : QueueStep new idx q
      (q.modify i fun _ => { q.registers i with isForward := forward, downstreamPending := pending })
  | sent (i : Nat) (ready : i ∈ q.readyList) : QueueStep new idx q (q.markInService i)
  | bail (i : Nat) (target : Target) (ready : i ∈ q.readyList)
      (first : (q.registers i).getTarget = some target) (pf : target.pkt.cmd = .hardPFReq) :
      QueueStep new idx q (q.bailOut i)
  | finish (i : Nat) (now : Tick) (r : Mshr) (mem : i ∈ q.allocatedList)
      (filled : r = q.registers i ∨ ∃ pkt, r = ((q.registers i).handleFill pkt).1) :
      QueueStep new idx q (q.finish i now r.served)

namespace Cache

variable {σ : Type}

theorem queue_setQueue (s : Cache σ) (idx idx' : QueueIdx) (q : MshrQueue) :
    (s.setQueue idx q).queue idx' = if idx' = idx then q else s.queue idx' := by
  cases idx <;> cases idx' <;> rfl

theorem queue_setBlocked (s : Cache σ) (c : BlockedCause) (idx : QueueIdx) :
    (s.setBlocked c).queue idx = s.queue idx := by
  cases idx <;> rfl

theorem queue_clearBlocked (s : Cache σ) (c : BlockedCause) (idx : QueueIdx) :
    (s.clearBlocked c).queue idx = s.queue idx := by
  cases idx <;> rfl

theorem queue_freed (s : Cache σ) (idx idx' : QueueIdx) (q : MshrQueue) :
    (s.freed idx q).queue idx' = if idx' = idx then q else s.queue idx' := by
  unfold freed
  split
  · rw [queue_clearBlocked, queue_setQueue]
  · rw [queue_setQueue]

theorem order_lt_allocateBuffer (idx : QueueIdx) (addr : Addr) (size : Nat) (pkt : Packet) (time : Tick)
    (s : Cache σ) : s.order < (s.allocateBuffer idx addr size pkt time).1.order := by
  unfold allocateBuffer
  dsimp only
  split <;> exact Nat.lt_succ_self _

theorem queue_setRegister (s : Cache σ) (m : MshrRef) (r : Mshr) (idx : QueueIdx) :
    (s.setRegister m r).queue idx =
      if idx = m.1 then (s.queue m.1).modify m.2 fun _ => r else s.queue idx := by
  rw [setRegister, queue_setQueue]

theorem freed_tags (s : Cache σ) (idx : QueueIdx) (q : MshrQueue) : (s.freed idx q).tags = s.tags := by
  unfold freed
  split
  · exact setQueue_tags ..
  · exact setQueue_tags ..

theorem freed_prefetcher (s : Cache σ) (idx : QueueIdx) (q : MshrQueue) :
    (s.freed idx q).prefetcher = s.prefetcher := by
  unfold freed
  split
  · exact setQueue_prefetcher ..
  · exact setQueue_prefetcher ..

theorem settle_tags (m : MshrRef) (r : Mshr) (s : Cache σ) : (s.settle m r).tags = s.tags := by
  unfold settle
  split
  · exact setQueue_tags ..
  · exact freed_tags ..

theorem bailOut_tags (m : MshrRef) (target : Target) (s : Cache σ) :
    (s.bailOut m target).tags = s.tags := by
  unfold bailOut setRegister
  dsimp only
  split <;> simp

theorem hitPath_tags (cfg : Config) (P : Policy σ) (r : AccessResult) (time : Tick) (s : Cache σ) :
    (s.hitPath cfg P r time).tags = match r.blk with
      | some ptr => if cfg.prefetchOnAccess || s.prefetchHit r.blk then s.tags.modify ptr fun b =>
          { b with status := { b.status with hwPrefetched := false } } else s.tags
      | none => s.tags := by
  unfold hitPath
  cases r.blk <;> dsimp only <;> split <;> split <;> rfl

/-- A miss writes at most one block, which it makes unreadable. -/
theorem missPath_tags (cfg : Config) (P : Policy σ) (r : AccessResult) (time : Tick) (s : Cache σ) :
    (s.missPath cfg P r time).tags = s.tags ∨ ∃ ptr, (s.missPath cfg P r time).tags =
      s.tags.modify ptr fun b => { b with status := { b.status with readable := false } } := by
  unfold missPath
  split
  · unfold addTarget
    dsimp only
    split <;> exact .inl rfl
  dsimp only [notify]
  split
  · exact .inl (allocateBuffer_tags ..)
  · rw [allocateMissBuffer, allocateBuffer_tags]
    unfold hideBlock
    split
    · rename_i ptr _
      split
      · exact .inr ⟨ptr, rfl⟩
      · exact .inl rfl
    · exact .inl rfl

theorem copyWritebacks_tags (wbs : List Packet) (time : Tick) (s : Cache σ) :
    (s.copyWritebacks wbs time).tags = s.tags :=
  copyWritebacks_keeps (·.tags) (fun _ _ _ => allocateBuffer_tags ..) wbs time s

theorem snoopMSHR_tags (blkAddr : Addr) (pkt : Packet) (s : Cache σ) :
    (s.snoopMSHR blkAddr pkt).1.tags = s.tags := by
  unfold snoopMSHR
  split <;> rfl

theorem snoopWriteback_tags (cfg : Config) (blkAddr : Addr) (pkt : Packet) (s : Cache σ) :
    (s.snoopWriteback cfg blkAddr pkt).1.tags = s.tags := by
  unfold snoopWriteback
  split
  · rfl
  · dsimp only
    split
    · exact freed_tags ..
    · rfl

/-- The access that a packet of the CPU side makes, if it makes one. -/
def accessOf (cfg : Config) (s : Cache σ) (pkt : Packet) : Option AccessResult :=
  if (pkt.cmd.isRequest && !pkt.memInhibit && s.cpuSidePort.blocked) || pkt.cmd.isResponse ||
      pkt.memInhibit || pkt.req.uncacheable then none
  else some (access cfg.geom s.tags s.mshrQueue s.curTick pkt)

theorem accessOf_eq {cfg : Config} {s : Cache σ} {pkt : Packet} {r : AccessResult} (h : s.accessOf cfg pkt = some r) :
    r = access cfg.geom s.tags s.mshrQueue s.curTick pkt := by
  unfold accessOf at h
  split at h
  · cases h
  · exact (Option.some.inj h).symm

/-- What a packet of the CPU side does to the tags: its access, and then a hit or a miss. -/
theorem cpuRecvTiming_tags (cfg : Config) (P : Policy σ) (pkt : Packet) (s : Cache σ) :
    (s.cpuRecvTiming cfg P pkt).tags = match s.accessOf cfg pkt with
      | none => s.tags
      | some r =>
        let c := { s with tags := r.tags }
        let time := s.curTick + cfg.geom.hitLatency
        (if r.satisfied then c.hitPath cfg P r time else c.missPath cfg P r time).tags := by
  unfold cpuRecvTiming accessOf
  by_cases hrefused : (pkt.cmd.isRequest && !pkt.memInhibit && s.cpuSidePort.blocked) = true
  · simp [hrefused]
  rw [if_neg hrefused]
  unfold timingAccess
  dsimp only
  by_cases hresp : pkt.cmd.isResponse = true
  · simp [hresp]
  by_cases hinh : pkt.memInhibit = true
  · simp [hresp, hinh]
  by_cases hunc : pkt.req.uncacheable = true
  · rw [if_neg hresp, if_neg hinh, if_pos hunc]
    simp only [hunc, Bool.or_true, if_true]
    split <;> exact allocateBuffer_tags ..
  have hmade : ¬((pkt.cmd.isRequest && !pkt.memInhibit && s.cpuSidePort.blocked) || pkt.cmd.isResponse ||
      pkt.memInhibit || pkt.req.uncacheable) = true := by
    simp only [Bool.or_eq_true, not_or]
    exact ⟨⟨⟨hrefused, hresp⟩, hinh⟩, hunc⟩
  rw [if_neg hmade, if_neg hresp, if_neg hinh, if_neg hunc, copyWritebacks_tags]

/-- A snoop leaves the tags to `handleSnoop`, or alone. -/
theorem snoopTiming_tags (cfg : Config) (pkt : Packet) (answer : SnoopAnswer) (s : Cache σ) :
    (s.snoopTiming cfg pkt answer).tags = s.tags ∨ ∃ port now pkt', (s.snoopTiming cfg pkt answer).tags =
      (handleSnoop cfg s.tags port now answer pkt' (s.tags.findBlock cfg.geom pkt.addr) false false).1 := by
  unfold snoopTiming
  split
  · exact .inl rfl
  dsimp only
  split
  · exact .inl (snoopMSHR_tags ..)
  · rw [snoopWriteback_tags, snoopMSHR_tags]
    exact .inr ⟨_, _, _, rfl⟩

/-- What stays true of the tags when a block is invalidated, and when its status changes but for
the bits `valid` and `hwPrefetched`. -/
structure Stays (cfg : Config) (Q : Tags → Prop) : Prop where
  status : ∀ {t} ptr (f : Status → Status),
    (∀ st, (f st).valid = st.valid ∧ (f st).hwPrefetched = st.hwPrefetched) → Q t →
      Q (t.modify ptr fun b => { b with status := f b.status })
  invalidate : ∀ {t} ptr, Q t → Q (t.invalidateBlk cfg.geom ptr)

namespace Stays

variable {cfg : Config} {P : Policy σ} {Q : Tags → Prop} {s : Cache σ}

theorem handleSnoop (h : Stays cfg Q) {t : Tags} (ht : Q t) (port : CachePort) (now : Tick) (answer : SnoopAnswer)
    (pkt : Packet) (blk : Option BlkPtr) (d p : Bool) :
    Q (PrefetchSim.handleSnoop cfg t port now answer pkt blk d p).1 :=
  handleSnoop_keeps ht (fun ptr => h.status ptr (fun st => { st with writable := false }) (fun _ => ⟨rfl, rfl⟩) ht)
    (fun _ ptr => h.invalidate ptr) port now answer pkt blk d p

theorem snoopTiming (h : Stays cfg Q) (hs : Q s.tags) (pkt : Packet) (answer : SnoopAnswer) :
    Q (s.snoopTiming cfg pkt answer).tags := by
  rcases snoopTiming_tags cfg pkt answer s with heq | ⟨port, now, pkt', heq⟩
  · rwa [heq]
  · rw [heq]
    exact h.handleSnoop hs ..

theorem missPath (h : Stays cfg Q) (hs : Q s.tags) (r : AccessResult) (time : Tick) :
    Q (s.missPath cfg P r time).tags := by
  rcases missPath_tags cfg P r time s with heq | ⟨ptr, heq⟩
  · rwa [heq]
  · rw [heq]
    exact h.status ptr (fun st => { st with readable := false }) (fun _ => ⟨rfl, rfl⟩) hs

/-- What follows the target loop. -/
theorem retire (h : Stays cfg Q) (hs : Q s.tags) (m : MshrRef) (pkt : Packet) (blk : Option BlkPtr) :
    Q ((s.invalidateAfter cfg pkt blk).retire m blk).tags := by
  have hinvalidate : Q (s.invalidateAfter cfg pkt blk).tags := by
    unfold invalidateAfter
    split
    · split
      · exact h.invalidate _ hs
      · exact hs
    · exact hs
  unfold Cache.retire
  dsimp only
  split
  · rw [setQueue_tags]
    cases blk with
    | none => exact hinvalidate
    | some ptr => exact h.status ptr (fun st => { st with readable := false }) (fun _ => ⟨rfl, rfl⟩) hinvalidate
  · rwa [freed_tags]

theorem clearTemp (h : Stays cfg Q) (hs : Q s.tags) (blk : Option BlkPtr) (time : Tick) :
    Q (s.clearTemp cfg blk time).tags := by
  unfold Cache.clearTemp
  split
  · refine h.invalidate .temp ?_
    split
    · rw [allocateWriteBuffer, allocateBuffer_tags]
      exact h.status .temp (fun st => { st with dirty := false }) (fun _ => ⟨rfl, rfl⟩) hs
    · exact hs
  · exact hs

end Stays

theorem tryPrefetch_tags (cfg : Config) (pf : List Packet) (s : Cache σ) : (s.tryPrefetch cfg pf).1.tags = s.tags := by
  induction pf generalizing s with
  | nil => rfl
  | cons p rest ih =>
    unfold tryPrefetch
    split
    · dsimp only
      split
      · exact allocateBuffer_tags ..
      · exact ih _
    · rfl

theorem getNextMSHR_tags (cfg : Config) (s : Cache σ) : (s.getNextMSHR cfg).1.tags = s.tags := by
  unfold getNextMSHR
  split
  · rfl
  · split
    · rfl
    · exact tryPrefetch_tags ..

theorem timingPacketFor_tags (cfg : Config) (P : Policy σ) (upward : Nat → SnoopAnswer) (m : MshrRef)
    (target : Target) (s : Cache σ) : (s.timingPacketFor cfg P upward m target).1.tags = s.tags ∨
      target.pkt.cmd = .scUpgradeFailReq ∧ ∃ pkt : Packet, pkt.cmd = .upgradeFailResp ∧
        (s.timingPacketFor cfg P upward m target).1.tags = (s.handleResponse cfg P m pkt upward).tags := by
  unfold timingPacketFor
  dsimp only
  split
  · rename_i hcmd
    exact .inr ⟨hcmd, _, rfl, rfl⟩
  split
  · exact .inl rfl
  split
  · exact .inl (bailOut_tags ..)
  · exact .inl (setQueue_tags ..)

/-- Sending changes the tags in one place only, where the cache answers a failed upgrade itself. -/
theorem sendPacket_tags (cfg : Config) (P : Policy σ) (accept : Bool) (upward : Nat → SnoopAnswer) (s : Cache σ) :
    (s.sendPacket cfg P accept upward).tags = s.tags ∨ ∃ c m target pkt,
      s.getNextMSHR cfg = (c, some m) ∧ (c.register m).getTarget = some target ∧
        target.pkt.cmd = .scUpgradeFailReq ∧ pkt.cmd = .upgradeFailResp ∧
        (s.sendPacket cfg P accept upward).tags = (c.handleResponse cfg P m pkt upward).tags := by
  have htags := getNextMSHR_tags cfg s
  unfold sendPacket getTimingPacket
  split
  · exact .inl rfl
  generalize s.getNextMSHR cfg = next at htags ⊢
  obtain ⟨c, _ | m⟩ := next
  · exact .inl htags
  dsimp only at htags ⊢
  cases hfirst : (c.register m).getTarget with
  | none => exact .inl htags
  | some target =>
    have hpacket := timingPacketFor_tags cfg P upward m target c
    dsimp only
    generalize c.timingPacketFor cfg P upward m target = r at hpacket ⊢
    rw [htags] at hpacket
    have hcases : r.1.tags = s.tags ∨ ∃ c' m' target' pkt, (c, some m) = (c', some m') ∧
        (c'.register m').getTarget = some target' ∧ target'.pkt.cmd = .scUpgradeFailReq ∧
          pkt.cmd = .upgradeFailResp ∧ r.1.tags = (c'.handleResponse cfg P m' pkt upward).tags :=
      hpacket.imp_right fun ⟨hcmd, pkt, hpkt, heq⟩ => ⟨c, m, target, pkt, rfl, hfirst, hcmd, hpkt, heq⟩
    -- whether the bus takes the packet does not matter to the tags
    obtain ⟨c', _ | pkt⟩ := r
    · exact hcases
    · dsimp only [Option.map_some]
      split
      · rw [markInService, freed_tags]
        exact hcases
      · exact hcases

theorem bailOut_prefetcher (m : MshrRef) (target : Target) (s : Cache σ) :
    (s.bailOut m target).prefetcher = s.prefetcher.record [.dropped .bailOut target.pkt.addr] := by
  unfold bailOut setRegister
  dsimp only
  split <;> simp

theorem queue_settle (m : MshrRef) (r : Mshr) (s : Cache σ) (idx : QueueIdx) :
    (s.settle m r).queue idx =
      if idx = m.1 then (s.queue m.1).finish m.2 s.curTick r.served else s.queue idx := by
  unfold settle
  split
  · rw [queue_setQueue]
  · rw [queue_freed]

theorem queue_bailOut (m : MshrRef) (target : Target) (s : Cache σ) (idx : QueueIdx) :
    (s.bailOut m target).queue idx =
      if idx = m.1 then (s.queue m.1).bailOut m.2 else s.queue idx := by
  obtain ⟨_ | _, i⟩ := m
  all_goals
    unfold bailOut MshrQueue.bailOut
    dsimp only
    split <;> cases idx <;> simp_all [setRegister, setQueue, queue, register, MshrQueue.modify]

/-- What an elementary operation from `s` to `s'` may enter into queue `idx`. -/
def entering (cfg : Config) (ok : Allowed σ) (s s' : Cache σ) (idx : QueueIdx) : Entering where
  entry addr size pkt time order := order = s.order ∧ s.order < s'.order ∧
    (time = s.curTick + cfg.geom.hitLatency ∧ (idx = .mshrs → ok.demand s.writeBuffer addr size) ∨
      idx = .mshrs ∧ ok.prefetch s pkt ∧ addr = cfg.geom.blockAlign pkt.addr ∧ size = cfg.geom.blkSize ∧
        time = s.curTick)
  target addr size time order := time = s.curTick + cfg.geom.hitLatency ∧ order = s.order ∧
    s.order < s'.order ∧ ok.demand s.writeBuffer addr size

/-- An elementary operation makes at most one step in each queue. -/
theorem Micro.queueStep {cfg : Config} {P : Policy σ} {ok : Allowed σ} {s s' : Cache σ}
    (h : Micro cfg P ok s s') (idx : QueueIdx) :
    QueueStep (entering cfg ok s s' idx) idx (s.queue idx) (s'.queue idx) := by
  cases h with
  | others core => rw [core.queue idx]; exact .same
  | time n => cases idx <;> exact .same
  | block => rw [queue_setBlocked]; exact .same
  | unblock => rw [queue_clearBlocked]; exact .same
  | miss addr size pkt _ hp hok =>
    rw [queue_allocateBuffer]
    split
    · rename_i h
      subst h
      exact .allocate _ _ _ _ _ (by simp) ⟨rfl, order_lt_allocateBuffer .., .inl ⟨rfl, fun _ => hok⟩⟩
    · exact .same
  | write pkt hp =>
    rw [allocateWriteBuffer, queue_allocateBuffer]
    split
    · rename_i h
      subst h
      exact .allocate _ _ _ _ _ (fun _ => hp) ⟨rfl, order_lt_allocateBuffer .., .inl ⟨rfl, by simp⟩⟩
    · exact .same
  | target i pkt hi hp hok =>
    cases idx with
    | mshrs => exact .target i pkt _ _ hi rfl hp ⟨rfl, rfl, Nat.lt_succ_self _, hok⟩
    | writeBuffer => exact .same
  | snoop i pkt hi hp =>
    cases idx with
    | mshrs => exact .snoop i _ pkt _ hi rfl hp
    | writeBuffer => exact .same
  | flags m forward pending hm =>
    rw [queue_setRegister]
    split
    · rename_i h
      subst h
      exact .flags m.2 forward pending hm
    · exact .same
  | notify pkt time => cases idx <;> exact .same
  | popDrop p rest _ => cases idx <;> exact .same
  | popMiss p rest _ _ hok =>
    rw [allocateMissBuffer, queue_allocateBuffer]
    split
    · rename_i h
      subst h
      have hlt := order_lt_allocateBuffer .mshrs (cfg.geom.blockAlign p.addr) cfg.geom.blkSize p s.curTick
        { s with prefetcher := s.prefetcher.getPacket rest }
      exact .allocate (cfg.geom.blockAlign p.addr) cfg.geom.blkSize p s.curTick s.order (by simp)
        ⟨rfl, hlt, .inr ⟨rfl, hok, rfl, rfl, rfl⟩⟩
    · cases idx <;> exact .same
  | sent m hm =>
    rw [markInService, queue_freed]
    split
    · rename_i h
      subst h
      exact .sent m.2 hm
    · exact .same
  | bail m target hm hfirst hpf _ =>
    rw [queue_bailOut]
    split
    · rename_i h
      subst h
      exact .bail m.2 target hm hfirst hpf
    · exact .same
  | answered m r hasBlk hm hfill =>
    have : ({ s.settle m r with prefetcher := servePrefetches P hasBlk r.targets.list s.prefetcher } :
        Cache σ).queue idx = (s.settle m r).queue idx := by
      cases idx <;> rfl
    rw [this, queue_settle]
    split
    · rename_i h
      subst h
      exact .finish m.2 _ r hm hfill
    · exact .same

end Cache

/-! ## Well-formed queues -/

theorem handleSnoop_fields (m : Mshr) (now : Tick) (pkt : Packet) (order : Nat) :
    let r := (m.handleSnoop now pkt order).1
    r.inService = m.inService ∧ r.readyTime = m.readyTime ∧ r.order = m.order ∧ r.addr = m.addr ∧
      r.size = m.size := by
  unfold Mshr.handleSnoop
  dsimp only
  split
  · exact ⟨rfl, rfl, rfl, rfl, rfl⟩
  split
  · exact ⟨rfl, rfl, rfl, rfl, rfl⟩
  split
  · split <;> exact ⟨rfl, rfl, rfl, rfl, rfl⟩
  · exact ⟨rfl, rfl, rfl, rfl, rfl⟩

theorem allocateTarget_fields (m : Mshr) (pkt : Packet) (time : Tick) (order : Nat) :
    let r := m.allocateTarget pkt time order
    r.inService = m.inService ∧ r.readyTime = m.readyTime ∧ r.order = m.order ∧ r.addr = m.addr ∧
      r.size = m.size := by
  unfold Mshr.allocateTarget
  dsimp only
  split <;> exact ⟨rfl, rfl, rfl, rfl, rfl⟩

theorem handleFill_inService (m : Mshr) (pkt : Packet) :
    (m.handleFill pkt).1.inService = m.inService := by
  unfold Mshr.handleFill
  dsimp only
  split <;> rfl

/-- A fill may take the deferred targets away, and adds none. -/
theorem filled_deferred {m r : Mshr} (hr : r = m ∨ ∃ pkt, r = (m.handleFill pkt).1) :
    ∀ t ∈ r.deferredTargets.list, t ∈ m.deferredTargets.list := by
  rcases hr with rfl | ⟨pkt, rfl⟩
  · exact fun t ht => ht
  · unfold Mshr.handleFill
    dsimp only
    split
    · simp
    · exact fun t ht => ht

/-- What an entry that has been answered goes on with was deferred before. -/
theorem mem_promoted {m r : Mshr} (hr : r = m ∨ ∃ pkt, r = (m.handleFill pkt).1) {now : Tick}
    (hprom : (r.served.promoteDeferredTargets now).2 = true) {t : Target}
    (ht : t ∈ (r.served.promoteDeferredTargets now).1.targets.list ++
      (r.served.promoteDeferredTargets now).1.deferredTargets.list) : t ∈ m.deferredTargets.list := by
  obtain ⟨htargets, hdeferred⟩ := Mshr.promoteDeferredTargets_lists hprom
  have hnone : r.served.targets.list = [] := rfl
  rw [htargets, hdeferred, hnone, List.append_nil] at ht
  exact filled_deferred hr t ht

/-- Without deferred targets a fill leaves the register as it is. -/
theorem filled_of_no_deferred {m r : Mshr} (hd : m.deferredTargets = {})
    (hr : r = m ∨ ∃ pkt, r = (m.handleFill pkt).1) : r = m := by
  rcases hr with rfl | ⟨pkt, rfl⟩
  · rfl
  · simp [Mshr.handleFill, hd]

theorem MshrQueue.WellFormed.bailOut {q : MshrQueue} (h : q.WellFormed) {i : Nat}
    (hi : i ∈ q.readyList) : (q.bailOut i).WellFormed := by
  obtain ⟨hmem, hs⟩ := h.mem_ready.1 hi
  have hbusy := h.busy i hmem
  have hdef := hbusy.pending hs
  have hself : (q.modify i Mshr.popTarget).registers i = (q.registers i).popTarget := by
    simp [MshrQueue.modify]
  unfold MshrQueue.bailOut
  dsimp only
  rw [hself]
  split
  · rename_i hmore
    have hcount := hbusy.count
    have hpos := List.length_pos_iff.2 hbusy.nonempty
    refine h.modify hmem ⟨?_, ?_, hbusy.pending, hbusy.reset, hbusy.deferred_cpu⟩ rfl rfl
    · simp only [Mshr.popTarget, List.length_tail]
      omega
    · simpa [Mshr.hasTargets] using hmore
  · rename_i hnone
    refine h.deallocate hmem ?_ (hbusy.reset hdef) rfl
    simpa [Mshr.hasTargets] using hnone

/-- The register after a fill counts its targets as the entry did. -/
theorem Mshr.Busy.filled {m r : Mshr} (h : m.Busy)
    (hr : r = m ∨ ∃ pkt, r = (m.handleFill pkt).1) : r.Busy ∧ r.inService = m.inService := by
  rcases hr with rfl | ⟨pkt, rfl⟩
  · exact ⟨h, rfl⟩
  · exact ⟨h.handleFill pkt, handleFill_inService m pkt⟩

theorem QueueStep.wellFormed {new : Entering} {idx : QueueIdx} {q q' : MshrQueue}
    (h : QueueStep new idx q q')
    (hq : q.WellFormed) : q'.WellFormed := by
  cases h with
  | same => exact hq
  | allocate addr size pkt time order _ _ => exact hq.allocate addr size pkt time order
  | target i pkt time order hi _ _ _ =>
    have hf := allocateTarget_fields (q.registers i) pkt time order
    exact hq.modify hi ((hq.busy i hi).allocateTarget pkt time order) hf.1 hf.2.1
  | snoop i now pkt order hi _ _ =>
    have hf := handleSnoop_fields (q.registers i) now pkt order
    exact hq.modify hi ((hq.busy i hi).handleSnoop now pkt order) hf.1 hf.2.1
  | flags i forward pending hi =>
    have hb := hq.busy i hi
    exact hq.modify hi ⟨hb.count, hb.nonempty, hb.pending, hb.reset, hb.deferred_cpu⟩ rfl rfl
  | sent i hi => exact hq.markInService hi
  | bail i target hi _ _ => exact hq.bailOut hi
  | finish i now r hi hfill =>
    obtain ⟨hb, hin⟩ := (hq.busy i hi).filled hfill
    exact hq.finish now hi hb hin

theorem QueueStep.size {new : Entering} {idx : QueueIdx} {q q' : MshrQueue} (h : QueueStep new idx q q') :
    q'.numEntries = q.numEntries ∧ q'.numReserve = q.numReserve := by
  cases h with
  | allocate addr size pkt time order _ _ =>
    unfold MshrQueue.allocate
    split <;> exact ⟨rfl, rfl⟩
  | sent i _ =>
    unfold MshrQueue.markInService
    dsimp only
    split <;> exact ⟨rfl, rfl⟩
  | bail i _ _ _ _ =>
    unfold MshrQueue.bailOut
    dsimp only
    split <;> exact ⟨rfl, rfl⟩
  | finish i now r _ _ =>
    unfold MshrQueue.finish
    split <;> exact ⟨rfl, rfl⟩
  | _ => exact ⟨rfl, rfl⟩

/-! ## Properties of the entries -/

/-- A property of registers that every operation on an entry in use keeps. -/
structure EntryInvariant (new : Entering) (idx : QueueIdx) (p : Mshr → Prop) : Prop where
  allocate : ∀ (m : Mshr) addr size (pkt : Packet) time order, m.Idle →
    (idx = .writeBuffer → pkt.cmd ≠ .hardPFReq) → new.entry addr size pkt time order →
    p (m.allocate addr size pkt time order)
  target : idx = .mshrs → ∀ (m : Mshr) (pkt : Packet) time order, pkt.cmd ≠ .hardPFReq →
    new.target m.addr m.size time order → p m → p (m.allocateTarget pkt time order)
  snoop : idx = .mshrs → ∀ (m : Mshr) now (pkt : Packet) order, pkt.cmd ≠ .hardPFReq → p m →
    p (m.handleSnoop now pkt order).1
  flags : ∀ (m : Mshr) forward pending, p m →
    p { m with isForward := forward, downstreamPending := pending }
  sent : ∀ m : Mshr, m.Busy → m.isForwardNoResponse = false → p m → p { m with inService := true }
  bail : ∀ (m : Mshr) target, m.getTarget = some target → target.pkt.cmd = .hardPFReq →
    m.popTarget.hasTargets = true → p m → p m.popTarget
  finish : ∀ (m r : Mshr) now, (r = m ∨ ∃ pkt, r = (m.handleFill pkt).1) → p m →
    (r.served.promoteDeferredTargets now).2 = true →
    p { (r.served.promoteDeferredTargets now).1 with inService := false }

namespace MshrQueue

variable {q : MshrQueue} {p : Nat → Mshr → Prop} {j : Nat}

theorem forall_modify {r : Mshr} (h : ∀ i ∈ q.allocatedList, i ≠ j → p i (q.registers i)) (hr : p j r) :
    ∀ i ∈ (q.modify j fun _ => r).allocatedList, p i ((q.modify j fun _ => r).registers i) := by
  intro i hi
  by_cases hij : i = j
  · subst hij
    simpa [MshrQueue.modify] using hr
  · simpa [MshrQueue.modify, hij] using h i hi hij

theorem forall_deallocate (hnd : q.allocatedList.Nodup)
    (h : ∀ i ∈ q.allocatedList, i ≠ j → p i (q.registers i)) (f : Mshr → Mshr) :
    ∀ i ∈ ((q.modify j f).deallocate j).allocatedList,
      p i (((q.modify j f).deallocate j).registers i) := by
  intro i hi
  have hne : i ≠ j := fun e => hnd.not_mem_erase (e ▸ hi)
  simpa [MshrQueue.deallocate, MshrQueue.modify, hne] using h i (List.mem_of_mem_erase hi) hne

theorem WellFormed.forall_allocate (hq : q.WellFormed) {addr : Addr} {size : Nat} {pkt : Packet} {time : Tick}
    {order : Nat} (h : ∀ i ∈ q.allocatedList, p i (q.registers i))
    (hnew : ∀ i (m : Mshr), m.Idle → p i (m.allocate addr size pkt time order)) :
    ∀ i ∈ (q.allocate addr size pkt time order).1.allocatedList,
      p i ((q.allocate addr size pkt time order).1.registers i) := by
  unfold MshrQueue.allocate
  split
  · exact h
  · rename_i j rest hfree
    have hj : j ∈ q.freeList := hfree ▸ List.mem_cons_self ..
    intro i hi
    by_cases hij : i = j
    · subst hij
      simpa [MshrQueue.addToReadyList, MshrQueue.modify] using hnew i _ (hq.idle i hj)
    · have hmem : i ∈ q.allocatedList := by simpa [MshrQueue.addToReadyList, hij] using hi
      simpa [MshrQueue.addToReadyList, MshrQueue.modify, hij] using h i hmem

theorem WellFormed.forall_sent (hq : q.WellFormed) (h : ∀ i ∈ q.allocatedList, p i (q.registers i))
    (hsent : (q.registers j).isForwardNoResponse = false → p j { q.registers j with inService := true }) :
    ∀ i ∈ (q.markInService j).allocatedList, p i ((q.markInService j).registers i) := by
  unfold MshrQueue.markInService Mshr.markInService
  by_cases hf : (q.registers j).isForwardNoResponse = true
  · simp only [hf, if_true]
    exact forall_deallocate hq.nodup_allocated (fun i hi _ => h i hi) _
  · simp only [hf, Bool.false_eq_true, if_false]
    exact forall_modify (fun i hi _ => h i hi) (hsent (by simpa using hf))

theorem WellFormed.forall_bailOut (hq : q.WellFormed) (h : ∀ i ∈ q.allocatedList, p i (q.registers i))
    (hbail : (q.registers j).popTarget.hasTargets = true → p j (q.registers j).popTarget) :
    ∀ i ∈ (q.bailOut j).allocatedList, p i ((q.bailOut j).registers i) := by
  have hself : (q.modify j Mshr.popTarget).registers j = (q.registers j).popTarget := by
    simp [MshrQueue.modify]
  unfold MshrQueue.bailOut
  dsimp only
  rw [hself]
  split
  · rename_i hmore
    exact forall_modify (fun i hi _ => h i hi) (hbail hmore)
  · exact forall_deallocate hq.nodup_allocated (fun i hi _ => h i hi) _

theorem WellFormed.forall_finish (hq : q.WellFormed) {now : Tick} {r : Mshr}
    (h : ∀ i ∈ q.allocatedList, i ≠ j → p i (q.registers i))
    (hprom : (r.promoteDeferredTargets now).2 = true →
      p j { (r.promoteDeferredTargets now).1 with inService := false }) :
    ∀ i ∈ (q.finish j now r).allocatedList, p i ((q.finish j now r).registers i) := by
  unfold MshrQueue.finish
  split
  · rename_i hmore
    have := @forall_modify q p j _ h (hprom hmore)
    simpa [MshrQueue.markPending, MshrQueue.addToReadyList, MshrQueue.modify] using this
  · exact forall_deallocate hq.nodup_allocated h _

end MshrQueue

theorem QueueStep.entries {new : Entering} {idx : QueueIdx} {p : Mshr → Prop}
    (hp : EntryInvariant new idx p) {q q' : MshrQueue} (h : QueueStep new idx q q') (hq : q.WellFormed)
    (hall : ∀ i ∈ q.allocatedList, p (q.registers i)) : ∀ i ∈ q'.allocatedList, p (q'.registers i) := by
  cases h with
  | same => exact hall
  | allocate addr size pkt time order hd hnew =>
    exact hq.forall_allocate hall fun _ m hm => hp.allocate m addr size pkt time order hm hd hnew
  | target i pkt time order hi hidx hd hnew =>
    exact MshrQueue.forall_modify (fun k hk _ => hall k hk) (hp.target hidx _ pkt time order hd hnew (hall i hi))
  | snoop i now pkt order hi hidx hd =>
    exact MshrQueue.forall_modify (fun k hk _ => hall k hk) (hp.snoop hidx _ now pkt order hd (hall i hi))
  | flags i forward pending hi =>
    exact MshrQueue.forall_modify (fun k hk _ => hall k hk) (hp.flags _ forward pending (hall i hi))
  | sent i hi =>
    have hmem := (hq.mem_ready.1 hi).1
    exact hq.forall_sent hall fun hf => hp.sent _ (hq.busy i hmem) hf (hall i hmem)
  | bail i target hi hfirst hpf =>
    exact hq.forall_bailOut hall fun hmore =>
      hp.bail _ target hfirst hpf hmore (hall i (hq.mem_ready.1 hi).1)
  | finish i now r hi hfill =>
    exact hq.forall_finish (fun k hk _ => hall k hk) fun hprom => hp.finish _ r now hfill (hall i hi) hprom

/-- An entry of the write buffer: one request of the CPU side, out only if it
waits for a response. -/
def Mshr.HoldsWrite (m : Mshr) : Prop :=
  m.deferredTargets = {} ∧ ∃ t, m.targets.list = [t] ∧ t.source = .fromCPU ∧
    t.needsResponse = t.pkt.cmd.needsResponse ∧ t.pkt.cmd ≠ .hardPFReq ∧
    (m.inService = true → t.needsResponse = true)

theorem holdsWrite_invariant (new : Entering) : EntryInvariant new .writeBuffer Mshr.HoldsWrite where
  allocate m addr size pkt time order hm hd _ := by
    let t : Target :=
      { readyTime := time, order, pkt, source := .fromCPU, needsResponse := pkt.cmd.needsResponse }
    refine ⟨hm.deferred, t, ?_, rfl, rfl, hd rfl, by simp [Mshr.allocate]⟩
    simp [t, Mshr.allocate, TargetList.add, hm.targets, hd rfl]
  target h := by cases h
  snoop h := by cases h
  flags m _ _ h := h
  sent m hb hf h := by
    obtain ⟨hdef, t, ht, hsrc, hresp, hcmd, -⟩ := h
    refine ⟨hdef, t, ht, hsrc, hresp, hcmd, fun _ => ?_⟩
    have hcount : m.ntargets = 1 := by simp [hb.count, ht, hdef]
    simpa [Mshr.isForwardNoResponse, Mshr.getNumTargets, Mshr.getTarget, hcount, ht, hsrc] using hf
  bail m target hfirst hpf _ h := by
    obtain ⟨-, t, ht, -, -, hcmd, -⟩ := h
    rw [Mshr.getTarget, ht, List.head?_cons] at hfirst
    cases hfirst
    exact absurd hpf hcmd
  finish m r now hfill h hprom := by
    rw [filled_of_no_deferred h.1 hfill] at hprom
    simp [Mshr.served, Mshr.promoteDeferredTargets, h.1] at hprom

/-! ## The invariant -/

/-- The number of entries a queue was made for, and its reserve. -/
def Config.entries (cfg : Config) : QueueIdx → Nat
  | .mshrs => cfg.mshrs
  | .writeBuffer => cfg.writeBuffers

def Config.reserve (cfg : Config) : QueueIdx → Nat
  | .mshrs => 4
  | .writeBuffer => cfg.mshrs + 1000

namespace Cache

variable {σ : Type}

structure Sound (cfg : Config) (s : Cache σ) : Prop where
  tags : s.tags.WellFormed cfg.geom
  queues : ∀ idx, (s.queue idx).WellFormed
  numEntries : ∀ idx, (s.queue idx).numEntries = cfg.entries idx + cfg.reserve idx - 1
  numReserve : ∀ idx, (s.queue idx).numReserve = cfg.reserve idx
  writes : ∀ i ∈ s.writeBuffer.allocatedList, (s.writeBuffer.registers i).HoldsWrite

theorem initial_queue (cfg : Config) (policy : σ) (idx : QueueIdx) :
    (initial cfg policy).queue idx = MshrQueue.create (cfg.entries idx) (cfg.reserve idx) := by
  cases idx <;> rfl

theorem initial_sound (cfg : Config) (policy : σ) : (initial cfg policy).Sound cfg where
  tags := Tags.initial_wellFormed cfg.geom
  queues idx := by
    rw [initial_queue]
    exact MshrQueue.create_wellFormed _ _
  numEntries idx := by rw [initial_queue]; rfl
  numReserve idx := by rw [initial_queue]; rfl
  writes i hi := by simp [initial, MshrQueue.create] at hi

section

variable {cfg : Config} {P : Policy σ} {ok : Allowed σ} {s s' : Cache σ}

theorem Micro.tags_wellFormed (h : Micro cfg P ok s s') (ht : s.tags.WellFormed cfg.geom) :
    s'.tags.WellFormed cfg.geom := by
  cases h with
  | others core => exact core.tags ht
  | miss addr size pkt _ _ _ => rwa [allocateBuffer_tags]
  | write pkt _ => rwa [allocateWriteBuffer, allocateBuffer_tags]
  | target i pkt _ _ _ => exact ht
  | snoop i pkt _ _ => exact ht
  | flags m _ _ _ => rwa [setRegister, setQueue_tags]
  | popMiss p rest _ _ _ => rwa [allocateMissBuffer, allocateBuffer_tags]
  | sent m _ => rwa [markInService, freed_tags]
  | bail m target _ _ _ _ => rwa [bailOut_tags]
  | answered m r _ _ _ => rwa [show _ = (s.settle m r).tags from rfl, settle_tags]
  | _ => exact ht

theorem Micro.sound (h : Micro cfg P ok s s') (hs : s.Sound cfg) : s'.Sound cfg where
  tags := h.tags_wellFormed hs.tags
  queues idx := (h.queueStep idx).wellFormed (hs.queues idx)
  numEntries idx := (h.queueStep idx).size.1.trans (hs.numEntries idx)
  numReserve idx := (h.queueStep idx).size.2.trans (hs.numReserve idx)
  writes := (h.queueStep .writeBuffer).entries (holdsWrite_invariant _) (hs.queues .writeBuffer) hs.writes

end

/-! ## Actions -/

/-- What the source asserts of the writeback a snoop finds in the write buffer. -/
def snoopAsserts (cfg : Config) (pkt : Packet) (s : Cache σ) : Prop :=
  pkt.req.uncacheable = false → pkt.cmd ≠ .writeback →
    (s.snoopMSHR (cfg.geom.blockAlign pkt.addr) pkt).2.2 = false →
    ∀ i ∈ (s.writeBuffer.findMatches (cfg.geom.blockAlign pkt.addr)).head?,
      (s.writeBuffer.registers i).isUncacheable = false ∧
        (s.writeBuffer.registers i).getNumTargets = 1 ∧
        ∀ t ∈ (s.writeBuffer.registers i).getTarget, t.pkt.cmd = .writeback

instance (cfg : Config) (pkt : Packet) (s : Cache σ) : Decidable (s.snoopAsserts cfg pkt) := by
  unfold snoopAsserts
  infer_instance

/-- What the environment may do. -/
def Enabled (cfg : Config) (s : Cache σ) : Action → Prop
  | .tick _ => True
  | .cpuPacket pkt => pkt.cmd ≠ .hardPFReq ∧ (pkt.cmd.isRequest = true ∨ pkt.cmd.isResponse = true)
  | .response m _ _ => m.2 ∈ (s.queue m.1).allocatedList ∧ (s.register m).inService = true
  | .snoop pkt _ => pkt.cmd ≠ .hardPFReq ∧ s.snoopAsserts cfg pkt
  | .sendPacket _ _ => True
  | .cpuSend => True
  | .downstream m _ => m.2 ∈ (s.queue m.1).allocatedList

instance (cfg : Config) (s : Cache σ) : DecidablePred (s.Enabled cfg) := by
  rintro ⟨⟩ <;> dsimp only [Enabled] <;> infer_instance

/-- The entry that is next to be sent is given up: it is a prefetch of a block
that is in the cache by now. -/
def BailsOut (cfg : Config) (s : Cache σ) (m : MshrRef) (target : Target) : Prop :=
  s.memSidePort.deferredPacketReady s.curTick = false ∧ s.pendingMSHR = some m ∧
    (s.register m).getTarget = some target ∧ (s.register m).isForwardNoResponse = false ∧
    s.needless cfg m target = true

section

variable {cfg : Config} {P : Policy σ} {ok : Allowed σ} {s : Cache σ}

/-- The writeback a snoop finds is still to be sent. -/
theorem Sound.snooped_ready (hs : s.Sound cfg) {pkt : Packet} (h : s.snoopAsserts cfg pkt)
    (hu : pkt.req.uncacheable = false) (hw : pkt.cmd ≠ .writeback)
    (hm : (s.snoopMSHR (cfg.geom.blockAlign pkt.addr) pkt).2.2 = false) {i : Nat}
    (hi : (s.writeBuffer.findMatches (cfg.geom.blockAlign pkt.addr)).head? = some i) :
    i ∈ s.writeBuffer.readyList := by
  have hmem : i ∈ s.writeBuffer.allocatedList := (List.mem_filter.1 (List.mem_of_head? hi)).1
  obtain ⟨-, t, ht, -, hresp, -, hin⟩ := hs.writes i hmem
  obtain ⟨-, -, hcmd⟩ := h hu hw hm i hi
  have hwb : t.pkt.cmd = .writeback := hcmd t (by simp [Mshr.getTarget, ht])
  refine (hs.queues .writeBuffer).mem_ready.2 ⟨hmem, ?_⟩
  apply Bool.eq_false_iff.2
  intro hsent
  have hneeds := hin hsent
  rw [hresp, hwb] at hneeds
  exact absurd hneeds (by decide)

/-- While the miss queue is not full there is a free register. -/
theorem Sound.free (hs : s.Sound cfg) (hroom : s.mshrQueue.isFull = false) : s.mshrQueue.freeList ≠ [] :=
  (hs.queues .mshrs).free_of_not_full (lt_of_lt_of_eq (Nat.succ_pos _) (hs.numReserve .mshrs).symm) hroom

/-- Every action the environment may take is a sequence of elementary operations. -/
theorem step_micros (hs : s.Sound cfg) {a : Action} (he : s.Enabled cfg a)
    (hbail : ∀ accept upward m target, a = .sendPacket accept upward → s.BailsOut cfg m target →
      ok.bail s m)
    (hpf : ∀ accept upward p pf', a = .sendPacket accept upward →
      s.memSidePort.deferredPacketReady s.curTick = false → s.nextPrefetch cfg = some p →
      ok.prefetch { s with prefetcher := pf' } p)
    (hin : ∀ pkt range, a = .cpuPacket pkt → s.entersAt cfg pkt = some range →
      ok.demand s.writeBuffer range.1 range.2) :
    Micros cfg P ok s (s.step cfg P a) := by
  cases a with
  | tick n => exact Micro.one (.time s n)
  | cpuPacket pkt =>
    show Micros cfg P ok s (s.cpuRecvTiming cfg P pkt)
    unfold cpuRecvTiming
    split
    · exact Micro.one (.others ⟨rfl, rfl, rfl, rfl, rfl, rfl, rfl, id⟩)
    · rename_i haccept
      apply timingAccess_micros he.1
      · intro hresp hinh
        have hreq : pkt.cmd.isRequest = true := he.2.resolve_right (by simp [hresp])
        simpa [hreq, hinh] using haccept
      · exact fun range hr => hin pkt range rfl hr
  | response m pkt upward => exact handleResponse_micros he.1 pkt upward
  | snoop pkt answer =>
    by_cases hskip : (pkt.req.uncacheable || pkt.cmd == .writeback) = true
    · have : s.step cfg P (.snoop pkt answer) = s := by simp [step, snoopTiming, hskip]
      rw [this]
    · simp only [Bool.or_eq_true, beq_iff_eq, not_or, Bool.not_eq_true] at hskip
      exact snoopTiming_micros he.1
        (fun hm i hi => hs.snooped_ready he.2 hskip.1 hskip.2 hm hi) answer
  | sendPacket accept upward =>
    apply sendPacket_micros accept upward
    · exact fun idx i hi => ((hs.queues idx).mem_ready.1 hi).1
    · exact hs.free
    · exact fun m target hd hm ht hf hn => hbail accept upward m target rfl ⟨hd, hm, ht, hf, hn⟩
    · exact fun p pf' hd hp => hpf accept upward p pf' rfl hd hp
  | cpuSend => exact Micro.one (.others ⟨rfl, rfl, rfl, rfl, rfl, rfl, rfl, id⟩)
  | downstream m pending => exact Micro.one (.flags s m (s.register m).isForward pending he)

theorem step_micros_any (hs : s.Sound cfg) {a : Action} (he : s.Enabled cfg a) :
    Micros cfg P {} s (s.step cfg P a) :=
  step_micros hs he (fun _ _ _ _ _ _ => trivial) (fun _ _ _ _ _ _ _ => trivial) (fun _ _ _ _ => trivial)

theorem step_sound (hs : s.Sound cfg) {a : Action} (he : s.Enabled cfg a) :
    (s.step cfg P a).Sound cfg :=
  invariant_of_micro (fun _ _ h hs => h.sound hs) (step_micros_any (P := P) hs he) hs

end

/-- The invariant holds in every state of every run. -/
theorem run_sound (cfg : Config) (P : Policy σ) (policy : σ) (as : List Action)
    (hen : Runs.Guarded (step cfg P) (Enabled cfg) (initial cfg policy) as) :
    Runs.Along (step cfg P) (Sound cfg) (initial cfg policy) as :=
  Runs.along_of_guarded (fun _ _ hs he => step_sound hs he) as _ (initial_sound cfg policy) hen

end Cache
end PrefetchSim
