import PrefetchSim.Mem.Sound

/- When the access path is blocked. The cache sets a bit of `blocked` when an
   allocation fills a queue, and takes it back wherever it frees an entry, by
   comparing `isFull` before and after. The bail-out of `getTimingPacket`, which
   gives up a prefetch whose block has arrived by other means, frees its entry
   without that comparison.

   Proved here: from the initial state, the bits are exact in every state of a
   run if and only if the queues were built with at least one entry and no step
   of the run is such a bail-out of the last target of an entry while
   `mshrQueue` is full (`blocked_exact_iff`). -/
namespace PrefetchSim

/-- The bit of `blocked` that stands for a cause. -/
def BlockedCause.bit : BlockedCause → Nat
  | .noMSHRs => 0
  | .noWBBuffers => 1
  | .noTargets => 2

theorem getLsbD_flag (c c' : BlockedCause) : c.flag.getLsbD c'.bit = decide (c = c') := by
  cases c <;> cases c' <;> decide

theorem getLsbD_not_flag (c c' : BlockedCause) : (~~~c.flag).getLsbD c'.bit = decide (c ≠ c') := by
  cases c <;> cases c' <;> decide

theorem or_flag_ne_zero (b : BitVec 8) (c : BlockedCause) : b ||| c.flag ≠ 0 := by
  intro h
  have := congrArg (fun v => v.getLsbD c.bit) h
  simp [BitVec.getLsbD_or, getLsbD_flag] at this

/-! ## Fullness of a queue -/

namespace MshrQueue

theorem isFull_mono {q q' : MshrQueue} (he : q'.numEntries = q.numEntries)
    (hr : q'.numReserve = q.numReserve) (h : q.allocated ≤ q'.allocated) (hfull : q.isFull = true) :
    q'.isFull = true := by
  simp only [isFull, decide_eq_true_eq, he, hr] at hfull ⊢
  omega

theorem allocate_allocated (q : MshrQueue) (addr : Addr) (size : Nat) (pkt : Packet) (time : Tick)
    (order : Nat) : q.allocated ≤ (q.allocate addr size pkt time order).1.allocated ∧
      (q.allocate addr size pkt time order).1.allocated ≤ q.allocated + 1 := by
  unfold allocate
  split <;> simp only [addToReadyList] <;> omega

theorem markInService_allocated (q : MshrQueue) (i : Nat) :
    (q.markInService i).allocated ≤ q.allocated := by
  unfold markInService
  dsimp only
  split <;> simp only [deallocate, modify] <;> omega

theorem bailOut_allocated (q : MshrQueue) (i : Nat) : (q.bailOut i).allocated ≤ q.allocated := by
  unfold bailOut
  dsimp only
  split <;> simp only [deallocate, modify] <;> omega

theorem finish_allocated (q : MshrQueue) (i : Nat) (now : Tick) (r : Mshr) :
    (q.finish i now r).allocated ≤ q.allocated := by
  unfold finish
  split <;> simp only [deallocate, modify, markPending, addToReadyList] <;> omega

end MshrQueue

namespace Cache

variable {σ : Type}

/-! ## Exact bits -/

/-- A queue's bit is set iff the queue is full, and the port is blocked iff a bit is set. -/
structure BlockedExact (s : Cache σ) : Prop where
  full : ∀ idx : QueueIdx, s.blocked.getLsbD idx.cause.bit = (s.queue idx).isFull
  port : s.cpuSidePort.blocked = decide (s.blocked ≠ 0)

theorem cause_inj {idx idx' : QueueIdx} : idx.cause = idx'.cause ↔ idx = idx' := by
  cases idx <;> cases idx' <;> decide

section

variable {cfg : Config} {s : Cache σ}

/-- The port is blocked iff a bit is set. -/
def PortExact (s : Cache σ) : Prop := s.cpuSidePort.blocked = decide (s.blocked ≠ 0)

theorem PortExact.congr {s' : Cache σ} (h : s.PortExact) (hb : s'.blocked = s.blocked)
    (hp : s'.cpuSidePort.blocked = s.cpuSidePort.blocked) : s'.PortExact := by
  rw [PortExact, hb, hp]
  exact h

theorem PortExact.setBlocked (h : s.PortExact) (c : BlockedCause) : (s.setBlocked c).PortExact := by
  have hne := or_flag_ne_zero s.blocked c
  simp only [PortExact, Cache.setBlocked, hne, ne_eq, not_false_eq_true, decide_true]
  split
  · rfl
  · rename_i hb
    rw [h]
    simpa using hb

theorem PortExact.clearBlocked (h : s.PortExact) (c : BlockedCause) : (s.clearBlocked c).PortExact := by
  simp only [PortExact, Cache.clearBlocked]
  split
  · rename_i hb
    simp [hb]
  · rename_i hb
    -- a bit is left, so there was one before
    have hne : s.blocked ≠ 0 := fun h0 => hb (by simp [h0])
    rw [h, decide_eq_true hne, decide_eq_true hb]

theorem PortExact.setQueue (h : s.PortExact) (idx : QueueIdx) (q : MshrQueue) :
    (s.setQueue idx q).PortExact := by
  cases idx <;> exact h

theorem PortExact.freed (h : s.PortExact) (idx : QueueIdx) (q : MshrQueue) : (s.freed idx q).PortExact := by
  unfold Cache.freed
  split
  · exact (h.setQueue idx q).clearBlocked _
  · exact h.setQueue idx q

theorem PortExact.allocateBuffer (h : s.PortExact) (idx : QueueIdx) (addr : Addr) (size : Nat) (pkt : Packet)
    (time : Tick) : (s.allocateBuffer idx addr size pkt time).1.PortExact := by
  unfold Cache.allocateBuffer
  dsimp only
  have hset : ({ s.setQueue idx ((s.queue idx).allocate addr size pkt time s.order).1 with
      order := s.order + 1 } : Cache σ).PortExact := by
    cases idx <;> exact h
  split
  · exact hset.setBlocked _
  · exact hset

/-- Setting a bit that is right for the queues as they are now. -/
theorem BlockedExact.setBlocked {c : BlockedCause} (hport : s.cpuSidePort.blocked = decide (s.blocked ≠ 0))
    (hc : ∀ idx, (idx.cause = c → (s.queue idx).isFull = true) ∧
      (idx.cause ≠ c → s.blocked.getLsbD idx.cause.bit = (s.queue idx).isFull)) :
    (s.setBlocked c).BlockedExact where
  full idx := by
    rw [queue_setBlocked]
    simp only [Cache.setBlocked, BitVec.getLsbD_or, getLsbD_flag]
    by_cases h : idx.cause = c
    · simp [h, (hc idx).1 h]
    · simp [Ne.symm h, (hc idx).2 h]
  port := PortExact.setBlocked hport c

theorem BlockedExact.clearBlocked {c : BlockedCause}
    (hport : s.cpuSidePort.blocked = decide (s.blocked ≠ 0))
    (hc : ∀ idx, (idx.cause = c → (s.queue idx).isFull = false) ∧
      (idx.cause ≠ c → s.blocked.getLsbD idx.cause.bit = (s.queue idx).isFull)) :
    (s.clearBlocked c).BlockedExact where
  full idx := by
    rw [queue_clearBlocked]
    simp only [Cache.clearBlocked, BitVec.getLsbD_and, getLsbD_not_flag]
    by_cases h : idx.cause = c
    · simp [h, (hc idx).1 h]
    · simp [Ne.symm h, (hc idx).2 h]
  port := PortExact.clearBlocked hport c

/-- Only the bits, the port and the fullness of the queues matter. -/
theorem BlockedExact.congr {s' : Cache σ} (h : s.BlockedExact) (hb : s'.blocked = s.blocked)
    (hp : s'.cpuSidePort.blocked = s.cpuSidePort.blocked)
    (hq : ∀ idx, (s'.queue idx).isFull = (s.queue idx).isFull) : s'.BlockedExact where
  full idx := by rw [hb, hq, h.full]
  port := by rw [hb, hp, h.port]

/-- A queue is replaced by one that is as full as it was. -/
theorem BlockedExact.setQueue (h : s.BlockedExact) {idx : QueueIdx} {q : MshrQueue}
    (hq : q.isFull = (s.queue idx).isFull) : (s.setQueue idx q).BlockedExact := by
  refine h.congr (by cases idx <;> rfl) (by cases idx <;> rfl) fun idx' => ?_
  rw [queue_setQueue]
  split
  · rename_i heq
    rw [hq, heq]
  · rfl

theorem BlockedExact.freed (h : s.BlockedExact) {idx : QueueIdx} {q : MshrQueue}
    (hq : q.isFull = true → (s.queue idx).isFull = true) : (s.freed idx q).BlockedExact := by
  unfold Cache.freed
  split
  · rename_i hfreed
    simp only [Bool.and_eq_true, Bool.not_eq_true'] at hfreed
    refine BlockedExact.clearBlocked (by cases idx <;> exact h.port) fun idx' => ⟨?_, ?_⟩
    · intro hc
      rw [queue_setQueue, if_pos (cause_inj.1 hc)]
      exact hfreed.2
    · intro hc
      have hne : idx' ≠ idx := fun e => hc (by rw [e])
      rw [queue_setQueue, if_neg hne]
      cases idx <;> exact h.full idx'
  · rename_i hkept
    simp only [Bool.and_eq_true, Bool.not_eq_true', not_and, Bool.not_eq_false] at hkept
    exact h.setQueue (Bool.eq_iff_iff.2 ⟨hq, hkept⟩)

theorem BlockedExact.allocateBuffer (h : s.BlockedExact) (idx : QueueIdx) (addr : Addr) (size : Nat)
    (pkt : Packet) (time : Tick) : (s.allocateBuffer idx addr size pkt time).1.BlockedExact := by
  have hsize := QueueStep.size
    (.allocate addr size pkt time s.order nofun trivial : QueueStep .any .mshrs (s.queue idx) _)
  have hmono := MshrQueue.isFull_mono hsize.1 hsize.2
    (MshrQueue.allocate_allocated (s.queue idx) addr size pkt time s.order).1
  unfold Cache.allocateBuffer
  dsimp only
  generalize ((s.queue idx).allocate addr size pkt time s.order).1 = q at hmono ⊢
  have hqueue : ∀ idx', ({ s.setQueue idx q with order := s.order + 1 } : Cache σ).queue idx' =
      if idx' = idx then q else s.queue idx' := by
    intro idx'
    rw [← queue_setQueue]
    cases idx' <;> rfl
  split
  · rename_i hfull
    refine BlockedExact.setBlocked (by cases idx <;> exact h.port) fun idx' => ⟨?_, ?_⟩
    · intro hc
      rw [hqueue, if_pos (cause_inj.1 hc)]
      exact hfull
    · intro hc
      have hne : idx' ≠ idx := fun e => hc (by rw [e])
      rw [hqueue, if_neg hne]
      cases idx <;> exact h.full idx'
  · rename_i hroom
    have hsame : q.isFull = (s.queue idx).isFull := by
      refine Bool.eq_iff_iff.2 ⟨fun hq => absurd hq hroom, hmono⟩
    have hset := h.setQueue hsame
    refine ⟨fun idx' => ?_, hset.port⟩
    rw [hqueue, ← queue_setQueue]
    exact hset.full idx'

/-! ## Elementary operations -/

/-- The invariant of the runs in question. -/
structure BlockedInv (cfg : Config) (s : Cache σ) : Prop where
  sound : s.Sound cfg
  exact_ : s.BlockedExact
  bound : s.mshrQueue.allocated ≤ cfg.mshrs

/-- A bail-out that the blocking survives. -/
def harmlessBail (s : Cache σ) (m : MshrRef) : Prop :=
  s.mshrQueue.isFull = true → (s.register m).popTarget.hasTargets = true

theorem Sound.isFull_iff (hs : s.Sound cfg) (idx : QueueIdx) :
    (s.queue idx).isFull = true ↔ (cfg.entries idx : Int) ≤ (s.queue idx).allocated := by
  have hr : 0 < cfg.reserve idx := by cases idx <;> simp [Config.reserve]
  simp only [MshrQueue.isFull, decide_eq_true_eq, hs.numEntries idx, hs.numReserve idx]
  omega

/-- A prefetch is never in the write buffer. -/
theorem Sound.bail_mshrs (hs : s.Sound cfg) {m : MshrRef} {target : Target}
    (hready : m.2 ∈ (s.queue m.1).readyList) (hfirst : (s.register m).getTarget = some target)
    (hpf : target.pkt.cmd = .hardPFReq) : m.1 = .mshrs := by
  obtain ⟨_ | _, i⟩ := m
  · rfl
  · obtain ⟨-, t, ht, -, -, hcmd, -⟩ := hs.writes i ((hs.queues .writeBuffer).mem_ready.1 hready).1
    have hfirst' : (s.writeBuffer.registers i).targets.list.head? = some target := hfirst
    rw [ht, List.head?_cons] at hfirst'
    cases hfirst'
    exact absurd hpf hcmd

theorem bailOut_eq (m : MshrRef) (target : Target) (s : Cache σ) : s.bailOut m target =
    { s.setQueue m.1 ((s.queue m.1).bailOut m.2) with
      prefetcher := s.prefetcher.record [.dropped .bailOut target.pkt.addr] } := by
  obtain ⟨_ | _, i⟩ := m
  all_goals
    unfold bailOut MshrQueue.bailOut
    dsimp only
    split <;> simp_all [setRegister, setQueue, queue, register, MshrQueue.modify]

variable {P : Policy σ} {s' : Cache σ}

theorem Micro.portExact {ok : Allowed σ} (h : Micro cfg P ok s s')
    (hp : s.PortExact) : s'.PortExact := by
  cases h with
  | others core => exact hp.congr core.blocked core.port
  | block => exact hp.setBlocked _
  | unblock => exact hp.clearBlocked _
  | miss addr size pkt _ _ => exact hp.allocateBuffer .mshrs addr size pkt _
  | write pkt _ => exact hp.allocateBuffer .writeBuffer pkt.addr pkt.size pkt _
  | flags m _ _ _ => exact hp.setQueue m.1 _
  | popMiss p rest _ _ _ =>
    have hpop : ({ s with prefetcher := s.prefetcher.getPacket rest } : Cache σ).PortExact := hp
    exact hpop.allocateBuffer .mshrs _ _ p _
  | sent m _ => exact hp.freed m.1 _
  | bail m target _ _ _ _ =>
    rw [bailOut_eq]
    exact hp.setQueue m.1 _
  | answered m r _ _ _ =>
    have hsettle : (s.settle m r).PortExact := by
      unfold settle
      split
      · exact hp.setQueue m.1 _
      · exact hp.freed m.1 _
    exact hsettle
  | _ => exact hp

theorem step_portExact (hs : s.Sound cfg) {a : Action} (he : s.Enabled cfg a) (hp : s.PortExact) :
    (s.step cfg P a).PortExact := by
  have hmicros : Micros cfg P {} s (s.step cfg P a) := step_micros_any hs he
  exact invariant_of_micro (fun _ _ h hp => h.portExact hp) hmicros hp

theorem Micro.blockedExact (h : Micro cfg P { bail := harmlessBail } s s') (hs : s.Sound cfg)
    (hx : s.BlockedExact) : s'.BlockedExact := by
  have noTargets : ∀ idx : QueueIdx, idx.cause ≠ .noTargets := by intro idx; cases idx <;> decide
  cases h with
  | others core => exact hx.congr core.blocked core.port fun idx => by rw [core.queue]
  | time n => exact hx.congr rfl rfl fun idx => by cases idx <;> rfl
  | block =>
    exact BlockedExact.setBlocked hx.port fun idx =>
      ⟨fun hc => absurd hc (noTargets idx), fun _ => hx.full idx⟩
  | unblock =>
    exact BlockedExact.clearBlocked hx.port fun idx =>
      ⟨fun hc => absurd hc (noTargets idx), fun _ => hx.full idx⟩
  | miss addr size pkt _ _ => exact hx.allocateBuffer .mshrs addr size pkt _
  | write pkt _ => exact hx.allocateBuffer .writeBuffer pkt.addr pkt.size pkt _
  | target i pkt _ _ => exact hx.congr rfl rfl fun idx => by cases idx <;> rfl
  | snoop i pkt _ _ => exact hx.congr rfl rfl fun idx => by cases idx <;> rfl
  | flags m _ _ _ => exact hx.setQueue rfl
  | notify pkt time => exact hx.congr rfl rfl fun idx => by cases idx <;> rfl
  | popDrop p rest _ => exact hx.congr rfl rfl fun idx => by cases idx <;> rfl
  | popMiss p rest _ _ _ =>
    have hpop : ({ s with prefetcher := s.prefetcher.getPacket rest } : Cache σ).BlockedExact :=
      hx.congr rfl rfl fun idx => by cases idx <;> rfl
    exact hpop.allocateBuffer .mshrs _ _ p _
  | sent m hm =>
    apply hx.freed
    have hsize := QueueStep.size (.sent m.2 hm : QueueStep .any m.1 _ _)
    exact MshrQueue.isFull_mono hsize.1.symm hsize.2.symm (MshrQueue.markInService_allocated _ m.2)
  | bail m target hready hfirst hpf hok =>
    have hm := hs.bail_mshrs hready hfirst hpf
    have hsize := QueueStep.size (.bail m.2 target hready hfirst hpf : QueueStep .any m.1 _ _)
    have hshrink := MshrQueue.isFull_mono hsize.1.symm hsize.2.symm
      (MshrQueue.bailOut_allocated (s.queue m.1) m.2)
    -- while the queue is full the entry keeps a target, and so its place
    have hkeep : (s.queue m.1).isFull = true → ((s.queue m.1).bailOut m.2).isFull = true := by
      intro hfull
      have hmore : (((s.queue m.1).modify m.2 Mshr.popTarget).registers m.2).hasTargets = true := by
        rw [show ((s.queue m.1).modify m.2 Mshr.popTarget).registers m.2 = (s.register m).popTarget by
          simp [MshrQueue.modify, register]]
        apply hok
        rw [hm] at hfull
        exact hfull
      unfold MshrQueue.bailOut
      dsimp only
      rw [if_pos hmore]
      exact hfull
    rw [bailOut_eq]
    exact (hx.setQueue (Bool.eq_iff_iff.2 ⟨hshrink, hkeep⟩)).congr rfl rfl
      fun idx => by cases idx <;> rfl
  | answered m r hasBlk hm hfill =>
    have hsize := QueueStep.size (.finish m.2 s.curTick r hm hfill : QueueStep .any m.1 _ _)
    have hsettle : (s.settle m r).BlockedExact := by
      unfold settle
      split
      · rename_i hprom
        apply hx.setQueue
        rw [MshrQueue.finish, if_pos hprom]
        rfl
      · exact hx.freed (MshrQueue.isFull_mono hsize.1.symm hsize.2.symm
          (MshrQueue.finish_allocated _ m.2 _ _))
    exact hsettle.congr rfl rfl fun idx => by cases idx <;> rfl

theorem Micro.mshrs_bound (h : Micro cfg P { bail := harmlessBail } s s') (hs : s.Sound cfg)
    (hx : s.BlockedExact) (hb : s.mshrQueue.allocated ≤ cfg.mshrs) :
    s'.mshrQueue.allocated ≤ cfg.mshrs := by
  have room : ∀ (addr : Addr) (size : Nat) (pkt : Packet) (time : Tick), s.mshrQueue.isFull = false →
      (s.mshrQueue.allocate addr size pkt time s.order).1.allocated ≤ cfg.mshrs := by
    intro addr size pkt time hfull
    have hlt : ¬(cfg.mshrs : Int) ≤ s.mshrQueue.allocated := fun hle =>
      absurd ((hs.isFull_iff .mshrs).2 hle) (by simpa [queue] using hfull)
    have := (s.mshrQueue.allocate_allocated addr size pkt time s.order).2
    omega
  -- an operation that does not allocate leaves the queue of misses no fuller
  have shrink : ∀ m q, q.allocated ≤ (s.queue m).allocated → s'.queue .mshrs =
      (if QueueIdx.mshrs = m then q else s.queue .mshrs) → s'.mshrQueue.allocated ≤ cfg.mshrs := by
    intro m q hle heq
    have : s'.mshrQueue = if QueueIdx.mshrs = m then q else s.queue .mshrs := heq
    rw [this]
    split
    · rename_i hm
      subst hm
      exact le_trans hle hb
    · exact hb
  cases h with
  | others core => rwa [core.mshrQueue]
  | miss addr size pkt hopen _ =>
    have hclear : s.blocked = 0 := by
      rw [hx.port] at hopen
      simpa using hopen
    have hroom : s.mshrQueue.isFull = false := by
      have := hx.full .mshrs
      rw [hclear] at this
      exact this.symm.trans (BitVec.getLsbD_zero ..)
    have hq := queue_allocateBuffer .mshrs .mshrs addr size pkt (s.curTick + cfg.geom.hitLatency) s
    rw [if_pos rfl] at hq
    exact le_of_eq_of_le (congrArg MshrQueue.allocated hq) (room _ _ _ _ hroom)
  | popMiss p rest _ hroom _ =>
    have hq := queue_allocateBuffer .mshrs .mshrs (cfg.geom.blockAlign p.addr) cfg.geom.blkSize p
      s.curTick { s with prefetcher := s.prefetcher.getPacket rest }
    rw [if_pos rfl] at hq
    exact le_of_eq_of_le (congrArg MshrQueue.allocated hq) (room _ _ _ _ hroom)
  | write pkt _ =>
    have hq := queue_allocateBuffer .writeBuffer .mshrs pkt.addr pkt.size pkt
      (s.curTick + cfg.geom.hitLatency) s
    exact le_of_eq_of_le (congrArg MshrQueue.allocated hq) hb
  | flags m _ _ _ => obtain ⟨_ | _, i⟩ := m <;> exact hb
  | sent m _ => exact shrink m.1 _ (MshrQueue.markInService_allocated _ m.2) (queue_freed ..)
  | bail m target _ _ _ _ => exact shrink m.1 _ (MshrQueue.bailOut_allocated _ m.2) (queue_bailOut ..)
  | answered m r _ _ _ =>
    exact shrink m.1 _ (MshrQueue.finish_allocated _ m.2 s.curTick r.served) (queue_settle m r s .mshrs)
  | _ => exact hb

theorem Micro.blockedInv (h : Micro cfg P { bail := harmlessBail } s s') (hs : s.BlockedInv cfg) :
    s'.BlockedInv cfg :=
  ⟨h.sound hs.sound, h.blockedExact hs.sound hs.exact_, h.mshrs_bound hs.sound hs.exact_ hs.bound⟩

/-! ## Runs -/

/-- The step gives up the last target of an entry while `mshrQueue` is full. -/
def StuckBail (cfg : Config) (s : Cache σ) : Action → Prop
  | .sendPacket _ _ => s.mshrQueue.isFull = true ∧
      ∃ m target, s.BailsOut cfg m target ∧ (s.register m).targets.list = [target]
  | _ => False

theorem step_blockedInv (hs : s.BlockedInv cfg) {a : Action} (he : s.Enabled cfg a)
    (hok : ¬s.StuckBail cfg a) : (s.step cfg P a).BlockedInv cfg := by
  have hmicros : Micros cfg P { bail := harmlessBail } s (s.step cfg P a) := by
    refine step_micros hs.sound he ?_ (fun _ _ _ _ _ _ _ => trivial) (fun _ _ _ _ => trivial)
    intro accept upward m target ha hbail hfull
    subst ha
    by_contra hlast
    refine hok ⟨hfull, m, target, hbail, ?_⟩
    -- a first target and no second one
    have hfirst : (s.register m).targets.list.head? = some target := hbail.2.2.1
    obtain ⟨rest, hrest⟩ := List.head?_eq_some_iff.1 hfirst
    have hnil : rest = [] := by
      simpa [Mshr.hasTargets, Mshr.popTarget, hrest] using hlast
    rw [hrest, hnil]
  exact invariant_of_micro (fun _ _ h hs => h.blockedInv hs) hmicros hs

/-- What `sendPacket` does in the case of a bail-out. -/
theorem sendPacket_bails {m : MshrRef} {target : Target} (h : s.BailsOut cfg m target) (accept : Bool)
    (upward : Nat → SnoopAnswer) : s.sendPacket cfg P accept upward =
      { s.bailOut m target with
        memSidePort := { (s.bailOut m target).memSidePort with waitingOnRetry := false } } := by
  obtain ⟨hdeferred, hpending, hfirst, hforward, hneed⟩ := h
  have hcmd : target.pkt.cmd = .hardPFReq := by
    simp only [needless, Bool.and_eq_true, beq_iff_eq] at hneed
    exact hneed.2
  have hpacket : s.timingPacketFor cfg P upward m target = (s.bailOut m target, none) := by
    simp [timingPacketFor, hcmd, hforward, hneed]
  simp [sendPacket, hdeferred, getTimingPacket, getNextMSHR, hpending, hfirst, hpacket]

/-- After such a step the bit is still set, and the queue is no longer full. -/
theorem stuck_not_exact (hs : s.BlockedInv cfg) {a : Action} (h : s.StuckBail cfg a) :
    ¬(s.step cfg P a).BlockedExact := by
  cases a with
  | sendPacket accept upward =>
    obtain ⟨hfull, m, target, hbail, hone⟩ := h
    have hready := pendingMSHR_ready hbail.2.1
    have hcmd : target.pkt.cmd = .hardPFReq := by
      have := hbail.2.2.2.2
      simp only [needless, Bool.and_eq_true, beq_iff_eq] at this
      exact this.2
    have hm := hs.sound.bail_mshrs hready hbail.2.2.1 hcmd
    obtain ⟨idx, i⟩ := m
    obtain rfl : idx = .mshrs := hm
    intro hx
    have hbit := hx.full .mshrs
    rw [step, sendPacket_bails hbail, bailOut_eq] at hbit
    -- the queue has lost an entry, and the bits are as they were
    have hempty : ((s.mshrQueue.modify i Mshr.popTarget).registers i).hasTargets = false := by
      have : (s.mshrQueue.registers i).targets.list = [target] := hone
      simp [MshrQueue.modify, Mshr.hasTargets, Mshr.popTarget, this]
    have hqueue : s.mshrQueue.bailOut i = (s.mshrQueue.modify i Mshr.popTarget).deallocate i := by
      simp [MshrQueue.bailOut, hempty]
    have hroom : (s.mshrQueue.bailOut i).isFull = false := by
      have hsize := QueueStep.size
        (.bail i target hready hbail.2.2.1 hcmd : QueueStep .any .mshrs s.mshrQueue _)
      have hless : (s.mshrQueue.bailOut i).allocated = s.mshrQueue.allocated - 1 := by rw [hqueue]; rfl
      have hb := hs.bound
      have he := hs.sound.numEntries .mshrs
      have hr := hs.sound.numReserve .mshrs
      simp only [queue, Config.entries, Config.reserve] at he hr
      simp only [MshrQueue.isFull, decide_eq_false_iff_not, hsize.1, hsize.2, hless, he, hr]
      omega
    have hset := (hs.exact_.full .mshrs).trans hfull
    rw [show s.blocked.getLsbD QueueIdx.mshrs.cause.bit = _ from hbit] at hset
    exact absurd (hset.symm.trans hroom) (by simp)
  | _ => exact h.elim

end

theorem initial_exact_iff (cfg : Config) (policy : σ) :
    (initial cfg policy).BlockedExact ↔ 1 ≤ cfg.mshrs ∧ 1 ≤ cfg.writeBuffers := by
  have hfull : ∀ idx, ((initial cfg policy).queue idx).isFull = decide (cfg.entries idx = 0) := by
    intro idx
    have := (initial_sound cfg policy).isFull_iff idx
    rw [initial_queue] at this ⊢
    rw [Bool.eq_iff_iff, this]
    simp [MshrQueue.create]
  have hbit : ∀ idx : QueueIdx, (initial cfg policy).blocked.getLsbD idx.cause.bit = false :=
    fun idx => BitVec.getLsbD_zero ..
  refine ⟨fun h => ⟨?_, ?_⟩, fun h => ⟨?_, rfl⟩⟩
  · have := (hbit .mshrs).symm.trans ((h.full .mshrs).trans (hfull .mshrs))
    exact Nat.one_le_iff_ne_zero.2 (of_decide_eq_false this.symm)
  · have := (hbit .writeBuffer).symm.trans ((h.full .writeBuffer).trans (hfull .writeBuffer))
    exact Nat.one_le_iff_ne_zero.2 (of_decide_eq_false this.symm)
  · intro idx
    rw [hbit, hfull]
    cases idx
    · exact (decide_eq_false (Nat.one_le_iff_ne_zero.1 h.1)).symm
    · exact (decide_eq_false (Nat.one_le_iff_ne_zero.1 h.2)).symm

/-- The bits are exact along a run exactly if both queues have an entry and no
step of the run frees an entry of the full queue by a bail-out. -/
theorem blocked_exact_iff (cfg : Config) (P : Policy σ) (policy : σ) (as : List Action)
    (hen : Runs.Guarded (step cfg P) (Enabled cfg) (initial cfg policy) as) :
    Runs.Along (step cfg P) BlockedExact (initial cfg policy) as ↔
      (1 ≤ cfg.mshrs ∧ 1 ≤ cfg.writeBuffers) ∧
        Runs.Guarded (step cfg P) (fun s a => ¬s.StuckBail cfg a) (initial cfg policy) as := by
  rw [← initial_exact_iff cfg policy]
  have key : (initial cfg policy).BlockedExact →
      (Runs.Along (step cfg P) BlockedExact (initial cfg policy) as ↔
        Runs.Guarded (step cfg P) (fun s a => ¬s.StuckBail cfg a) (initial cfg policy) as) := by
    intro hx
    have hinit : (initial cfg policy).BlockedInv cfg :=
      ⟨initial_sound cfg policy, hx, by simp [initial, MshrQueue.create]⟩
    have keep : ∀ (s : Cache σ) a, s.BlockedInv cfg → s.BlockedExact → s.Enabled cfg a →
        ¬s.StuckBail cfg a → (s.step cfg P a).BlockedInv cfg ∧ (s.step cfg P a).BlockedExact := by
      intro s a hs _ he hok
      have hstep : (s.step cfg P a).BlockedInv cfg := step_blockedInv hs he hok
      exact ⟨hstep, hstep.exact_⟩
    have need : ∀ (s : Cache σ) a, s.BlockedInv cfg → s.BlockedExact → s.Enabled cfg a →
        (s.step cfg P a).BlockedExact → ¬s.StuckBail cfg a :=
      fun s a hs _ _ hgood hstuck => stuck_not_exact hs hstuck hgood
    exact Runs.along_iff_guarded keep need as _ hinit hx hen
  exact ⟨fun h => ⟨Runs.along_first h, (key (Runs.along_first h)).1 h⟩, fun h => (key h.1).2 h.2⟩

theorem blocked_exact_load :
    Runs.Along (step (smallConfig 1) (proxy 0 dcpt)) BlockedExact (initial (smallConfig 1) Dcpt.initial)
      [.cpuPacket (load 1 4096)] :=
  (blocked_exact_iff (smallConfig 1) (proxy 0 dcpt) Dcpt.initial [.cpuPacket (load 1 4096)]
    (by decide +kernel)).2 ⟨by decide, fun h => h, trivial⟩

/-- Four loads make the prefetcher ask for block 4352. The prefetch waits for
the bus when an upper level gives that block back, and another load then
takes the last entry. -/
def stuckRun : List Action :=
  [.cpuPacket (load 1 4096), .cpuPacket (load 1 4160), .cpuPacket (load 1 4224),
   .cpuPacket (load 1 4288), .tick 2, .sendPacket true noSnoops, .sendPacket true noSnoops,
   .sendPacket true noSnoops, .sendPacket true noSnoops, .sendPacket false noSnoops,
   .cpuPacket (giveBack 4352 7), .cpuPacket (load 2 8192), .sendPacket true noSnoops]

theorem blocked_not_exact :
    Runs.Guarded (step (smallConfig 6) (proxy 0 dcpt)) (Enabled (smallConfig 6))
      (initial (smallConfig 6) Dcpt.initial) stuckRun ∧
    let s := Runs.exec (step (smallConfig 6) (proxy 0 dcpt)) (initial (smallConfig 6) Dcpt.initial) stuckRun
    s.blocked.getLsbD BlockedCause.noMSHRs.bit = true ∧ s.mshrQueue.isFull = false ∧
      s.cpuSidePort.blocked = true := by
  decide +kernel

end Cache
end PrefetchSim
