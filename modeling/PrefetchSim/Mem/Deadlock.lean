import PrefetchSim.Mem.Blocked

/- A bail-out may block the access path for good.

   The bit for a full `mshrQueue` is taken back only where an entry is freed and the queue
   was full before. After a bail-out of the full queue the bit is set and the queue is not
   full (`blocked_not_exact`), and it does not get full again by requests, since these are
   refused, but only by prefetches that are in the queue already. If they are too few, the
   CPU side stays blocked in every continuation, also when all misses have been answered
   (`blocked_for_good`). -/
namespace PrefetchSim

variable {σ : Type}

/-- The policy, if it predicts nothing any more. -/
def Policy.mute (P : Policy σ) : Policy σ := { P with calculatePrefetch := fun _ _ s => (s, []) }

theorem Prefetcher.notify_mute (P : Policy σ) (g : Geometry) (pf : PfConfig) (inCache inMissQueue : Addr → Bool)
    (now : Tick) (pkt : Packet) (time : Tick) (s : Prefetcher σ) :
    (s.notify P.mute g pf inCache inMissQueue now pkt time).1.pf.length ≤ s.pf.length := by
  have hremove : (s.removeDemanded g pkt.addr).pf.length ≤ s.pf.length := List.length_eraseP_le
  unfold notify
  dsimp only
  split
  swap
  · exact Nat.le_refl _
  split
  · refine Nat.le_trans ?_ hremove
    exact (List.rdropWhile_prefix ..).length_le
  · exact hremove

namespace Cache

variable {cfg : Config} {P : Policy σ} {ok : Allowed σ}
  {s s' : Cache σ}

/-! ## The bit for a full `mshrQueue` -/

/-- `Blocked_NoMSHRs` is set. -/
def NoMSHRs (s : Cache σ) : Prop := s.blocked.getLsbD BlockedCause.noMSHRs.bit = true

instance (s : Cache σ) : Decidable s.NoMSHRs := inferInstanceAs (Decidable (_ = _))

theorem NoMSHRs.setBlocked (h : s.NoMSHRs) (c : BlockedCause) : (s.setBlocked c).NoMSHRs := by
  show (s.blocked ||| c.flag).getLsbD _ = true
  rw [BitVec.getLsbD_or, h]
  rfl

theorem NoMSHRs.clearBlocked (h : s.NoMSHRs) {c : BlockedCause} (hc : c ≠ .noMSHRs) :
    (s.clearBlocked c).NoMSHRs := by
  show (s.blocked &&& ~~~c.flag).getLsbD _ = true
  rw [BitVec.getLsbD_and, h, getLsbD_not_flag]
  exact decide_eq_true hc

theorem NoMSHRs.setQueue (h : s.NoMSHRs) (idx : QueueIdx) (q : MshrQueue) : (s.setQueue idx q).NoMSHRs := by
  cases idx <;> exact h

/-- An entry is freed that was not the last one. -/
theorem NoMSHRs.freed (h : s.NoMSHRs) (hroom : s.mshrQueue.isFull = false) (idx : QueueIdx) (q : MshrQueue) :
    (s.freed idx q).NoMSHRs := by
  unfold Cache.freed
  split
  · rename_i hfull
    cases idx with
    | mshrs =>
      have : s.mshrQueue.isFull = true := (Bool.and_eq_true_iff.1 hfull).1
      rw [hroom] at this
      cases this
    | writeBuffer => exact (h.setQueue .writeBuffer q).clearBlocked (by decide)
  · exact h.setQueue idx q

theorem NoMSHRs.allocateBuffer (h : s.NoMSHRs) (idx : QueueIdx) (addr : Addr) (size : Nat) (pkt : Packet)
    (time : Tick) : (s.allocateBuffer idx addr size pkt time).1.NoMSHRs := by
  have hset := h.setQueue idx ((s.queue idx).allocate addr size pkt time s.order).1
  unfold Cache.allocateBuffer
  dsimp only
  split
  · exact NoMSHRs.setBlocked hset _
  · exact hset

/-- A set bit blocks the port. -/
theorem NoMSHRs.blocked (h : s.NoMSHRs) (hport : s.PortExact) : s.cpuSidePort.blocked = true := by
  rw [hport]
  refine decide_eq_true fun hzero => ?_
  rw [NoMSHRs, hzero] at h
  simp at h

/-! ## The entries that can be in use -/

/-- The entries in use, and those that the queued prefetches will use at most. -/
def demand (s : Cache σ) : Int := s.mshrQueue.allocated + s.prefetcher.pf.length

theorem demand_congr (hq : s'.mshrQueue = s.mshrQueue) (hpf : s'.prefetcher = s.prefetcher) :
    s'.demand ≤ s.demand := by
  unfold demand
  rw [hq, hpf]

theorem demand_queue {idx : QueueIdx} {q : MshrQueue} (hle : q.allocated ≤ (s.queue idx).allocated)
    (hq : s'.queue .mshrs = if QueueIdx.mshrs = idx then q else s.queue .mshrs)
    (hpf : s'.prefetcher.pf = s.prefetcher.pf) : s'.demand ≤ s.demand := by
  have hqueue : s'.mshrQueue = if QueueIdx.mshrs = idx then q else s.mshrQueue := hq
  unfold demand
  rw [hqueue, hpf]
  refine Int.add_le_add_right ?_ _
  cases idx with
  | mshrs => exact hle
  | writeBuffer => exact Int.le_refl _

theorem servePrefetches_length (P : Policy σ) (hasBlk : Bool) (ts : List Target) (s : Prefetcher σ) :
    (servePrefetches P hasBlk ts s).pf = s.pf := by
  induction ts generalizing s with
  | nil => rfl
  | cons t ts ih =>
    refine (ih (servePrefetch P hasBlk s t)).trans ?_
    unfold servePrefetch
    split
    · split <;> rfl
    · rfl

/-- As long as the port is blocked, no elementary operation needs more entries. -/
theorem Micro.demand_le (h : Micro cfg P.mute ok s s') (hblocked : s.cpuSidePort.blocked = true) :
    s'.demand ≤ s.demand := by
  cases h with
  | others core => exact demand_congr core.mshrQueue core.prefetcher
  | time | block | unblock | target | snoop => exact Int.le_refl _
  | miss addr size pkt hopen =>
    rw [hblocked] at hopen
    cases hopen
  | write pkt => exact demand_congr (queue_allocateBuffer .writeBuffer .mshrs ..) (allocateBuffer_prefetcher ..)
  | flags m => obtain ⟨_ | _, i⟩ := m <;> exact Int.le_refl _
  | notify pkt time => exact Int.add_le_add_left (Int.ofNat_le.2 (Prefetcher.notify_mute P ..)) _
  | popDrop p rest head =>
    refine Int.add_le_add_left (Int.ofNat_le.2 ?_) _
    rw [head]
    exact Nat.le_succ _
  | popMiss p rest head =>
    have hq : (({ s with prefetcher := s.prefetcher.getPacket rest } : Cache σ).allocateMissBuffer cfg p
        s.curTick).1.mshrQueue =
        (s.mshrQueue.allocate (cfg.geom.blockAlign p.addr) cfg.geom.blkSize p s.curTick s.order).1 :=
      allocateBuffer_queue .mshrs ..
    have hpf : (({ s with prefetcher := s.prefetcher.getPacket rest } : Cache σ).allocateMissBuffer cfg p
        s.curTick).1.prefetcher = s.prefetcher.getPacket rest := allocateBuffer_prefetcher ..
    have hmore := (s.mshrQueue.allocate_allocated (cfg.geom.blockAlign p.addr) cfg.geom.blkSize p s.curTick
      s.order).2
    unfold demand
    rw [hq, hpf, head, List.length_cons]
    show _ + (rest.length : Int) ≤ _
    omega
  | sent m =>
    exact demand_queue (MshrQueue.markInService_allocated _ m.2) (queue_freed ..)
      (congrArg Prefetcher.pf (freed_prefetcher ..))
  | bail m target =>
    refine demand_queue (MshrQueue.bailOut_allocated _ m.2) (queue_bailOut ..) ?_
    rw [bailOut_prefetcher]
    rfl
  | answered m r hasBlk =>
    exact demand_queue (MshrQueue.finish_allocated _ m.2 s.curTick r.served) (queue_settle m r s .mshrs)
      (servePrefetches_length ..)

/-! ## Runs -/

/-- The bit is set, and the queue cannot get full any more. -/
structure Deaf (cfg : Config) (s : Cache σ) : Prop where
  sound : s.Sound cfg
  port : s.PortExact
  bit : s.NoMSHRs
  room : s.demand < cfg.mshrs

theorem Deaf.not_full (h : s.Deaf cfg) : s.mshrQueue.isFull = false := by
  refine Bool.eq_false_iff.2 fun hfull => ?_
  have hle := (h.sound.isFull_iff .mshrs).1 hfull
  have hroom := h.room
  simp only [demand, Config.entries, queue] at hroom hle
  omega

theorem Micro.deaf (h : Micro cfg P.mute ok s s') (hs : s.Deaf cfg) : s'.Deaf cfg := by
  have hroom := hs.not_full
  refine ⟨h.sound hs.sound, h.portExact hs.port, ?_,
    Int.lt_of_le_of_lt (h.demand_le (hs.bit.blocked hs.port)) hs.room⟩
  cases h with
  | others core =>
    show s'.blocked.getLsbD _ = true
    rw [core.blocked]
    exact hs.bit
  | block => exact hs.bit.setBlocked _
  | unblock => exact hs.bit.clearBlocked (by decide)
  | miss addr size pkt => exact hs.bit.allocateBuffer .mshrs addr size pkt _
  | write pkt => exact hs.bit.allocateBuffer .writeBuffer pkt.addr pkt.size pkt _
  | flags m => exact hs.bit.setQueue m.1 _
  | popMiss p rest head =>
    have hpop : ({ s with prefetcher := s.prefetcher.getPacket rest } : Cache σ).NoMSHRs := hs.bit
    exact hpop.allocateBuffer .mshrs _ _ p _
  | sent m => exact hs.bit.freed hroom m.1 _
  | bail m target =>
    rw [bailOut_eq]
    exact hs.bit.setQueue m.1 _
  | answered m r hasBlk =>
    have hsettle : (s.settle m r).NoMSHRs := by
      unfold settle
      split
      · exact hs.bit.setQueue m.1 _
      · exact hs.bit.freed hroom m.1 _
    exact hsettle
  | _ => exact hs.bit

/-- What a request does to a blocked cache. -/
theorem cpuRecvTiming_refused {pkt : Packet} (hblocked : s.cpuSidePort.blocked = true)
    (hreq : pkt.cmd.isRequest = true) (hinh : pkt.memInhibit = false) :
    s.cpuRecvTiming cfg P pkt = { s with cpuSidePort := { s.cpuSidePort with mustSendRetry := true } } := by
  unfold cpuRecvTiming
  rw [if_pos (by simp [hreq, hinh, hblocked])]

/-- A blocked cache does not ask its policy for a prediction. -/
theorem step_mute (hblocked : s.cpuSidePort.blocked = true) {a : Action} (he : s.Enabled cfg a) :
    s.step cfg P a = s.step cfg P.mute a := by
  cases a with
  | cpuPacket pkt =>
    show s.cpuRecvTiming cfg P pkt = s.cpuRecvTiming cfg P.mute pkt
    by_cases hinh : pkt.memInhibit = true
    · unfold cpuRecvTiming timingAccess
      simp only [hinh, Bool.not_true, Bool.and_false, Bool.false_and, Bool.false_eq_true, if_false, if_true]
    · rw [Bool.not_eq_true] at hinh
      rcases he.2 with hreq | hresp
      · rw [cpuRecvTiming_refused hblocked hreq hinh, cpuRecvTiming_refused hblocked hreq hinh]
      · unfold cpuRecvTiming timingAccess
        simp only [hresp, if_true]
  | _ => rfl

theorem Deaf.step (h : s.Deaf cfg) {a : Action} (he : s.Enabled cfg a) : (s.step cfg P a).Deaf cfg := by
  rw [step_mute (h.bit.blocked h.port) he]
  have hmicros : Micros cfg P.mute {} s (s.step cfg P.mute a) := step_micros_any h.sound he
  exact invariant_of_micro (fun _ _ hmicro hs => hmicro.deaf hs) hmicros h

/-- Every request of the CPU side is turned away. -/
def TurnsAway (cfg : Config) (P : Policy σ) (s : Cache σ) : Prop :=
  ∀ pkt : Packet, pkt.cmd.isRequest = true → pkt.memInhibit = false →
    s.cpuRecvTiming cfg P pkt = { s with cpuSidePort := { s.cpuSidePort with mustSendRetry := true } }

/-- Once the bit for a full `mshrQueue` is set, and the entries in use and the prefetches in
the queue together are fewer than the queue has entries, every request is turned away in
every state of every continuation. -/
theorem blocked_for_good (cfg : Config) (P : Policy σ) (policy : σ) (as bs : List Action)
    (hen : Runs.Guarded (step cfg P) (Enabled cfg) (initial cfg policy) (as ++ bs))
    (hbit : (Runs.exec (step cfg P) (initial cfg policy) as).NoMSHRs)
    (hroom : (Runs.exec (step cfg P) (initial cfg policy) as).mshrQueue.allocated +
      (Runs.exec (step cfg P) (initial cfg policy) as).prefetcher.pf.length < cfg.mshrs) :
    Runs.Along (step cfg P) (TurnsAway cfg P) (Runs.exec (step cfg P) (initial cfg policy) as) bs := by
  obtain ⟨hfirst, hrest⟩ := (Runs.guarded_append ..).1 hen
  have hport : (Runs.exec (step cfg P) (initial cfg policy) as).Sound cfg ∧
      (Runs.exec (step cfg P) (initial cfg policy) as).PortExact := by
    refine Runs.exec_invariant (I := fun s => s.Sound cfg ∧ s.PortExact) ?_ as _
      ⟨initial_sound cfg policy, rfl⟩ hfirst
    exact fun s a hs he => ⟨step_sound hs.1 he, step_portExact hs.1 he hs.2⟩
  have hdeaf : Runs.Along (step cfg P) (Deaf cfg) (Runs.exec (step cfg P) (initial cfg policy) as) bs :=
    Runs.along_of_guarded (fun _ _ h he => Deaf.step h he) bs _ ⟨hport.1, hport.2, hbit, hroom⟩ hrest
  refine Runs.along_mono (fun s hs pkt hreq hinh => ?_) bs _ hdeaf
  exact cpuRecvTiming_refused (hs.bit.blocked hs.port) hreq hinh

/-- The block of a load arrives. -/
def arrival (i : Nat) (addr : Addr) : Action :=
  .response (.mshrs, i) { load 1 addr with cmd := .readResp, size := 64, data := List.replicate 64 0 } noSnoops

/-- The last request is sent, and all are answered. -/
def answeredRun : List Action :=
  [.tick 9, .sendPacket true noSnoops, arrival 0 4096, arrival 1 4160, arrival 2 4224, arrival 3 4288, arrival 5 8192]

/-- After `stuckRun` no load is accepted any more, even when there are no misses left. -/
theorem blocked_for_good_stuck :
    let s := Runs.exec (step (smallConfig 6) (proxy 0 dcpt)) (initial (smallConfig 6) Dcpt.initial) stuckRun
    (Runs.exec (step (smallConfig 6) (proxy 0 dcpt)) s answeredRun).mshrQueue.allocatedList = [] ∧
      Runs.Along (step (smallConfig 6) (proxy 0 dcpt)) (TurnsAway (smallConfig 6) (proxy 0 dcpt)) s
        (answeredRun ++ [.cpuPacket (load 1 4096)]) :=
  ⟨by decide +kernel, blocked_for_good (smallConfig 6) (proxy 0 dcpt) Dcpt.initial stuckRun _ (by decide +kernel)
    (by decide +kernel) (by decide +kernel)⟩

end Cache

end PrefetchSim
