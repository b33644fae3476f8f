import PrefetchSim.Mem.Unique

/- The limit on the targets of an outstanding miss.

   `timingAccess` compares the number of targets with the limit after a request has
   joined an entry, and blocks the port when the two are equal. A snoop that the entry
   tracks adds a target as well, without that comparison, so the number can pass the
   limit unseen; and the first target of a new entry is not compared either.

   Proved here: with a limit of at least two, in every run in which each tracked snoop
   leaves room for another target, or finds the port blocked for its entry, no entry
   has more requests of the CPU side than the limit, and the port is blocked after every
   request that leaves an entry with as many targets as the limit (`target_limit`). -/
namespace PrefetchSim

namespace Mshr

/-- The targets that came from the CPU side. -/
def cpuTargets (m : Mshr) : Nat :=
  (m.targets.list ++ m.deferredTargets.list).countP (·.source == .fromCPU)

/-- Whether a snoop becomes a target. -/
def tracks (m : Mshr) (pkt : Packet) : Bool :=
  m.inService && !(pkt.expressSnoop && m.downstreamPending) && !m.pendingInvalidate &&
    (m.targets.needsExclusive || pkt.cmd.needsExclusive)

/-- An entry within the limit `n`. The bound on the deferred targets is strict, since
they are the targets of the entry once the others have been served. -/
structure Within (n : Nat) (full : Prop) (m : Mshr) : Prop where
  cpu : m.cpuTargets ≤ n
  deferred : m.deferredTargets.list.length < n
  room : m.ntargets < n ∨ full

theorem Busy.cpuTargets_le {m : Mshr} (h : m.Busy) : m.cpuTargets ≤ m.ntargets := by
  rw [h.count, ← List.length_append]
  exact List.countP_le_length

theorem replaceIf_cpu (b : Bool) (tl : TargetList) :
    (replaceIf b tl).list.countP (·.source == .fromCPU) = tl.list.countP (·.source == .fromCPU) := by
  have hmap : ∀ l : List Target, l.countP (·.source == .fromCPU) =
      (l.map Target.source).countP (· == .fromCPU) := by
    intro l
    rw [List.countP_map]
    rfl
  rw [hmap, hmap, replaceIf_sources]

/-- A snoop adds at most one target, and none of the CPU side. -/
theorem handleSnoop_targets (m : Mshr) (now : Tick) (pkt : Packet) (order : Nat) :
    let r := (m.handleSnoop now pkt order).1
    r.ntargets = m.ntargets + (m.tracks pkt).toNat ∧ r.cpuTargets = m.cpuTargets ∧
      r.deferredTargets.list.length = m.deferredTargets.list.length := by
  unfold handleSnoop tracks
  by_cases hfirst : (!m.inService || (pkt.expressSnoop && m.downstreamPending)) = true
  · -- the snooped request comes first
    have hnone : (m.inService && !(pkt.expressSnoop && m.downstreamPending)) = false := by
      revert hfirst
      cases m.inService <;> simp
    rw [if_pos hfirst, hnone]
    simp [cpuTargets, List.countP_append, replaceIf_cpu, replaceIf_length]
  · have hsome : (m.inService && !(pkt.expressSnoop && m.downstreamPending)) = true := by
      revert hfirst
      cases m.inService <;> cases (pkt.expressSnoop && m.downstreamPending) <;> simp
    rw [if_neg hfirst, hsome]
    dsimp only
    cases m.pendingInvalidate
    · by_cases hex : (m.targets.needsExclusive || pkt.cmd.needsExclusive) = true
      · rw [hex]
        simp only [Bool.false_eq_true, if_false, if_true]
        split <;>
          simp [cpuTargets, List.countP_append, replaceIf_cpu, replaceIf_length, TargetList.add]
      · rw [Bool.eq_false_iff.2 hex]
        simp [cpuTargets, List.countP_append, replaceIf_cpu, replaceIf_length]
    · simp [cpuTargets, List.countP_append, replaceIf_cpu, replaceIf_length]

namespace Within

variable {n : Nat} {full full' : Prop} {m : Mshr}

theorem mono (h : m.Within n full) (hf : full → full') : m.Within n full' :=
  ⟨h.cpu, h.deferred, h.room.imp_right hf⟩

theorem of_idle (hm : m.Idle) (hn : 2 ≤ n) (addr : Addr) (size : Nat) (pkt : Packet) (time : Tick)
    (order : Nat) : (m.allocate addr size pkt time order).Within n full := by
  have hbusy := hm.allocate addr size pkt time order
  have hone : (m.allocate addr size pkt time order).ntargets = 1 := rfl
  have hcpu := hbusy.cpuTargets_le
  have hdef : (m.allocate addr size pkt time order).deferredTargets.list.length = 0 := by
    simp [Mshr.allocate, hm.deferred]
  exact ⟨by omega, by omega, .inl (by omega)⟩

/-- A request that joins an entry with room for it. -/
theorem join (hm : m.Busy) (hroom : m.ntargets < n) (pkt : Packet) (time : Tick) (order : Nat)
    (hfull : (m.allocateTarget pkt time order).ntargets = n → full) :
    (m.allocateTarget pkt time order).Within n full := by
  have hbusy := hm.allocateTarget pkt time order
  have hone : (m.allocateTarget pkt time order).ntargets = m.ntargets + 1 := by
    unfold Mshr.allocateTarget
    split <;> rfl
  have hcpu := hbusy.cpuTargets_le
  have hcount := hbusy.count
  have hpos := List.length_pos_iff.2 hbusy.nonempty
  refine ⟨by omega, by omega, ?_⟩
  by_cases hlast : (m.allocateTarget pkt time order).ntargets = n
  · exact .inr (hfull hlast)
  · exact .inl (by omega)

theorem snoop (h : m.Within n full) (now : Tick) (pkt : Packet) (order : Nat)
    (hroom : m.tracks pkt = true → m.ntargets + 1 < n ∨ full) :
    (m.handleSnoop now pkt order).1.Within n full := by
  obtain ⟨hn, hcpu, hdef⟩ := handleSnoop_targets m now pkt order
  refine ⟨hcpu ▸ h.cpu, hdef ▸ h.deferred, ?_⟩
  rw [hn]
  cases ht : m.tracks pkt with
  | false => exact h.room
  | true => exact hroom ht

theorem popTarget (h : m.Within n full) : m.popTarget.Within n full := by
  refine ⟨le_trans ?_ h.cpu, h.deferred, h.room.imp_left fun hr => ?_⟩
  · exact List.Sublist.countP_le (List.Sublist.append_right (List.tail_sublist _) _)
  · exact lt_of_le_of_lt (Nat.sub_le _ 1) hr

/-- After a response the deferred targets are all there is. -/
theorem promote {r : Mshr} (h : m.Within n full) (hm : m.Busy)
    (hr : r = m ∨ ∃ pkt, r = (m.handleFill pkt).1) (now : Tick)
    (hprom : (r.served.promoteDeferredTargets now).2 = true) :
    { (r.served.promoteDeferredTargets now).1 with inService := false }.Within n full' := by
  have hbusy := (hm.filled hr).1
  have hdef : r.deferredTargets.list.length < n := by
    refine lt_of_le_of_lt ?_ h.deferred
    rcases hr with rfl | ⟨pkt, rfl⟩
    · exact le_rfl
    · unfold Mshr.handleFill
      dsimp only
      split
      · exact Nat.zero_le _
      · exact le_rfl
  have hpromoted := (hbusy.promote now).1 hprom
  have hcpu := hpromoted.cpuTargets_le
  have hnt : (r.served.promoteDeferredTargets now).1.ntargets = r.deferredTargets.list.length := by
    have hcount := hbusy.count
    rw [promoteDeferredTargets_ntargets]
    show r.ntargets - r.targets.list.length = _
    omega
  have hnil := hpromoted.pending rfl
  refine ⟨?_, ?_, .inl ?_⟩
  · exact le_trans hcpu (by rw [hnt]; exact hdef.le)
  · rw [hnil]
    exact lt_of_le_of_lt (Nat.zero_le _) hdef
  · rw [hnt]
    exact hdef

end Within

end Mshr

/-! ## Misses within the limit -/

/-- Every entry is within the limit or is the one the port is blocked for. -/
structure Misses.Limited (n : Nat) (v : Misses) : Prop where
  entries : ∀ i ∈ v.queue.allocatedList, (v.queue.registers i).Within n (v.noTarget = some (.mshrs, i))
  blocked : v.noTarget ≠ none → v.noTargets = true

theorem Misses.Limited.room {n : Nat} {v : Misses} (h : v.Limited n) (hopen : v.noTargets = false) {i : Nat}
    (hi : i ∈ v.queue.allocatedList) : (v.queue.registers i).ntargets < n := by
  refine (h.entries i hi).room.resolve_right fun hfull => ?_
  have hblocked := h.blocked (by simp [hfull])
  rw [hopen] at hblocked
  cases hblocked

theorem Misses.Limited.clear {n : Nat} {v : Misses} (h : v.Limited n) (m : MshrRef) :
    (∀ i ∈ v.queue.allocatedList, (.mshrs, i) ≠ m →
      (v.queue.registers i).Within n ((v.clear m).noTarget = some (.mshrs, i))) ∧
      ((v.clear m).noTarget ≠ none → (v.clear m).noTargets = true) := by
  unfold Misses.clear
  by_cases hm : v.noTarget = some m
  · rw [if_pos hm]
    refine ⟨fun i hi hne => (h.entries i hi).mono fun hfull => ?_, by simp⟩
    exact absurd (Option.some.inj (hfull.symm.trans hm)) hne
  · rw [if_neg hm]
    exact ⟨fun i hi _ => h.entries i hi, h.blocked⟩

theorem MissStep.limited {cfg : Config} {c : Prop} {v v' : Misses} (h : MissStep cfg c v v')
    (hn : 2 ≤ cfg.numTarget) (hq : v.queue.WellFormed) (hl : v.Limited cfg.numTarget) :
    v'.Limited cfg.numTarget := by
  cases h with
  | allocate addr size pkt time order _ =>
    refine ⟨?_, hl.blocked⟩
    exact @MshrQueue.WellFormed.forall_allocate v.queue
      (fun i m => m.Within cfg.numTarget (v.noTarget = some (.mshrs, i))) hq addr size pkt time order
      hl.entries fun _ m hm => .of_idle hm hn addr size pkt time order
  | join i pkt time order hi _ hroom =>
    have hjoin := @Mshr.Within.join cfg.numTarget True _ (hq.busy i hi) (hl.room hroom hi) pkt time order
      fun _ => trivial
    have hothers : ∀ k ∈ v.queue.allocatedList, ∀ full, (v.queue.registers k).Within cfg.numTarget full :=
      fun k hk _ => ⟨(hl.entries k hk).cpu, (hl.entries k hk).deferred, .inl (hl.room hroom hk)⟩
    unfold Misses.join
    dsimp only
    split
    · refine ⟨?_, fun _ => rfl⟩
      exact @MshrQueue.forall_modify v.queue
        (fun k m => m.Within cfg.numTarget (some (QueueIdx.mshrs, i) = some (QueueIdx.mshrs, k))) i _
        (fun k hk _ => hothers k hk _) (hjoin.mono fun _ => rfl)
    · rename_i hmore
      refine ⟨?_, hl.blocked⟩
      exact @MshrQueue.forall_modify v.queue
        (fun k m => m.Within cfg.numTarget (v.noTarget = some (QueueIdx.mshrs, k))) i _
        (fun k hk _ => hothers k hk _)
        (.join (hq.busy i hi) (hl.room hroom hi) pkt time order fun hlast => absurd hlast hmore)
  | flags i forward pending hi =>
    refine ⟨?_, hl.blocked⟩
    have hold := hl.entries i hi
    exact @MshrQueue.forall_modify v.queue
      (fun k m => m.Within cfg.numTarget (v.noTarget = some (QueueIdx.mshrs, k))) i _
      (fun k hk _ => hl.entries k hk) ⟨hold.cpu, hold.deferred, hold.room⟩
  | sent i hready =>
    refine ⟨?_, hl.blocked⟩
    have hold := hl.entries i (hq.mem_ready.1 hready).1
    exact @MshrQueue.WellFormed.forall_sent v.queue
      (fun k m => m.Within cfg.numTarget (v.noTarget = some (QueueIdx.mshrs, k))) i hq hl.entries
      fun _ => ⟨hold.cpu, hold.deferred, hold.room⟩
  | bail i target hready _ _ =>
    refine ⟨?_, hl.blocked⟩
    exact @MshrQueue.WellFormed.forall_bailOut v.queue
      (fun k m => m.Within cfg.numTarget (v.noTarget = some (QueueIdx.mshrs, k))) i hq hl.entries
      fun _ => (hl.entries i (hq.mem_ready.1 hready).1).popTarget
  | answer i now r hi hfill =>
    obtain ⟨hothers, hblocked⟩ := hl.clear (.mshrs, i)
    refine ⟨?_, hblocked⟩
    exact @MshrQueue.WellFormed.forall_finish v.queue
      (fun k m => m.Within cfg.numTarget ((v.clear (.mshrs, i)).noTarget = some (QueueIdx.mshrs, k))) i hq
      now r.served (fun k hk hne => hothers k hk (by simpa using hne))
      fun hprom => (hl.entries i hi).promote (hq.busy i hi) hfill now hprom
  | written i =>
    obtain ⟨hothers, hblocked⟩ := hl.clear (.writeBuffer, i)
    refine ⟨?_, hblocked⟩
    rw [Misses.clear_queue]
    exact fun k hk => hothers k hk (by simp)

theorem MissSteps.limited {cfg : Config} {c : Prop} {v v' : Misses} (h : MissSteps cfg c v v')
    (hn : 2 ≤ cfg.numTarget) (hq : v.queue.WellFormed) (hl : v.Limited cfg.numTarget) :
    v'.Limited cfg.numTarget := by
  have hboth : v'.queue.WellFormed ∧ v'.Limited cfg.numTarget := by
    induction h with
    | refl => exact ⟨hq, hl⟩
    | tail _ hstep ih => exact ⟨hstep.queueStep.wellFormed ih.1, hstep.limited hn ih.1 ih.2⟩
  exact hboth.2

/-! ## Runs -/

namespace Cache

variable {σ : Type} {cfg : Config} {P : Policy σ} {s : Cache σ}

/-- A snoop that an entry tracks leaves room for another target, or finds the port
blocked for that entry. -/
def SnoopRoom (cfg : Config) (s : Cache σ) : Action → Prop
  | .snoop pkt _ => pkt.req.uncacheable = false → pkt.cmd ≠ .writeback →
      ∀ i ∈ s.mshrQueue.findMatch (cfg.geom.blockAlign pkt.addr),
        (s.mshrQueue.registers i).tracks pkt = true →
          (s.mshrQueue.registers i).getNumTargets + 1 < cfg.numTarget ∨
            s.noTargetMSHR = some (.mshrs, i)
  | _ => True

instance (cfg : Config) (s : Cache σ) : DecidablePred (s.SnoopRoom cfg) := by
  rintro ⟨⟩ <;> dsimp only [SnoopRoom] <;> infer_instance

theorem step_limited (hn : 2 ≤ cfg.numTarget) (hs : s.Sound cfg) (hp : s.PortExact) {a : Action}
    (he : s.Enabled cfg a) (ha : s.SnoopRoom cfg a) (hl : s.misses.Limited cfg.numTarget) :
    (s.step cfg P a).misses.Limited cfg.numTarget := by
  by_cases hsnoop : a.IsSnoop
  · cases a with
    | snoop pkt answer =>
      show (s.snoopTiming cfg pkt answer).misses.Limited cfg.numTarget
      rcases @snoopTiming_misses σ cfg s pkt answer with heq | ⟨hkind, i, hi, heq⟩
      · rw [heq]
        exact hl
      · rw [heq]
        simp only [Bool.or_eq_false_iff, beq_eq_false_iff_ne] at hkind
        refine ⟨?_, hl.blocked⟩
        exact @MshrQueue.forall_modify s.mshrQueue
          (fun k m => m.Within cfg.numTarget (s.misses.noTarget = some (QueueIdx.mshrs, k))) i _
          (fun k hk _ => hl.entries k hk)
          ((hl.entries i (List.mem_of_find?_eq_some hi)).snoop _ pkt _ (ha hkind.1 hkind.2 i hi))
    | _ => exact hsnoop.elim
  · exact (step_misses hs hp he hsnoop).limited hn (hs.queues .mshrs) hl

/-- No outstanding miss has more targets of the CPU side than the limit. -/
def CpuLimit (cfg : Config) (s : Cache σ) : Prop :=
  ∀ i ∈ s.mshrQueue.allocatedList, (s.mshrQueue.registers i).cpuTargets ≤ cfg.numTarget

/-- If an outstanding miss has as many targets as the limit, the cache is blocked for it. -/
def BlockedAtLimit (cfg : Config) (s : Cache σ) : Prop :=
  (∃ i ∈ s.mshrQueue.allocatedList, cfg.numTarget ≤ (s.mshrQueue.registers i).getNumTargets) →
    s.blocked.getLsbD BlockedCause.noTargets.bit = true

instance (cfg : Config) (s : Cache σ) : Decidable (s.CpuLimit cfg) :=
  inferInstanceAs (Decidable (∀ i ∈ s.mshrQueue.allocatedList, _))

instance (cfg : Config) (s : Cache σ) : Decidable (s.BlockedAtLimit cfg) :=
  inferInstanceAs (Decidable ((∃ i ∈ s.mshrQueue.allocatedList, _) → _))

/-- After a request of the CPU side the cache is blocked if an outstanding miss has
reached the limit. -/
def BlockedAfter (cfg : Config) (P : Policy σ) (s : Cache σ) : Action → Prop
  | .cpuPacket pkt => (s.step cfg P (.cpuPacket pkt)).BlockedAtLimit cfg
  | _ => True

instance (cfg : Config) (P : Policy σ) (s : Cache σ) : DecidablePred (s.BlockedAfter cfg P) := by
  rintro ⟨⟩ <;> dsimp only [BlockedAfter] <;> infer_instance

theorem limited_blocked (hl : s.misses.Limited cfg.numTarget) : s.BlockedAtLimit cfg := by
  rintro ⟨i, hi, hmany⟩
  have hfull := (hl.entries i hi).room.resolve_left (Nat.not_lt.2 hmany)
  exact hl.blocked (by simp [hfull])

/-- Another cache asks for the block to write it. -/
def claim (addr : Addr) : Packet :=
  Packet.ofRequest { paddr := addr, size := 64, contextId := some 1 } .readExReq 0

/-- Three loads of a block, a snoop that takes its entry to the limit of four targets, and
two more loads. -/
def snoopedRun : List Action :=
  [.cpuPacket (load 1 4096), .tick 1, .sendPacket true noSnoops, .cpuPacket (load 1 4104),
    .cpuPacket (load 1 4112), .snoop (claim 4096) {}, .cpuPacket (load 1 4120), .cpuPacket (load 1 4128)]

end Cache

end PrefetchSim
