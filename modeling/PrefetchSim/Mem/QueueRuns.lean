import PrefetchSim.Mem.Blocked

/- The representation of a queue, and the registers it has left.

   A queue keeps its registers in three lists and counts them twice. `QueueStep` lists the
   calls the cache makes; each of them keeps the lists and the counters right
   (`QueueStep.wellFormed`), so they are right after any sequence of calls.

   `addToReadyList` ends in an `assert(false)` behind its loop. The loop is only entered if the
   last entry is ready later than the new one, so it stops there at the latest.

   A request or a prefetch takes a register of `mshrQueue` only while the queue is not full, or
   while the port is open. The port can be open with a full queue only if the queue was built
   for no misses at all: then the first miss closes it. Either way at most `max mshrs 1`
   registers are taken, of `mshrs + 3`. -/
namespace PrefetchSim

namespace MshrQueue

/-! ## The ready list -/

/-- The loop of `addToReadyList`: in front of the first entry that is ready later. `none` is the
assertion behind the loop. -/
def insertReady (time : Nat → Tick) (i : Nat) : List Nat → Option (List Nat)
  | [] => none
  | j :: rest => if time i < time j then some (i :: j :: rest) else (insertReady time i rest).map (j :: ·)

/-- `addToReadyList` with its assertion. -/
def addToReadyListAsserted (q : MshrQueue) (i : Nat) : Option MshrQueue :=
  let time := fun j => (q.registers j).readyTime
  if q.readyList.getLast?.all fun j => time j ≤ time i then some { q with readyList := q.readyList ++ [i] }
  else (insertReady time i q.readyList).map fun l => { q with readyList := l }

/-- The loop stops at an entry that is ready later. -/
theorem insertReady_of_later (time : Nat → Tick) {i j : Nat} {l : List Nat} (hj : j ∈ l) (hlate : time i < time j) :
    insertReady time i l = some (l.orderedInsert (fun a b => time a < time b) i) := by
  induction l with
  | nil => cases hj
  | cons k l ih =>
    rw [insertReady, List.orderedInsert_cons]
    split
    · rfl
    · rename_i hk
      have hrest : j ∈ l := by
        rcases List.mem_cons.1 hj with rfl | hrest
        · exact absurd hlate hk
        · exact hrest
      rw [ih hrest, Option.map_some]

/-- The assertion does not fail, whatever is in the list. -/
theorem addToReadyListAsserted_eq (q : MshrQueue) (i : Nat) :
    q.addToReadyListAsserted i = some (q.addToReadyList i) := by
  unfold addToReadyListAsserted addToReadyList Pool.enqueue
  dsimp only
  split
  · rfl
  · rename_i hlast
    -- so there is a last entry, and it is ready later
    cases hl : q.readyList.getLast? with
    | none => simp [hl] at hlast
    | some j =>
      rw [hl, Option.all_some, decide_eq_true_eq, Nat.not_le] at hlast
      have hloop := insertReady_of_later (fun j => (q.registers j).readyTime) (List.mem_of_getLast? hl) hlast
      rw [hloop, Option.map_some]

/-! ## Sequences of calls -/

/-- After any calls of the cache on a queue that was made for `n` entries. -/
theorem calls_wellFormed {n reserve : Nat} {idx : QueueIdx} {q : MshrQueue}
    (h : Relation.ReflTransGen (QueueStep .any idx) (create n reserve) q) : q.WellFormed := by
  induction h with
  | refl => exact create_wellFormed n reserve
  | tail _ hstep ih => exact hstep.wellFormed ih

/-- A register is free as long as fewer are taken than there are. -/
theorem WellFormed.free_ne_nil {q : MshrQueue} (h : q.WellFormed) (hlt : q.allocated < q.numEntries) :
    q.freeList ≠ [] := by
  intro hnil
  have hlen := h.partition.length_eq
  have hcount := h.allocated_eq
  rw [hnil, List.append_nil, List.length_range] at hlen
  omega

end MshrQueue

namespace Cache

variable {σ : Type} {cfg : Config} {P : Policy σ} {s s' : Cache σ}

/-! ## Registers that are left -/

/-- The bit that says that the queue of misses is full. -/
def missBit (s : Cache σ) : Bool := s.blocked.getLsbD BlockedCause.noMSHRs.bit

theorem missBit_setBlocked (c : BlockedCause) : (s.setBlocked c).missBit = (s.missBit || decide (c = .noMSHRs)) := by
  simp only [missBit, setBlocked, BitVec.getLsbD_or, getLsbD_flag]

theorem missBit_clearBlocked (c : BlockedCause) :
    (s.clearBlocked c).missBit = (s.missBit && decide (c ≠ .noMSHRs)) := by
  simp only [missBit, clearBlocked, BitVec.getLsbD_and, getLsbD_not_flag]

theorem missBit_setQueue (idx : QueueIdx) (q : MshrQueue) : (s.setQueue idx q).missBit = s.missBit := by
  cases idx <;> rfl

/-- The bit is taken back only with a queue of misses that is not full. -/
theorem missBit_freed (idx : QueueIdx) (q : MshrQueue) (h : s.missBit = true) :
    (s.freed idx q).missBit = true ∨ (s.freed idx q).mshrQueue.isFull = false := by
  unfold freed
  split
  · rename_i hfreed
    rw [Bool.and_eq_true, Bool.not_eq_true'] at hfreed
    cases idx with
    | mshrs => exact Or.inr hfreed.2
    | writeBuffer =>
      left
      rw [missBit_clearBlocked, missBit_setQueue, h]
      rfl
  · left
    rw [missBit_setQueue, h]

/-- An allocation that fills the queue of misses sets the bit. -/
theorem missBit_allocateBuffer (addr : Addr) (size : Nat) (pkt : Packet) (time : Tick) :
    (s.allocateBuffer .mshrs addr size pkt time).1.mshrQueue.isFull = true →
      (s.allocateBuffer .mshrs addr size pkt time).1.missBit = true := by
  unfold allocateBuffer
  dsimp only
  split
  · intro _
    rw [missBit_setBlocked]
    simp [QueueIdx.cause]
  · rename_i hroom
    intro hfull
    exact absurd hfull hroom

theorem missBit_allocateWriteBuffer (pkt : Packet) (time : Tick) (h : s.missBit = true) :
    (s.allocateWriteBuffer pkt time).missBit = true := by
  unfold allocateWriteBuffer allocateBuffer
  dsimp only
  split
  · rw [missBit_setBlocked, Bool.or_eq_true]
    exact Or.inl h
  · exact h

/-- What an elementary operation does to the queue of misses and its bit. -/
inductive MissStep (s s' : Cache σ) : Prop where
  /-- a register is taken, and the bit is set if this was the last one -/
  | taken (accepted : s.cpuSidePort.blocked = false ∨ s.mshrQueue.isFull = false)
      (one : s'.mshrQueue.allocated ≤ s.mshrQueue.allocated + 1)
      (noted : s'.mshrQueue.isFull = true → s'.missBit = true)
  /-- none is taken, and the bit stays if the queue is still full -/
  | kept (fewer : s'.mshrQueue.allocated ≤ s.mshrQueue.allocated)
      (noted : s.missBit = true → s'.missBit = true ∨ s'.mshrQueue.isFull = false)

theorem MissStep.of_eq (hq : s'.mshrQueue = s.mshrQueue) (hb : s'.blocked = s.blocked) : MissStep s s' :=
  .kept (le_of_eq (by rw [hq])) fun h => Or.inl (by rw [missBit, hb]; exact h)

theorem MissStep.of_queue {m : QueueIdx} {q : MshrQueue} (hle : q.allocated ≤ (s.queue m).allocated)
    (hq : s'.queue .mshrs = if QueueIdx.mshrs = m then q else s.queue .mshrs)
    (noted : s.missBit = true → s'.missBit = true ∨ s'.mshrQueue.isFull = false) : MissStep s s' := by
  refine .kept ?_ noted
  have hqueue : s'.mshrQueue = if QueueIdx.mshrs = m then q else s.queue .mshrs := hq
  rw [hqueue]
  split
  · rename_i hm
    subst hm
    exact hle
  · exact le_refl _

theorem MissStep.allocateBuffer {t : Cache σ} (hqueue : t.mshrQueue = s.mshrQueue) (addr : Addr) (size : Nat)
    (pkt : Packet) (time : Tick) (accepted : s.cpuSidePort.blocked = false ∨ s.mshrQueue.isFull = false) :
    MissStep s (t.allocateBuffer .mshrs addr size pkt time).1 := by
  refine .taken accepted ?_ (missBit_allocateBuffer addr size pkt time)
  have hq := queue_allocateBuffer .mshrs .mshrs addr size pkt time t
  rw [if_pos rfl] at hq
  calc (t.allocateBuffer .mshrs addr size pkt time).1.mshrQueue.allocated
      = (t.mshrQueue.allocate addr size pkt time t.order).1.allocated := congrArg MshrQueue.allocated hq
    _ ≤ t.mshrQueue.allocated + 1 := (t.mshrQueue.allocate_allocated addr size pkt time t.order).2
    _ = s.mshrQueue.allocated + 1 := by rw [hqueue]

theorem Micro.missStep {ok : Allowed σ}
    (h : Micro cfg P ok s s') : MissStep s s' := by
  cases h with
  | others core => exact .of_eq core.mshrQueue core.blocked
  | block => exact .kept (le_refl _) fun h => Or.inl (by rw [missBit_setBlocked, h]; rfl)
  | unblock => exact .kept (le_refl _) fun h => Or.inl (by rw [missBit_clearBlocked, h]; rfl)
  | miss addr size pkt hopen _ => exact .allocateBuffer rfl addr size pkt _ (Or.inl hopen)
  | popMiss p rest _ hroom _ =>
    exact MissStep.allocateBuffer (s := s) (t := { s with prefetcher := s.prefetcher.getPacket rest }) rfl
      (cfg.geom.blockAlign p.addr) cfg.geom.blkSize p s.curTick (Or.inr hroom)
  | write pkt _ =>
    refine .of_queue (m := .writeBuffer) (q := s.writeBuffer) (le_refl _) ?_
      fun h => Or.inl (missBit_allocateWriteBuffer pkt _ h)
    exact queue_allocateBuffer .writeBuffer .mshrs pkt.addr pkt.size pkt _ s
  | flags m _ _ _ =>
    refine .of_queue (m := m.1) ?_ (queue_setQueue s m.1 .mshrs _) fun h => Or.inl ?_
    · exact le_refl _
    · exact (missBit_setQueue m.1 _).trans h
  | sent m _ =>
    exact .of_queue (MshrQueue.markInService_allocated _ m.2) (queue_freed ..) (missBit_freed m.1 _)
  | bail m target _ _ _ _ =>
    refine .of_queue (MshrQueue.bailOut_allocated _ m.2) (queue_bailOut ..) fun h => Or.inl ?_
    rw [bailOut_eq]
    exact (missBit_setQueue m.1 _).trans h
  | answered m r hasBlk _ _ =>
    refine .of_queue (MshrQueue.finish_allocated _ m.2 s.curTick r.served) (queue_settle m r s .mshrs) ?_
    intro h
    show (s.settle m r).missBit = true ∨ (s.settle m r).mshrQueue.isFull = false
    unfold settle
    split
    · exact Or.inl ((missBit_setQueue m.1 _).trans h)
    · exact missBit_freed m.1 _ h
  | _ => exact .kept (le_refl _) Or.inl

/-- At most `mshrs` registers are taken, or one; and the bit is set when no more may be. -/
structure Spare (cfg : Config) (s : Cache σ) : Prop where
  sound : s.Sound cfg
  port : s.PortExact
  bound : s.mshrQueue.allocated ≤ max cfg.mshrs 1
  noted : s.missBit = true ∨ s.mshrQueue.allocated < max cfg.mshrs 1

theorem Sound.not_full (hs : s.Sound cfg) (hroom : s.mshrQueue.isFull = false) :
    s.mshrQueue.allocated < max cfg.mshrs 1 := by
  have hlt : ¬(cfg.mshrs : Int) ≤ s.mshrQueue.allocated := fun hle =>
    absurd ((hs.isFull_iff .mshrs).2 hle) (by simpa [queue] using hroom)
  omega

theorem MissStep.spare (h : MissStep s s') (hs : s.Spare cfg) (hsound : s'.Sound cfg) (hport : s'.PortExact) :
    s'.Spare cfg := by
  have hbound := hs.bound
  cases h with
  | taken accepted one noted =>
    have hlt : s.mshrQueue.allocated < max cfg.mshrs 1 := by
      rcases accepted with hopen | hroom
      · -- with the port open no bit is set
        have hzero : s.blocked = 0 := by
          rw [hs.port] at hopen
          simpa using hopen
        refine hs.noted.resolve_left ?_
        rw [missBit, hzero]
        decide
      · exact hs.sound.not_full hroom
    refine ⟨hsound, hport, by omega, ?_⟩
    cases hfull : s'.mshrQueue.isFull with
    | true => exact Or.inl (noted hfull)
    | false => exact Or.inr (hsound.not_full hfull)
  | kept fewer noted =>
    refine ⟨hsound, hport, by omega, ?_⟩
    rcases hs.noted with hbit | hlt
    · exact (noted hbit).imp_right hsound.not_full
    · exact Or.inr (by omega)

theorem Micro.spare {ok : Allowed σ}
    (h : Micro cfg P ok s s') (hs : s.Spare cfg) : s'.Spare cfg :=
  h.missStep.spare hs (h.sound hs.sound) (h.portExact hs.port)

theorem initial_spare (cfg : Config) (policy : σ) : (initial cfg policy).Spare cfg where
  sound := initial_sound cfg policy
  port := rfl
  bound := Int.natCast_nonneg _
  noted := by
    have hnone : (initial cfg policy).mshrQueue.allocated = 0 := rfl
    omega

theorem step_spare (hs : s.Spare cfg) {a : Action} (he : s.Enabled cfg a) : (s.step cfg P a).Spare cfg := by
  have hmicros : Micros cfg P {} s (s.step cfg P a) := step_micros_any hs.sound he
  exact invariant_of_micro (fun _ _ h hs => h.spare hs) hmicros hs

theorem Spare.free (hs : s.Spare cfg) : s.mshrQueue.freeList ≠ [] := by
  apply (hs.sound.queues .mshrs).free_ne_nil
  have hbound := hs.bound
  have hsize := hs.sound.numEntries .mshrs
  simp only [queue, Config.entries, Config.reserve] at hsize ⊢
  omega

/-- The registers are where the lists say, and a miss can be entered. -/
def QueuesReady (s : Cache σ) : Prop :=
  (∀ idx, (s.queue idx).WellFormed ∧ (s.queue idx).readyList.Nodup) ∧ s.mshrQueue.freeList ≠ []

end Cache

/-- The representation of a queue after any calls, the assertion of `addToReadyList`, and the
free registers in every state of every run. -/
theorem mshr_queue_consistent :
    (∀ (n reserve : Nat) (idx : QueueIdx) (q : MshrQueue),
      Relation.ReflTransGen (QueueStep .any idx) (.create n reserve) q → q.WellFormed ∧ q.readyList.Nodup) ∧
    (∀ (q : MshrQueue) (i : Nat), q.addToReadyListAsserted i = some (q.addToReadyList i)) ∧
    ∀ {σ : Type} (cfg : Config) (P : Policy σ) (policy : σ) (as : List Action),
      Runs.Guarded (Cache.step cfg P) (Cache.Enabled cfg) (Cache.initial cfg policy) as →
        Runs.Along (Cache.step cfg P) Cache.QueuesReady (Cache.initial cfg policy) as := by
  refine ⟨?_, MshrQueue.addToReadyListAsserted_eq, ?_⟩
  · intro n reserve idx q hcalls
    have hq := MshrQueue.calls_wellFormed hcalls
    exact ⟨hq, hq.nodup_ready⟩
  · intro σ cfg P policy as hen
    have hspare : Runs.Along (Cache.step cfg P) (Cache.Spare cfg) (Cache.initial cfg policy) as :=
      Runs.along_of_guarded (fun _ _ hs he => Cache.step_spare hs he) as _ (Cache.initial_spare cfg policy) hen
    refine Runs.along_mono ?_ as _ hspare
    intro s hs
    exact ⟨fun idx => ⟨hs.sound.queues idx, (hs.sound.queues idx).nodup_ready⟩, hs.free⟩

/-- Four loads, a prefetch that is given up, and a load that takes its place. -/
theorem mshr_queue_consistent_stuckRun :
    Runs.Guarded (Cache.step (smallConfig 6) (proxy 0 dcpt)) (Cache.Enabled (smallConfig 6))
      (Cache.initial (smallConfig 6) Dcpt.initial) Cache.stuckRun ∧
    Runs.Along (Cache.step (smallConfig 6) (proxy 0 dcpt)) Cache.QueuesReady
      (Cache.initial (smallConfig 6) Dcpt.initial) Cache.stuckRun := by
  have hen : Runs.Guarded (Cache.step (smallConfig 6) (proxy 0 dcpt)) (Cache.Enabled (smallConfig 6))
      (Cache.initial (smallConfig 6) Dcpt.initial) Cache.stuckRun := by decide +kernel
  exact ⟨hen, mshr_queue_consistent.2.2 _ _ _ _ hen⟩

end PrefetchSim
