import PrefetchSim.Mem.MshrRuns
import PrefetchSim.Mem.TargetLimit

/- Where the data of an answered read comes from.

   One response answers every target of an entry. The loop of `handleResponse` takes the data
   from the block if the response is a fill, and from the response if that is a read; which of
   the two applies is decided by the response, not by the target. A response that is neither
   answers a read with whatever its packet held: the response `getTimingPacket` makes up for a
   failed store-conditional upgrade is one, and so is the answer to an upgrade that was only
   passed on.

   Proved here: every read of the CPU side is answered with data exactly if the response is an
   error, a read, or an upgrade response to a request of this cache's own, or there is no such
   read among the targets (`reads_get_data_iff`). -/
namespace PrefetchSim

/-! ## Copied data -/

/-- The bytes a packet carries. -/
def Packet.carried (pkt : Packet) : List UInt8 := pkt.data.take pkt.size

/-- The packet made of a target carries the bytes of the answer's block, whatever they are. -/
def FromBlock (g : Geometry) (a : Answer) (t : Tags) (pkt : Packet) : Prop :=
  ∃ ptr, a.blk = some ptr ∧ ∀ bytes : List UInt8,
    (serviceCpu g a (t.modify ptr fun b => { b with data := bytes }) pkt).2.1.carried =
      (bytes.drop (pkt.getOffset g.blkSize)).take pkt.size

/-- The same response with other bytes. -/
def Answer.withData (a : Answer) (bytes : List UInt8) : Answer := { a with pkt := { a.pkt with data := bytes } }

/-- It carries the bytes of the response, whatever they are. -/
def FromResponse (g : Geometry) (a : Answer) (t : Tags) (pkt : Packet) : Prop :=
  ∀ bytes : List UInt8, (serviceCpu g (a.withData bytes) t pkt).2.1.carried = bytes.take pkt.size

theorem carried_setData (pkt : Packet) (bytes : List UInt8) :
    (pkt.setData bytes).carried = bytes.take pkt.size := by
  rw [Packet.carried, Packet.setData, List.take_take, Nat.min_self]

theorem write_of_read_request {cmd : MemCmd} (hreq : cmd.isRequest = true) (hread : cmd.isRead = true)
    (hswap : cmd ≠ .swapReq) : cmd.isWrite = false := by
  revert hreq hread hswap
  cases cmd <;> decide

/-- A read takes its bytes from the block it is satisfied from. -/
theorem satisfy_carried (g : Geometry) (t : Tags) (ptr : BlkPtr) {pkt : Packet} (hreq : pkt.cmd.isRequest = true)
    (hread : pkt.cmd.isRead = true) : (satisfyCpuSideRequest g t ptr pkt).2.carried =
      ((t.blks ptr).data.drop (pkt.getOffset g.blkSize)).take pkt.size := by
  unfold satisfyCpuSideRequest
  by_cases hswap : pkt.cmd = .swapReq
  · rw [if_pos hswap]
    exact carried_setData pkt _
  · have hwrite : ¬ pkt.cmd.isWrite = true := by simp [write_of_read_request hreq hread hswap]
    rw [if_neg hswap, if_neg hwrite, if_pos hread]
    dsimp only
    generalize ht' : (if pkt.cmd.isLLSC = true then t.modify ptr fun b => b.trackLoadLocked pkt else t) = t'
    have hdata : (t'.blks ptr).data = (t.blks ptr).data := by
      rw [← ht']
      split
      · rw [Tags.modify_self]
        rfl
      · rfl
    rw [← hdata]
    split
    · split <;> exact carried_setData pkt _
    · exact carried_setData pkt _

theorem not_storeCond_of_read {cmd : MemCmd} (h : cmd.isRead = true) : cmd ≠ .storeCondReq := by
  rintro rfl
  cases h

/-- On a fill the block is the source. -/
theorem fromBlock_of_fill {g : Geometry} {a : Answer} {t : Tags} {pkt : Packet} {ptr : BlkPtr}
    (hfill : a.isFill = true) (hblk : a.blk = some ptr) (hreq : pkt.cmd.isRequest = true)
    (hread : pkt.cmd.isRead = true) : FromBlock g a t pkt := by
  refine ⟨ptr, hblk, ?_⟩
  intro bytes
  simp only [serviceCpu, hfill, if_true, hblk]
  rw [satisfy_carried g _ ptr hreq hread, Tags.modify_self]

/-- On another read response the response is. -/
theorem fromResponse_of_read {g : Geometry} {a : Answer} {t : Tags} {pkt : Packet} (hfill : a.isFill = false)
    (hresp : a.pkt.cmd.isRead = true) (herr : a.pkt.cmd.isError = false) (hread : pkt.cmd.isRead = true) :
    FromResponse g a t pkt := by
  intro bytes
  simp only [serviceCpu, Answer.withData, hfill, Bool.false_eq_true, if_false, not_storeCond_of_read hread,
    false_and, hresp, herr, Bool.not_false, Bool.and_self, if_true]
  exact carried_setData pkt bytes

/-- On any other response the packet of a read stays as it is. -/
theorem serviceCpu_untouched {g : Geometry} {a : Answer} (t : Tags) {pkt : Packet} (hfill : a.isFill = false)
    (hresp : a.pkt.cmd.isRead = false) (hread : pkt.cmd.isRead = true) : (serviceCpu g a t pkt).2.1 = pkt := by
  simp [serviceCpu, hfill, not_storeCond_of_read hread, hresp]

/-- Two lists of bytes that differ in what a slice of them is. -/
theorem slice_not_constant {size : Nat} (hsize : 0 < size) (offset : Nat) (fixed : List UInt8) :
    ¬ ∀ bytes : List UInt8, fixed = (bytes.drop offset).take size := by
  intro h
  have hnil : fixed = [] := by simpa using h []
  have hlen := congrArg List.length (h (List.replicate (offset + size) 0))
  rw [hnil] at hlen
  simp at hlen
  omega

theorem not_copied {g : Geometry} {a : Answer} {t : Tags} {pkt : Packet} (hfill : a.isFill = false)
    (hresp : a.pkt.cmd.isRead = false) (hread : pkt.cmd.isRead = true) (hsize : 0 < pkt.size) :
    ¬ (FromBlock g a t pkt ∨ FromResponse g a t pkt) := by
  rintro (⟨ptr, -, h⟩ | h)
  · apply slice_not_constant hsize (pkt.getOffset g.blkSize) pkt.carried
    intro bytes
    rw [← h bytes, serviceCpu_untouched _ hfill hresp hread]
  · apply slice_not_constant hsize 0 pkt.carried
    intro bytes
    rw [List.drop_zero, ← h bytes, serviceCpu_untouched (a := a.withData bytes) t hfill hresp hread]

theorem fromResponse_of_empty {g : Geometry} {a : Answer} {t : Tags} {pkt : Packet} (hfill : a.isFill = false)
    (hresp : a.pkt.cmd.isRead = false) (hread : pkt.cmd.isRead = true) (hsize : pkt.size = 0) :
    FromResponse g a t pkt := by
  intro bytes
  rw [serviceCpu_untouched (a := a.withData bytes) t hfill hresp hread, Packet.carried, hsize, List.take_zero,
    List.take_zero]

/-! ## Targets are requests -/

/-- The targets of the CPU side are requests. -/
def Mshr.Requests (m : Mshr) : Prop :=
  ∀ t ∈ m.targets.list ++ m.deferredTargets.list, t.source = .fromCPU → t.pkt.cmd.isRequest = true

namespace Mshr.Requests

/-- The targets of `r` are those of `m`, some replaced, and requests. -/
theorem of_targets {m r : Mshr} (h : m.Requests)
    (hr : ∀ t ∈ r.targets.list ++ r.deferredTargets.list, t.source = .fromCPU → t.pkt.cmd.isRequest = true ∨
      ∃ t' ∈ m.targets.list ++ m.deferredTargets.list, Replaced t t') : r.Requests := by
  intro t ht hsource
  rcases hr t ht hsource with hreq | ⟨t', ht', rfl | rfl⟩
  · exact hreq
  · exact h t ht' hsource
  · have hold := h t' ht' ((TargetList.replaceUpgrade_source t').symm.trans hsource)
    unfold TargetList.replaceUpgrade
    split
    · rfl
    · split
      · rfl
      · exact hold

theorem handleSnoop {m : Mshr} (h : m.Requests) (now : Tick) (pkt : Packet) (order : Nat) :
    (m.handleSnoop now pkt order).1.Requests := by
  refine h.of_targets fun t ht hsource => ?_
  rcases mem_handleSnoop ht with hold | ⟨hsnoop, -⟩
  · exact Or.inr hold
  · rw [hsnoop] at hsource
    cases hsource

/-- Targets that were all there before. -/
theorem of_subset {m r : Mshr} (h : m.Requests)
    (hr : ∀ t ∈ r.targets.list ++ r.deferredTargets.list, t ∈ m.targets.list ++ m.deferredTargets.list) :
    r.Requests :=
  fun t ht => h t (hr t ht)

theorem handleFill {m : Mshr} (h : m.Requests) (pkt : Packet) : (m.handleFill pkt).1.Requests := by
  refine h.of_subset ?_
  unfold Mshr.handleFill
  dsimp only
  split
  · simp
  · exact fun t ht => ht

theorem popTarget {m : Mshr} (h : m.Requests) : m.popTarget.Requests :=
  h.of_subset fun _ ht => List.mem_append.2 ((List.mem_append.1 ht).imp_left List.mem_of_mem_tail)

theorem promote {m : Mshr} (h : m.Requests) (now : Tick) : (m.promoteDeferredTargets now).1.Requests := by
  refine h.of_subset ?_
  unfold Mshr.promoteDeferredTargets
  split
  · exact fun t ht => ht
  · intro t ht
    exact List.mem_append.2 (List.mem_append.1 ht).symm

theorem allocateTarget {m : Mshr} (h : m.Requests) {pkt : Packet} (hreq : pkt.cmd.isRequest = true) (time : Tick)
    (order : Nat) : (m.allocateTarget pkt time order).Requests := by
  refine h.of_targets fun t ht _ => ?_
  rcases mem_allocateTarget ht with hold | ⟨-, hpkt⟩
  · exact Or.inr ⟨t, hold, Or.inl rfl⟩
  · left
    rw [hpkt]
    exact hreq

end Mshr.Requests

/-- Over the calls the cache makes of a register, with requests from the CPU side. -/
theorem Tracked.requests_step {s : Tracked} (hs : s.Inv) (h : s.reg.Requests) {op : MshrOp} (he : s.Enabled op) :
    (s.step op).reg.Requests := by
  cases op with
  | allocate addr size pkt time order =>
    have hfits := hs.fits
    rw [he.1] at hfits
    intro t ht _
    simp only [Tracked.step, Mshr.allocate, TargetList.add, hfits.1.targets, hfits.1.deferred, List.nil_append,
      List.append_nil, List.mem_singleton] at ht
    rw [ht]
    exact he.2.1
  | allocateTarget pkt time order => exact h.allocateTarget he.2.1 time order
  | handleSnoop now pkt order => exact h.handleSnoop now pkt order
  | flags forward pending => exact h
  | markInService =>
    unfold Tracked.step Mshr.markInService
    cases s.reg.isForwardNoResponse with
    | true => exact h.popTarget
    | false => exact h
  | respond => exact h
  | handleFill pkt => exact h.handleFill pkt
  | popTarget => exact h.popTarget
  | bailOut => exact h.popTarget
  | promoteDeferredTargets now =>
    unfold Tracked.step
    dsimp only
    split
    · exact h.promote now
    · exact h.promote now
  | deallocate => exact h

/-- The registers an entry can have: those the calls lead to. -/
def Mshr.Reached (m : Mshr) : Prop :=
  ∃ ops, Runs.Guarded Tracked.step Tracked.Enabled {} ops ∧ (Runs.exec Tracked.step {} ops).reg = m

theorem Mshr.Reached.requests {m : Mshr} (h : m.Reached) : m.Requests := by
  obtain ⟨ops, hen, rfl⟩ := h
  have hrun := Runs.exec_invariant (I := fun s : Tracked => s.Inv ∧ s.reg.Requests)
    (fun s op hs he => ⟨hs.1.step he, Tracked.requests_step hs.1 hs.2 he⟩) ops {}
    ⟨Tracked.initial_inv, fun t ht => by cases ht⟩ hen
  exact hrun.2

/-! ## The loop over the targets -/

namespace Cache

variable {σ : Type}

/-- The tags after some of the targets. -/
def tagsAfter (cfg : Config) (P : Policy σ) (a : Answer) (targets : List Target) (s : Cache σ) : Tags :=
  (targets.foldl (serviceTarget cfg P a) { tags := s.tags, prefetcher := s.prefetcher
                                           cpuSidePort := s.cpuSidePort, memSidePort := s.memSidePort }).tags

/-- Each read of the CPU side that is answered without an error is answered with data. -/
def ReadsGetData (cfg : Config) (P : Policy σ) (m : MshrRef) (pkt : Packet) (upward : Nat → SnoopAnswer)
    (s : Cache σ) : Prop :=
  let r := s.answerOf cfg m pkt upward
  ∀ pre t post, (r.1.register m).targets.list = pre ++ t :: post → t.source = .fromCPU → t.pkt.cmd.isRead = true →
    (cpuResponse r.2.1 (serviceCpu cfg.geom r.2.1 (r.1.tagsAfter cfg P r.2.1 pre) t.pkt).2.1).cmd.isError = false →
    FromBlock cfg.geom r.2.1 (r.1.tagsAfter cfg P r.2.1 pre) t.pkt ∨
      FromResponse cfg.geom r.2.1 (r.1.tagsAfter cfg P r.2.1 pre) t.pkt

end Cache

theorem cpuResponse_isError (a : Answer) (pkt : Packet) :
    (cpuResponse a pkt).cmd.isError = a.pkt.cmd.isError := by
  have hresponse : pkt.cmd.responseCommand.isError = false := by cases pkt.cmd <;> rfl
  unfold cpuResponse Packet.makeTimingResponse Packet.copyError
  dsimp only
  cases herr : a.pkt.cmd.isError with
  | true =>
    have hinval : a.pkt.cmd.isInvalidate = false := by
      revert herr
      cases a.pkt.cmd <;> decide
    simp [hinval, herr]
  | false => cases a.pkt.cmd.isInvalidate <;> simp [hresponse]; rfl

namespace Cache

variable {σ : Type} {m : MshrRef} {pkt : Packet} {s : Cache σ}

theorem not_error_of_fills (h : s.isFill m pkt = true) : pkt.cmd.isError = false := by
  have hcmd := (Bool.and_eq_true_iff.1 h).2
  revert hcmd
  cases pkt.cmd <;> decide

theorem answerOf_of_fills (cfg : Config) (h : s.isFill m pkt = true) (hreq : (s.register m).Requests)
    (upward : Nat → SnoopAnswer) : let r := s.answerOf cfg m pkt upward
    r.2.1.isFill = true ∧ (∃ ptr, r.2.1.blk = some ptr) ∧ (r.1.register m).Requests := by
  have hfill : s.fill cfg m pkt true =
      ({ s.setRegister m ((s.register m).handleFill pkt).1 with
          tags := (PrefetchSim.handleFill cfg.geom s.tags s.mshrQueue s.curTick ((s.register m).handleFill pkt).2
            (s.tags.findBlock cfg.geom pkt.addr)).1 },
        ((s.register m).handleFill pkt).2,
        some (PrefetchSim.handleFill cfg.geom s.tags s.mshrQueue s.curTick ((s.register m).handleFill pkt).2
            (s.tags.findBlock cfg.geom pkt.addr)).2.1,
        (PrefetchSim.handleFill cfg.geom s.tags s.mshrQueue s.curTick ((s.register m).handleFill pkt).2
            (s.tags.findBlock cfg.geom pkt.addr)).2.2) := by
    simp [fill, not_error_of_fills h]
  unfold answerOf
  simp only [h, hfill]
  refine ⟨trivial, ⟨_, rfl⟩, ?_⟩
  have hself : ({ s.setRegister m ((s.register m).handleFill pkt).1 with
      tags := (PrefetchSim.handleFill cfg.geom s.tags s.mshrQueue s.curTick ((s.register m).handleFill pkt).2
        (s.tags.findBlock cfg.geom pkt.addr)).1 } : Cache σ).register m = ((s.register m).handleFill pkt).1 := by
    obtain ⟨idx, i⟩ := m
    cases idx <;> simp [register, setRegister, setQueue, queue, MshrQueue.modify]
  rw [hself]
  exact hreq.handleFill pkt

theorem answerOf_of_not_fills (cfg : Config) (h : s.isFill m pkt = false) (upward : Nat → SnoopAnswer) :
    let r := s.answerOf cfg m pkt upward
    r.1 = s ∧ r.2.1.isFill = false ∧ r.2.1.pkt = pkt := by
  unfold answerOf fill
  simp only [h, Bool.false_and, Bool.false_eq_true, if_false]
  exact ⟨trivial, trivial, trivial⟩

theorem readsGetData_of_requests (cfg : Config) (P : Policy σ) (upward : Nat → SnoopAnswer)
    (hreq : (s.register m).Requests) : s.ReadsGetData cfg P m pkt upward ↔
      pkt.cmd.isError = true ∨ pkt.cmd.isRead = true ∨
        (pkt.cmd = .upgradeResp ∧ (s.register m).isForward = false) ∨
        ∀ t ∈ (s.register m).targets.list, t.source = .fromCPU → t.pkt.cmd.isRead = true → t.pkt.size = 0 := by
  unfold ReadsGetData
  dsimp only
  cases hfills : s.isFill m pkt with
  | true =>
    obtain ⟨hisFill, ⟨ptr, hblk⟩, hreq'⟩ := answerOf_of_fills cfg hfills hreq upward
    have hcond := Bool.and_eq_true_iff.1 hfills
    constructor
    · intro _
      rcases Bool.or_eq_true_iff.1 hcond.2 with hread | hupgrade
      · exact Or.inr (Or.inl hread)
      · exact Or.inr (Or.inr (Or.inl ⟨by simpa using hupgrade, by simpa using hcond.1⟩))
    · intro _ pre t post hlist hsource hread _
      have hmem : t ∈ ((s.answerOf cfg m pkt upward).1.register m).targets.list := by
        rw [hlist]
        simp
      exact Or.inl (fromBlock_of_fill hisFill hblk (hreq' t (List.mem_append_left _ hmem) hsource) hread)
  | false =>
    obtain ⟨hsame, hisFill, hpkt⟩ := answerOf_of_not_fills cfg hfills upward
    simp only [hsame, cpuResponse_isError, hpkt]
    have hnotUpgrade : ¬ (pkt.cmd = .upgradeResp ∧ (s.register m).isForward = false) := by
      rintro ⟨hcmd, hforward⟩
      simp [isFill, hcmd, hforward] at hfills
    constructor
    · intro hall
      by_cases herr : pkt.cmd.isError = true
      · exact Or.inl herr
      · by_cases hread : pkt.cmd.isRead = true
        · exact Or.inr (Or.inl hread)
        · refine Or.inr (Or.inr (Or.inr fun t ht hsource htread => ?_))
          obtain ⟨pre, post, hlist⟩ := List.append_of_mem ht
          have hcopied := hall pre t post hlist hsource htread (by simpa using herr)
          by_contra hsize
          refine not_copied hisFill ?_ htread (Nat.pos_of_ne_zero hsize) hcopied
          rw [hpkt]
          simpa using hread
    · intro hcond pre t post hlist hsource htread herr
      have hmem : t ∈ (s.register m).targets.list := by
        rw [hlist]
        simp
      by_cases hread : pkt.cmd.isRead = true
      · exact Or.inr (fromResponse_of_read hisFill (by rwa [hpkt]) (by rwa [hpkt]) htread)
      · have hsize : t.pkt.size = 0 := by
          rcases hcond with hc | hc | hc | hc
          · rw [herr] at hc
            cases hc
          · exact absurd hc hread
          · exact absurd hc hnotUpgrade
          · exact hc t hmem hsource htread
        exact Or.inr (fromResponse_of_empty hisFill (by rw [hpkt]; simpa using hread) htread hsize)

end Cache

/-- The reads of an entry are answered with data exactly if the response is an error, or brings
data, or upgrades this cache's own copy; or there is no read among the targets. -/
theorem reads_get_data_iff {σ : Type} (cfg : Config) (P : Policy σ) (m : MshrRef) (pkt : Packet)
    (upward : Nat → SnoopAnswer) (s : Cache σ) (hreach : (s.register m).Reached) :
    s.ReadsGetData cfg P m pkt upward ↔
      pkt.cmd.isError = true ∨ pkt.cmd.isRead = true ∨
        (pkt.cmd = .upgradeResp ∧ (s.register m).isForward = false) ∨
        ∀ t ∈ (s.register m).targets.list, t.source = .fromCPU → t.pkt.cmd.isRead = true → t.pkt.size = 0 :=
  Cache.readsGetData_of_requests cfg P upward hreach.requests

/-- A cache above asks for a block: to go on with a store-conditional, or to read it. -/
def asksFor (cmd : MemCmd) (context : Nat) : Packet :=
  Packet.ofRequest { paddr := 4096, size := 64, contextId := some context } cmd 0

/-- Two caches above ask for the block, and before that is sent another cache takes it. -/
def overtakenUpgrade : List Action :=
  [.cpuPacket (asksFor .scUpgradeReq 0), .cpuPacket (asksFor .readReq 1), .snoop (Cache.claim 4096) {}, .tick 1]

/-- The same for the entry alone. -/
def overtakenOps : List MshrOp :=
  [.allocate 4096 64 (asksFor .scUpgradeReq 0) 1 0, .allocateTarget (asksFor .readReq 1) 1 1,
    .handleSnoop 0 (Cache.claim 4096) 2]

/-- The response `getTimingPacket` makes up for the failed store-conditional. -/
def madeUp : Packet :=
  { (asksFor .scUpgradeReq 0).copy 1 false with cmd := .upgradeFailResp, firstWordTime := 1, finishTime := 1 }

theorem overtaken_reached :
    ((Runs.exec (Cache.step (smallConfig 6) (proxy 0 dcpt)) (Cache.initial (smallConfig 6) Dcpt.initial)
      overtakenUpgrade).register (.mshrs, 0)).Reached :=
  ⟨overtakenOps, by decide +kernel, by decide +kernel⟩

/-- The read is answered together with the failed upgrade, and gets no data. -/
theorem read_without_data :
    let cfg := smallConfig 6
    let s₀ := Cache.initial cfg Dcpt.initial
    let s := Runs.exec (Cache.step cfg (proxy 0 dcpt)) s₀ overtakenUpgrade
    let s' := s.step cfg (proxy 0 dcpt) (.sendPacket true noSnoops)
    Runs.Guarded (Cache.step cfg (proxy 0 dcpt)) (Cache.Enabled cfg) s₀
        (overtakenUpgrade ++ [.sendPacket true noSnoops]) ∧
      s'.cpuSidePort.transmitList.map (fun d => (d.2.cmd, d.2.size, d.2.data)) =
        [(.upgradeFailResp, 64, []), (.readResp, 64, [])] ∧
      (s.register (.mshrs, 0)).Reached ∧
      ¬ s.ReadsGetData cfg (proxy 0 dcpt) (.mshrs, 0) madeUp noSnoops := by
  refine ⟨by decide +kernel, by decide +kernel, overtaken_reached, ?_⟩
  rw [Cache.readsGetData_of_requests _ _ _ overtaken_reached.requests]
  decide +kernel

/-- Had the block come instead, the read would have been answered from it. -/
theorem reads_get_data_filled :
    let cfg := smallConfig 6
    let s := Runs.exec (Cache.step cfg (proxy 0 dcpt)) (Cache.initial cfg Dcpt.initial) overtakenUpgrade
    (s.register (.mshrs, 0)).Reached ∧
      s.ReadsGetData cfg (proxy 0 dcpt) (.mshrs, 0) (asksFor .readExResp 0) noSnoops := by
  refine ⟨overtaken_reached, ?_⟩
  rw [reads_get_data_iff _ _ _ _ _ _ overtaken_reached]
  exact Or.inr (Or.inl (by decide))

end PrefetchSim
