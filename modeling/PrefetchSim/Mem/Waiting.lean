import PrefetchSim.Mem.Requests

/- Entries that wait for a block, and the requests that wait in them.

   `Awaits` is the invariant of an entry of the miss queue as long as nothing is
   snooped: its targets are requests of CPUs and prefetches for its block, targets
   are deferred behind a first one that is exclusive, and once the request is out
   its response is known: an upgrade if the block is in the cache, and otherwise a
   read, exclusive unless no target that is waiting for it asks for that. -/
namespace PrefetchSim

/-! ## One entry -/

/-- The response to the request of an entry for a block that is `present` or not. -/
structure Mshr.Response (present : Bool) (m : Mshr) (pkt : Packet) : Prop where
  addr : pkt.addr = m.addr
  inhibit : pkt.memInhibit = false
  upgrade : present = true → pkt.cmd = .upgradeResp
  read : present = false → pkt.cmd = .readExResp ∨ (pkt.cmd = .readResp ∧ m.targets.needsExclusive = false)

structure Mshr.Awaits (g : Geometry) (present : Bool) (reply : Option Packet) (m : Mshr) : Prop where
  asks : ∀ t ∈ m.targets.list ++ m.deferredTargets.list, t.Asks g m.addr
  demand : present = true → ∀ t ∈ m.targets.list, t.source = .fromCPU
  exclusive : ∀ t ∈ m.targets.list, t.pkt.cmd.needsExclusive = true → m.targets.needsExclusive = true
  deferred : m.deferredTargets.list ≠ [] → m.deferredTargets.needsExclusive = true
  size : m.size = g.blkSize
  valid : m.pendingInvalidate = false
  owned : m.pendingShared = false
  answer : m.inService = true → m.isForward = false ∧ ∃ pkt, reply = some pkt ∧ m.Response present pkt

/-- A packet that may become a miss: of a CPU, or of the prefetcher if the block is not here. -/
def Packet.Misses (g : Geometry) (present : Bool) (pkt : Packet) : Prop :=
  pkt.FromCpu g ∨ (IsPrefetch pkt ∧ present = false)

/-- The target a packet becomes. -/
theorem Packet.Misses.asks {g : Geometry} {present : Bool} {pkt : Packet} (h : pkt.Misses g present)
    (time : Tick) (order : Nat) :
    Target.Asks g (g.blockAlign pkt.addr) { readyTime := time, order, pkt
                                            source := if pkt.cmd = .hardPFReq then .fromPrefetcher else .fromCPU
                                            needsResponse := pkt.cmd.needsResponse } := by
  refine ⟨rfl, ?_⟩
  rcases h with hcpu | ⟨hpf, -⟩
  · obtain ⟨-, -, hresp, -, hne, -⟩ := MemCmd.ofCpu_attributes hcpu.cmd
    rw [if_neg hne]
    exact .inl ⟨rfl, hcpu, hresp⟩
  · rw [if_pos hpf.cmd]
    exact .inr ⟨rfl, hpf⟩

namespace Mshr

variable {g : Geometry} {present : Bool} {reply : Option Packet} {m : Mshr} {pkt : Packet}

theorem Misses.awaits (hm : m.Idle) (h : pkt.Misses g present) (time : Tick) (order : Nat) :
    (m.allocate (g.blockAlign pkt.addr) g.blkSize pkt time order).Awaits g present reply where
  asks t ht := by
    simp only [Mshr.allocate, TargetList.add, hm.targets, hm.deferred, List.nil_append, List.append_nil,
      List.mem_singleton] at ht
    rw [ht]
    exact h.asks time order
  demand hp t ht := by
    simp only [Mshr.allocate, TargetList.add, hm.targets, List.nil_append, List.mem_singleton] at ht
    rcases h with hcpu | ⟨-, hnot⟩
    · obtain ⟨-, -, -, -, hne, -⟩ := MemCmd.ofCpu_attributes hcpu.cmd
      rw [ht, if_neg hne]
    · rw [hp] at hnot
      cases hnot
  exclusive t ht hx := by
    simp only [Mshr.allocate, TargetList.add, hm.targets, List.nil_append, List.mem_singleton] at ht ⊢
    subst ht
    rw [hx]
    split <;> rfl
  deferred hne := by
    rw [show (m.allocate (g.blockAlign pkt.addr) g.blkSize pkt time order).deferredTargets = {} from
      hm.deferred] at hne
    exact absurd rfl hne
  size := rfl
  valid := rfl
  owned := rfl
  answer h := by cases h

/-- A request joins the entry of its block. -/
theorem Awaits.target (h : m.Awaits g present reply) (hpkt : pkt.FromCpu g)
    (hblk : g.blockAlign pkt.addr = m.addr) (time : Tick) (order : Nat) :
    (m.allocateTarget pkt time order).Awaits g present reply := by
  obtain ⟨-, -, hresp, -, hne, -⟩ := MemCmd.ofCpu_attributes hpkt.cmd
  have hnew : Target.Asks g m.addr { readyTime := time, order, pkt, source := .fromCPU
                                     needsResponse := pkt.cmd.needsResponse } :=
    ⟨hblk, .inl ⟨rfl, hpkt, hresp⟩⟩
  unfold Mshr.allocateTarget
  split
  · -- it is deferred
    rename_i hdefer
    refine ⟨?_, h.demand, h.exclusive, ?_, h.size, h.valid, h.owned, fun hin => ?_⟩
    · intro t ht
      simp only [TargetList.add, List.mem_append, List.mem_singleton] at ht
      rcases ht with ht | ht | rfl
      · exact h.asks t (List.mem_append_left _ ht)
      · exact h.asks t (List.mem_append_right _ ht)
      · exact hnew
    · intro _
      by_cases hnil : m.deferredTargets.list = []
      · have hx : pkt.cmd.needsExclusive = true := by
          simp only [h.valid, hnil, List.isEmpty_nil, Bool.not_true, Bool.or_false, Bool.false_or,
            Bool.and_eq_true] at hdefer
          exact hdefer.2.2
        simp [TargetList.add, hx]
      · simp [TargetList.add, h.deferred hnil]
    · obtain ⟨hforward, p, hp, hr⟩ := h.answer hin
      exact ⟨hforward, p, hp, hr.addr, hr.inhibit, hr.upgrade, hr.read⟩
  · rename_i hdefer
    refine ⟨?_, ?_, ?_, h.deferred, h.size, h.valid, h.owned, fun hin => ?_⟩
    · intro t ht
      simp only [TargetList.add, List.mem_append, List.mem_singleton] at ht
      rcases ht with (ht | rfl) | ht
      · exact h.asks t (List.mem_append_left _ ht)
      · exact hnew
      · exact h.asks t (List.mem_append_right _ ht)
    · intro hp t ht
      simp only [TargetList.add, List.mem_append, List.mem_singleton] at ht
      rcases ht with ht | rfl
      · exact h.demand hp t ht
      · rfl
    · intro t ht hx
      simp only [TargetList.add, List.mem_append, List.mem_singleton] at ht ⊢
      rcases ht with ht | rfl
      · rw [h.exclusive t ht hx, Bool.true_or]
      · rw [hx]
        simp
    · obtain ⟨hforward, p, hp, hr⟩ := h.answer hin
      refine ⟨hforward, p, hp, hr.addr, hr.inhibit, hr.upgrade, fun hnot => ?_⟩
      -- behind a read that is not exclusive only such requests are not deferred
      refine (hr.read hnot).imp_right fun hread => ⟨hread.1, ?_⟩
      have hin' : m.inService = true := hin
      simp only [hin', hread.2, Bool.true_and, Bool.not_eq_true, Bool.or_eq_false_iff] at hdefer
      have hx : pkt.cmd.needsExclusive = false := by simpa using hdefer.2
      simp [TargetList.add, hread.2, hx]

/-- The packet for the entry is made. -/
theorem Awaits.forward (h : m.Awaits g present reply) (hin : m.inService = false) (reply' : Option Packet) :
    { m with isForward := false }.Awaits g present reply' :=
  ⟨h.asks, h.demand, h.exclusive, h.deferred, h.size, h.valid, h.owned, fun h' => by
    rw [show m.inService = true from h'] at hin
    cases hin⟩

/-- The packet for the entry is sent, and the response to it is `pkt`. -/
theorem Awaits.sent (h : m.Awaits g present reply) (hr : m.Response present pkt) :
    { m with isForward := false, inService := true }.Awaits g present (some pkt) :=
  ⟨h.asks, h.demand, h.exclusive, h.deferred, h.size, h.valid, h.owned, fun _ =>
    ⟨rfl, pkt, rfl, hr.addr, hr.inhibit, hr.upgrade, hr.read⟩⟩

/-- The targets that were deferred wait for the bus. -/
theorem Awaits.promoted (h : m.Awaits g present reply) (hb : m.Busy) {now : Tick}
    (hp : (m.served.promoteDeferredTargets now).2 = true) (present' : Bool) (reply' : Option Packet) :
    { (m.served.promoteDeferredTargets now).1 with inService := false }.Awaits g present' reply' := by
  unfold Mshr.promoteDeferredTargets at hp ⊢
  cases hd : m.served.deferredTargets.list with
  | nil => simp [hd] at hp
  | cons t ts =>
    have hlist : m.deferredTargets.list = t :: ts := hd
    have hx : m.deferredTargets.needsExclusive = true := h.deferred (by simp [hlist])
    refine ⟨?_, ?_, ?_, ?_, h.size, rfl, rfl, fun hin => by cases hin⟩
    · intro t' ht'
      apply h.asks
      rcases List.mem_append.1 ht' with ht' | ht'
      · exact List.mem_append_right _ ht'
      · simp [Mshr.served, TargetList.resetFlags] at ht'
    · intro _ t' ht'
      exact hb.deferred_cpu t' ht'
    · intro _ _ _
      exact hx
    · intro hne
      simp [Mshr.served, TargetList.resetFlags] at hne

/-- The entry waits for the bus, or for the response to a request that is not only passed on. -/
theorem Awaits.responds (h : m.Awaits g present reply) (hb : m.Busy) : m.isForwardNoResponse = false := by
  obtain ⟨t, ts, hlist⟩ := List.exists_cons_of_ne_nil hb.nonempty
  have ht := h.asks t (by simp [hlist])
  simp only [Mshr.isForwardNoResponse, Mshr.getTarget, hlist, List.head?_cons, Option.any_some]
  rcases ht.kind with ⟨-, -, hresp⟩ | ⟨hsource, -⟩
  · simp [hresp]
  · simp [hsource]

theorem Awaits.aligned (h : m.Awaits g present reply) (hb : m.Busy) : g.blockAlign m.addr = m.addr := by
  obtain ⟨t, ts, hlist⟩ := List.exists_cons_of_ne_nil hb.nonempty
  rw [← (h.asks t (by simp [hlist])).block]
  exact g.blockAlign_blockAlign _

end Mshr

/-! ## The requests in a queue -/

/-- The requests of CPUs that wait in an entry. -/
def Mshr.requests (m : Mshr) : List Packet := cpuPackets (m.targets.list ++ m.deferredTargets.list)

namespace MshrQueue

variable {q : MshrQueue} {i : Nat}

def requests (q : MshrQueue) : List Packet := q.allocatedList.flatMap fun i => (q.registers i).requests

/-- Those of one entry and the rest of them, which stay as they are when the entry is
written or freed. -/
theorem WellFormed.requests_split (hq : q.WellFormed) (hi : i ∈ q.allocatedList) : ∃ rest,
    q.requests.Perm ((q.registers i).requests ++ rest) ∧
    (∀ q' : MshrQueue, q'.allocatedList = q.allocatedList → (∀ k, k ≠ i → q'.registers k = q.registers k) →
      q'.requests.Perm ((q'.registers i).requests ++ rest)) ∧
    ∀ r, ((q.modify i fun _ => r).deallocate i).requests = rest := by
  have hrest : ∀ q' : MshrQueue, (∀ k, k ≠ i → q'.registers k = q.registers k) →
      ((q.allocatedList.erase i).flatMap fun k => (q'.registers k).requests) =
        (q.allocatedList.erase i).flatMap fun k => (q.registers k).requests := by
    intro q' hregs
    apply List.flatMap_congr
    intro k hk
    rw [hregs k fun e => hq.nodup_allocated.not_mem_erase (e ▸ hk)]
  refine ⟨(q.allocatedList.erase i).flatMap fun k => (q.registers k).requests, ?_, ?_, ?_⟩
  · exact Pool.flatMap_split q.registers i q.allocatedList Mshr.requests hi
  · intro q' hlist hregs
    rw [← hrest q' hregs, ← hlist]
    exact Pool.flatMap_split q'.registers i q'.allocatedList Mshr.requests (hlist ▸ hi)
  · intro r
    apply hrest
    intro k hk
    simp [MshrQueue.deallocate, MshrQueue.modify, hk]

theorem WellFormed.requests_allocate (hq : q.WellFormed) (hfree : q.freeList ≠ []) (addr : Addr) (size : Nat)
    (pkt : Packet) (time : Tick) (order : Nat) : (q.allocate addr size pkt time order).1.requests =
      q.requests ++ if pkt.cmd = .hardPFReq then [] else [pkt] := by
  obtain ⟨j, rest, hf⟩ := List.exists_cons_of_ne_nil hfree
  have hj : j ∈ q.freeList := hf ▸ List.mem_cons_self ..
  have hidle := hq.idle j hj
  have hold : (q.allocatedList.flatMap fun k =>
      (Function.update q.registers j ((q.registers j).allocate addr size pkt time order) k).requests) =
      q.requests := by
    apply List.flatMap_congr
    intro k hk
    have : k ≠ j := fun e => hq.notMem_free hk (e ▸ hj)
    simp [this]
  have hnew : ((q.registers j).allocate addr size pkt time order).requests =
      if pkt.cmd = .hardPFReq then [] else [pkt] := by
    by_cases hpf : pkt.cmd = .hardPFReq
    · simp [Mshr.requests, cpuPackets, Mshr.allocate, TargetList.add, hidle.targets,
        hidle.deferred, hpf]
    · simp [Mshr.requests, cpuPackets, Mshr.allocate, TargetList.add, hidle.targets,
        hidle.deferred, hpf]
  unfold MshrQueue.allocate
  rw [hf]
  simp only [requests, addToReadyList, MshrQueue.modify, List.flatMap_append, List.flatMap_singleton,
    Function.update_self, hnew]
  simp only [requests] at hold
  rw [hold]

end MshrQueue

theorem Mshr.requests_allocateTarget (m : Mshr) (pkt : Packet) (time : Tick) (order : Nat) :
    (m.allocateTarget pkt time order).requests.Perm (m.requests ++ [pkt]) := by
  unfold Mshr.allocateTarget
  split
  · simp only [Mshr.requests, cpuPackets_append, TargetList.add, List.append_assoc]
    exact List.Perm.refl _
  · simp only [Mshr.requests, cpuPackets_append, TargetList.add, List.append_assoc]
    exact List.Perm.append_left _ List.perm_append_comm

/-- What is left in an entry that goes on with its deferred targets. -/
theorem Mshr.requests_promoted {m : Mshr} {now : Tick}
    (hp : (m.served.promoteDeferredTargets now).2 = true) :
    ({ (m.served.promoteDeferredTargets now).1 with inService := false } : Mshr).requests =
      cpuPackets m.deferredTargets.list := by
  unfold Mshr.promoteDeferredTargets at hp ⊢
  cases hd : m.served.deferredTargets.list with
  | nil => simp [hd] at hp
  | cons t ts => simp [Mshr.requests, Mshr.served, TargetList.resetFlags]

/-! ## The end of a miss -/

/-- When the block arrives the deferred targets are served with the others, unless it
is shared. -/
theorem Mshr.Awaits.filled {g : Geometry} {present : Bool} {reply : Option Packet} {m : Mshr}
    (h : m.Awaits g present reply) (pkt : Packet) : (m.handleFill pkt).2 = pkt ∧
      ((pkt.shared = true ∧ m.deferredTargets.list ≠ [] ∧ (m.handleFill pkt).1 = m) ∨
        ((m.handleFill pkt).1.deferredTargets.list = [] ∧
          (m.handleFill pkt).1.targets.list = m.targets.list ++ m.deferredTargets.list ∧
          (pkt.shared = true → m.deferredTargets.list = []))) := by
  unfold Mshr.handleFill
  simp only [h.owned, Bool.or_false]
  split
  · rename_i hjoin
    refine ⟨rfl, .inr ⟨rfl, rfl, fun hshared => ?_⟩⟩
    simp [hshared] at hjoin
  · rename_i hkeep
    refine ⟨rfl, ?_⟩
    by_cases hnil : m.deferredTargets.list = []
    · exact .inr ⟨hnil, by rw [hnil, List.append_nil], fun _ => hnil⟩
    · refine .inl ⟨?_, hnil, rfl⟩
      simpa [h.valid, h.deferred hnil] using hkeep

/-- What is left of a miss whose block has arrived. The requests in `served` are gone,
and `again` says that deferred ones wait for the bus. -/
structure MshrQueue.Retires (g : Geometry) (i : Nat) (served : List Packet) (again : Bool)
    (q q' : MshrQueue) : Prop where
  requests : q.requests.Perm (served ++ q'.requests)
  distinct : q'.Distinct
  rest : ∀ k ∈ q'.allocatedList, k ≠ i → k ∈ q.allocatedList ∧ q'.registers k = q.registers k
  self : i ∈ q'.allocatedList → again = true ∧ (q'.registers i).addr = (q.registers i).addr ∧
    ∀ present reply, (q'.registers i).Awaits g present reply
  idle : ∀ a, q'.findMatch a = none ↔ q.findMatch a = none ∨ (again = false ∧ a = (q.registers i).addr)
  fetch : ∀ reply, q'.fetch reply = Function.update (q.fetch reply) (q.registers i).addr
    (if again then .waiting else .idle)

namespace MshrQueue.WellFormed

variable {g : Geometry} {present : Bool} {reply : Option Packet} {q : MshrQueue} {i : Nat}

theorem retires_freed (hq : q.WellFormed) (hd : q.Distinct) (hi : i ∈ q.allocatedList) {r : Mshr}
    (hr : cpuPackets r.targets.list = (q.registers i).requests) :
    q.Retires g i (cpuPackets r.targets.list) false ((q.modify i fun _ => r.served).deallocate i) := by
  have hnd := hq.nodup_allocated
  have hregs : ∀ k, k ≠ i →
      ((q.modify i fun _ => r.served).deallocate i).registers k = q.registers k := by
    intro k hk
    simp [MshrQueue.deallocate, MshrQueue.modify, hk]
  obtain ⟨rest, hbefore, -, hafter⟩ := hq.requests_split hi
  refine ⟨?_, hd.deallocate hnd, ?_, ?_, ?_, ?_⟩
  · rw [hafter, hr]
    exact hbefore
  · exact fun k hk hki => ⟨List.mem_of_mem_erase hk, hregs k hki⟩
  · exact fun hmem => absurd hmem hnd.not_mem_erase
  · intro a
    simp only [MshrQueue.findMatch_eq_none, true_and]
    constructor
    · intro h
      by_cases ha : a = (q.registers i).addr
      · exact .inr ha
      · refine .inl fun k hk => ?_
        by_cases hki : k = i
        · subst hki
          exact Ne.symm ha
        · have := h k ((List.mem_erase_of_ne hki).2 hk)
          rwa [hregs k hki] at this
    · intro h k hk
      have hki : k ≠ i := fun e => hnd.not_mem_erase (e ▸ hk)
      rw [hregs k hki]
      rcases h with h | rfl
      · exact h k (List.mem_of_mem_erase hk)
      · exact fun e => hki (hd k (List.mem_of_mem_erase hk) i hi e)
  · exact fun reply => hd.fetch_deallocate hnd hi reply

theorem retires_again (hq : q.WellFormed) (hd : q.Distinct) (hi : i ∈ q.allocatedList)
    (hm : (q.registers i).Awaits g present reply) {now : Tick}
    (hp : ((q.registers i).served.promoteDeferredTargets now).2 = true) :
    q.Retires g i (cpuPackets (q.registers i).targets.list) true
      ((q.modify i fun _ => ((q.registers i).served.promoteDeferredTargets now).1).markPending i) := by
  let r : Mshr := { ((q.registers i).served.promoteDeferredTargets now).1 with inService := false }
  obtain ⟨q', hq'⟩ : ∃ q', q' =
      (q.modify i fun _ => ((q.registers i).served.promoteDeferredTargets now).1).markPending i := ⟨_, rfl⟩
  have hlist : q'.allocatedList = q.allocatedList := by
    rw [hq']
    rfl
  have hregs : q'.registers = Function.update q.registers i r := by
    rw [hq']
    simp [MshrQueue.markPending, MshrQueue.addToReadyList, MshrQueue.modify, r]
  have hself : q'.registers i = r := by rw [hregs, Function.update_self]
  have haddr : r.addr = (q.registers i).addr := promoteDeferredTargets_addr (q.registers i).served now
  have haddrs : ∀ k, (q'.registers k).addr = (q.registers k).addr := by
    intro k
    by_cases hk : k = i
    · subst hk
      rw [hself, haddr]
    · rw [hregs, Function.update_of_ne hk]
  rw [← hq']
  obtain ⟨rest, hbefore, hafter, -⟩ := hq.requests_split hi
  refine ⟨?_, ?_, ?_, ?_, ?_, ?_⟩
  · have hreq := hafter q' hlist fun k hk => by rw [hregs, Function.update_of_ne hk]
    rw [hself, Mshr.requests_promoted hp] at hreq
    refine hbefore.trans (.trans ?_ (hreq.symm.append_left _))
    rw [Mshr.requests, cpuPackets_append, List.append_assoc]
  · intro j hj k hk hjk
    rw [hlist] at hj hk
    rw [haddrs, haddrs] at hjk
    exact hd j hj k hk hjk
  · intro k hk hki
    rw [hlist] at hk
    exact ⟨hk, by rw [hregs, Function.update_of_ne hki]⟩
  · intro _
    rw [hself]
    exact ⟨rfl, haddr, hm.promoted (hq.busy i hi) hp⟩
  · intro a
    have hmatch : q'.findMatch a = q.findMatch a := by
      unfold MshrQueue.findMatch
      simp only [hlist, haddrs]
    rw [hmatch]
    simp
  · intro reply
    have := hd.fetch_modify haddr hi (fun _ _ => rfl : ∀ k, k ≠ i → reply k = reply k)
    rw [if_neg (show ¬ r.inService = true from Bool.false_ne_true)] at this
    rw [if_pos rfl, ← this]
    funext a
    unfold MshrQueue.fetch MshrQueue.findMatch
    rw [hlist, hregs]
    rfl

/-- The block of a miss has arrived: all its targets are gone, or the deferred ones wait
for the bus, which is only if the block is shared. -/
theorem retires (hq : q.WellFormed) (hd : q.Distinct) (hi : i ∈ q.allocatedList)
    (hm : (q.registers i).Awaits g present reply) (now : Tick) (pkt : Packet) :
    let r := ((q.registers i).handleFill pkt).1
    let again := (r.served.promoteDeferredTargets now).2
    (again = true → pkt.shared = true) ∧
      q.Retires g i (cpuPackets r.targets.list) again (q.finish i now r.served) := by
  intro r again
  obtain ⟨-, ⟨hshared, hne, hsame⟩ | ⟨hnil, hlist, -⟩⟩ := hm.filled pkt
  · have hr : r = q.registers i := hsame
    obtain ⟨t, ts, hcons⟩ := List.exists_cons_of_ne_nil hne
    have hagain : again = true := by
      simp only [again, hr, Mshr.promoteDeferredTargets, Mshr.served, hcons]
    refine ⟨fun _ => hshared, ?_⟩
    have hp : ((q.registers i).served.promoteDeferredTargets now).2 = true := by rw [← hr]; exact hagain
    rw [MshrQueue.finish, hagain, if_pos hagain, hr]
    exact hq.retires_again hd hi hm hp
  · have hagain : again = false := by
      simp only [again, Mshr.promoteDeferredTargets, Mshr.served, r, hnil]
    have hno : ¬ again = true := by simp [hagain]
    refine ⟨fun h => absurd h hno, ?_⟩
    rw [MshrQueue.finish, hagain, if_neg hno]
    refine hq.retires_freed hd hi ?_
    rw [show r.targets.list = _ from hlist]
    rfl

end MshrQueue.WellFormed

end PrefetchSim
