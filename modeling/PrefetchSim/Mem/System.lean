import PrefetchSim.Lib.Layers
import PrefetchSim.Mem.Lines
import PrefetchSim.Mem.Ordering
import PrefetchSim.Mem.Unique

/- The cache between a level above, which gives its blocks back, and a memory.

   The memory takes a packet when the bus does: a writeback changes it, and a
   request is answered with what it holds then, although the response may arrive
   much later. The level above may give back any block at any time. The policy is
   free, so the prefetcher may queue any address at any time.

   The state is seen as a store of the library `Layers`: the blocks in the cache,
   the entries of the write buffer in the order in which they are sent, the
   memory, and for each block the request that is out. The second part of the file
   says what the operations of the two queues are in that view. -/
namespace PrefetchSim

/-! ## The system -/

structure System (σ : Type) where
  cache : Cache σ
  /-- what the memory holds, by the address of the block -/
  memory : Addr → List UInt8
  /-- the response to the request of an entry -/
  reply : Nat → Option Packet := fun _ => none
  /-- what was last taken in of a block from above; nothing reads it -/
  owed : Addr → Option (List UInt8) := fun _ => none

namespace System

variable {σ : Type}

inductive Action where
  | tick (n : Nat)
  /-- the prefetcher queues a candidate for a request -/
  | prefetch (pkt : Packet) (time : Tick) (candidate : Addr × Tick)
  /-- the cache gets the bus -/
  | send (accept : Bool) (upward : Nat → SnoopAnswer)
  /-- the response for an entry arrives; another cache may share the block -/
  | respond (i : Nat) (shared : Bool) (firstWordTime finishTime : Tick)
  /-- the level above gives a block back -/
  | writeback (pkt : Packet)

def initial (cfg : Config) (policy : σ) (memory : Addr → List UInt8) : System σ where
  cache := Cache.initial cfg policy
  memory

/-- The packet the cache has for the bus, if it gets it now. -/
def busPacket (cfg : Config) (P : Policy σ) (upward : Nat → SnoopAnswer) (c : Cache σ) :
    Option (Packet × MshrRef) :=
  if c.memSidePort.deferredPacketReady c.curTick then none else (c.getTimingPacket cfg P upward).2

/-- The memory takes a packet. -/
def take (pkt : Packet) (m : MshrRef) (s : System σ) : System σ :=
  if pkt.cmd.isWrite then { s with memory := Function.update s.memory pkt.addr pkt.data }
  else
    let response := { pkt.makeTimingResponse with data := s.memory pkt.addr }
    { s with reply := Function.update s.reply m.2 (some response) }

def takeIf (accept : Bool) (p : Option (Packet × MshrRef)) (s : System σ) : System σ :=
  match p with
  | some (pkt, m) => if accept then s.take pkt m else s
  | none => s

def step (cfg : Config) (P : Policy σ) (s : System σ) : Action → System σ
  | .tick n => { s with cache := s.cache.step cfg P (.tick n) }
  | .prefetch pkt time c =>
    { s with cache := { s.cache with
        prefetcher := s.cache.prefetcher.enqueue cfg.geom cfg.pf pkt time s.cache.curTick c } }
  | .send accept upward =>
    { s with cache := s.cache.step cfg P (.sendPacket accept upward) }.takeIf accept
      (busPacket cfg P upward s.cache)
  | .respond i shared firstWordTime finishTime =>
    match s.reply i with
    | none => s
    | some pkt =>
      let pkt := { pkt with shared, firstWordTime, finishTime }
      { s with cache := s.cache.step cfg P (.response (.mshrs, i) pkt noSnoops) }
  | .writeback pkt =>
    { s with
      cache := s.cache.step cfg P (.cpuPacket pkt)
      owed := if s.cache.cpuSidePort.blocked then s.owed
        else Function.update s.owed pkt.addr (some pkt.data) }

/-- What the environment may do. A response answers a request that is out, blocks
are given back whole, and the assertion of `MSHRQueue::allocate` holds in the write
buffer. -/
def Enabled (cfg : Config) (s : System σ) : Action → Prop
  | .respond i _ _ _ => i ∈ s.cache.mshrQueue.allocatedList ∧
      (s.cache.mshrQueue.registers i).inService = true ∧ s.cache.writeBuffer.freeList ≠ []
  | .writeback pkt => (pkt.cmd = .writeback ∧ cfg.geom.blockAlign pkt.addr = pkt.addr ∧
        pkt.size = cfg.geom.blkSize ∧ pkt.data.length = cfg.geom.blkSize) ∧
      (pkt.memInhibit = false ∧ pkt.req.uncacheable = false) ∧ s.cache.writeBuffer.freeList ≠ []
  | _ => True

instance (cfg : Config) (s : System σ) : DecidablePred (s.Enabled cfg) := by
  rintro ⟨⟩ <;> dsimp only [Enabled] <;> infer_instance

end System

/-! ## The view -/

/-- What an entry writes: its block, and the data of its first target. -/
def Mshr.write (g : Geometry) (m : Mshr) : g.Block × List UInt8 :=
  (g.block m.addr, (m.getTarget.map fun t : Target => t.pkt.data).getD [])

/-- The writes that wait to be sent. -/
def MshrQueue.writes (g : Geometry) (q : MshrQueue) : List (g.Block × List UInt8) :=
  q.readyList.map fun i => (q.registers i).write g

/-- The request that is out for a block. -/
def MshrQueue.fetch (q : MshrQueue) (reply : Nat → Option Packet) (addr : Addr) :
    Layers.Fetch (List UInt8) :=
  match q.findMatch addr with
  | none => .idle
  | some i =>
    if (q.registers i).inService then .answered (((reply i).map fun p : Packet => p.data).getD [])
    else .waiting

namespace System

variable {σ : Type}

def store (cfg : Config) (s : System σ) : Layers.Store cfg.geom.Block (List UInt8) where
  cached := s.cache.tags.line cfg.geom
  pending := s.cache.writeBuffer.writes cfg.geom
  memory b := s.memory b.1
  fetch b := s.cache.mshrQueue.fetch s.reply b.1

/-- A block below the cache: its youngest entry in the write buffer, or else memory. -/
def lower (cfg : Config) (s : System σ) (b : cfg.geom.Block) : List UInt8 :=
  (((s.cache.writeBuffer.writes cfg.geom).reverse.find? fun w => decide (w.1 = b)).map Prod.snd).getD
    (s.memory b.1)

/-- A block as it is seen through the cache. -/
def value (cfg : Config) (s : System σ) (b : cfg.geom.Block) : List UInt8 :=
  ((s.cache.tags.line cfg.geom b).map Prod.fst).getD (s.lower cfg b)

theorem lower_eq (cfg : Config) (s : System σ) (b : cfg.geom.Block) :
    s.lower cfg b = (s.store cfg).below b :=
  (Layers.settled_eq (fun b : cfg.geom.Block => s.memory b.1) _ b).symm

theorem value_eq (cfg : Config) (s : System σ) (b : cfg.geom.Block) :
    s.value cfg b = (s.store cfg).seen b := by
  rw [value, lower_eq]
  rfl

end System

/-! ## Entries of the two queues -/

/-- A packet of the prefetcher. -/
structure IsPrefetch (p : Packet) : Prop where
  cmd : p.cmd = .hardPFReq
  cacheable : p.req.uncacheable = false
  paddr : p.req.paddr = p.addr

/-- An entry for a prefetch alone, with the response to it if it has been sent. -/
structure Mshr.Fetches (g : Geometry) (reply : Option Packet) (m : Mshr) : Prop where
  deferred : m.deferredTargets = {}
  shared : m.targets.needsExclusive = false
  target : ∃ t, m.targets.list = [t] ∧ t.source = .fromPrefetcher ∧ IsPrefetch t.pkt ∧
    m.addr = g.blockAlign t.pkt.addr
  answer : m.inService = true → m.isForward = false ∧ ∃ pkt, reply = some pkt ∧ pkt.cmd = .readResp ∧
    pkt.addr = m.addr ∧ pkt.memInhibit = false

/-- An entry for the writeback of a whole block. -/
structure Mshr.HoldsBlock (g : Geometry) (m : Mshr) : Prop where
  write : m.HoldsWrite
  aligned : g.blockAlign m.addr = m.addr
  size : m.size = g.blkSize
  target : ∀ t ∈ m.targets.list, t.pkt.cmd = .writeback ∧ t.pkt.addr = m.addr

/-- What enters the write buffer: blocks that are given back. -/
def Entering.block (g : Geometry) : Entering where
  entry addr size pkt _ _ := addr = pkt.addr ∧ size = pkt.size ∧ ∃ b v, GivesBack g b v pkt
  target _ _ _ _ := False

theorem holdsBlock_invariant (g : Geometry) :
    EntryInvariant (Entering.block g) .writeBuffer (Mshr.HoldsBlock g) where
  allocate m addr size pkt time order hm hd hok := by
    obtain ⟨rfl, rfl, b, v, hgives⟩ := hok
    refine ⟨(holdsWrite_invariant Entering.any).allocate m _ _ pkt time order hm hd trivial, ?_,
      hgives.size, ?_⟩
    · show g.blockAlign pkt.addr = pkt.addr
      rw [hgives.addr]
      exact b.2
    · intro t ht
      simp only [Mshr.allocate, TargetList.add, hm.targets, List.nil_append, List.mem_singleton] at ht
      subst ht
      exact ⟨hgives.cmd, rfl⟩
  target h := by cases h
  snoop h := by cases h
  flags m f p h := ⟨(holdsWrite_invariant Entering.any).flags m f p h.write, h.aligned, h.size, h.target⟩
  sent m hb hf h := ⟨(holdsWrite_invariant Entering.any).sent m hb hf h.write, h.aligned, h.size, h.target⟩
  bail m target hfirst hpf hmore h :=
    ⟨(holdsWrite_invariant Entering.any).bail m target hfirst hpf hmore h.write, h.aligned, h.size,
      fun t ht => h.target t (List.mem_of_mem_tail ht)⟩
  finish m r now hfill h hprom := by
    rw [filled_of_no_deferred h.write.1 hfill] at hprom
    simp [Mshr.served, Mshr.promoteDeferredTargets, h.write.1] at hprom

/-! ## The write buffer -/

namespace MshrQueue.WellFormed

variable {q : MshrQueue} {g : Geometry}

/-- A block that is given back is written after the others. -/
theorem writes_allocate (hq : q.WellFormed) (hfree : q.freeList ≠ []) {b : g.Block} {v : List UInt8}
    {pkt : Packet} (h : GivesBack g b v pkt) {time : Tick} (hlate : ∀ w ∈ q.waiting, w.readyTime ≤ time)
    (order : Nat) :
    (q.allocate pkt.addr pkt.size pkt time order).1.writes g = q.writes g ++ [(b, v)] := by
  obtain ⟨j, rest, hf⟩ := List.exists_cons_of_ne_nil hfree
  have hidle := hq.idle j (hf ▸ List.mem_cons_self ..)
  have hnew : ((q.registers j).allocate pkt.addr pkt.size pkt time order).write g = (b, v) := by
    show (g.block pkt.addr, _) = _
    rw [h.addr, Geometry.block_val]
    simp [Mshr.getTarget, Mshr.allocate, TargetList.add, hidle.targets, h.data]
  unfold MshrQueue.writes
  rw [hq.map_ready_allocate (fun m : Mshr => m.write g) hf
    (fun k hk => hlate _ (List.mem_map_of_mem hk)), hnew]

theorem holdsBlock_allocate (hq : q.WellFormed) (hall : ∀ j ∈ q.allocatedList, (q.registers j).HoldsBlock g)
    {b : g.Block} {v : List UInt8} {pkt : Packet} (h : GivesBack g b v pkt) (time : Tick) (order : Nat) :
    let q' := (q.allocate pkt.addr pkt.size pkt time order).1
    ∀ j ∈ q'.allocatedList, (q'.registers j).HoldsBlock g := by
  have hstep : QueueStep (Entering.block g) .writeBuffer q
      (q.allocate pkt.addr pkt.size pkt time order).1 :=
    .allocate _ _ pkt time order (fun _ => by rw [h.cmd]; decide) ⟨rfl, rfl, b, v, h⟩
  exact hstep.entries (holdsBlock_invariant g) hq hall

/-- The entry of a block is passed on and gone. -/
theorem forwards (hq : q.WellFormed) {j : Nat} (hj : j ∈ q.readyList) (hb : (q.registers j).HoldsBlock g) :
    (q.registers j).isForwardNoResponse = true := by
  obtain ⟨hdef, t, ht, hsrc, hresp, -, -⟩ := hb.write
  have hcount : (q.registers j).ntargets = 1 := by
    have := (hq.busy j (hq.mem_ready.1 hj).1).count
    rw [this, ht, hdef]
    rfl
  have hcmd : t.needsResponse = false := by
    rw [hresp, (hb.target t (by simp [ht])).1]
    rfl
  simp [Mshr.isForwardNoResponse, Mshr.getNumTargets, Mshr.getTarget, hcount, ht, hsrc, hcmd]

/-- The other entries stay in order when one is sent. -/
theorem writes_sent (hq : q.WellFormed) {j : Nat} {l l' : List Nat} (hl : q.readyList = l ++ j :: l')
    (hb : (q.registers j).HoldsBlock g) :
    (q.markInService j).writes g = (l ++ l').map fun i => (q.registers i).write g := by
  have hj : j ∈ q.readyList := by simp [hl]
  have hnd := hq.nodup_ready
  rw [hl] at hnd
  have hnot : j ∉ l ∧ j ∉ l' := by
    have h := List.nodup_middle.1 hnd
    have := (List.nodup_cons.1 h).1
    simpa using this
  have herase : q.readyList.erase j = l ++ l' := by
    rw [hl, List.erase_append_right _ hnot.1, List.erase_cons_head]
  have hs := (hq.mem_ready.1 hj).2
  unfold MshrQueue.markInService Mshr.markInService
  simp only [hq.forwards hj hb, if_true]
  have hlist : ((q.modify j fun _ => (q.registers j).popTarget).deallocate j).readyList = l ++ l' := by
    rw [← herase]
    simp [MshrQueue.deallocate, MshrQueue.modify, Mshr.popTarget, hs]
  unfold MshrQueue.writes
  rw [hlist]
  apply List.map_congr_left
  intro i hi
  have hne : i ≠ j := by
    rintro rfl
    rcases List.mem_append.1 hi with h | h
    · exact hnot.1 h
    · exact hnot.2 h
  simp [MshrQueue.deallocate, MshrQueue.modify, hne]

theorem holdsBlock_sent (hq : q.WellFormed) (hall : ∀ j ∈ q.allocatedList, (q.registers j).HoldsBlock g)
    {j : Nat} (hj : j ∈ q.readyList) :
    ∀ k ∈ (q.markInService j).allocatedList, ((q.markInService j).registers k).HoldsBlock g := by
  have hstep : QueueStep (Entering.block g) .writeBuffer q (q.markInService j) := .sent j hj
  exact hstep.entries (holdsBlock_invariant g) hq hall

end MshrQueue.WellFormed

/-! ## The misses -/

namespace MshrQueue

variable {q : MshrQueue} {i : Nat} {addr : Addr}

/-- The requests for an address depend on its entry only. -/
theorem Distinct.fetch_congr {q' : MshrQueue} {reply reply' : Nat → Option Packet} (h : q.Distinct)
    (h' : q'.Distinct)
    (hmem : ∀ k, (k ∈ q'.allocatedList ∧ (q'.registers k).addr = addr) ↔
      (k ∈ q.allocatedList ∧ (q.registers k).addr = addr))
    (hsame : ∀ k ∈ q.allocatedList, (q.registers k).addr = addr →
      (q'.registers k).inService = (q.registers k).inService ∧
        ((q.registers k).inService = true → reply' k = reply k)) :
    q'.fetch reply' addr = q.fetch reply addr := by
  have hmatch : q'.findMatch addr = q.findMatch addr := by
    apply Option.ext
    intro k
    rw [h'.findMatch_eq_some, h.findMatch_eq_some]
    exact hmem k
  unfold fetch
  rw [hmatch]
  cases hk : q.findMatch addr with
  | none => rfl
  | some k =>
    obtain ⟨hin, ha⟩ := h.findMatch_eq_some.1 hk
    obtain ⟨hs, hr⟩ := hsame k hin ha
    dsimp only
    rw [hs]
    split
    · rename_i hout
      rw [hr hout]
    · rfl

theorem Distinct.fetch_self (h : q.Distinct) (reply : Nat → Option Packet) (hi : i ∈ q.allocatedList) :
    q.fetch reply (q.registers i).addr =
      if (q.registers i).inService then .answered (((reply i).map fun p : Packet => p.data).getD [])
      else .waiting := by
  rw [fetch, h.findMatch_eq_some.2 ⟨hi, rfl⟩]

theorem fetch_eq_idle {reply : Nat → Option Packet} (h : q.findMatch addr = none) :
    q.fetch reply addr = .idle := by
  rw [fetch, h]

/-- An entry goes: no request for its block is out. -/
theorem Distinct.fetch_deallocate (h : q.Distinct) (hnd : q.allocatedList.Nodup) {r : Mshr}
    (hi : i ∈ q.allocatedList) (reply : Nat → Option Packet) :
    ((q.modify i fun _ => r).deallocate i).fetch reply =
      Function.update (q.fetch reply) (q.registers i).addr .idle := by
  have hne : ∀ k ∈ q.allocatedList.erase i, k ≠ i := fun k hk e => hnd.not_mem_erase (e ▸ hk)
  have hregs : ∀ k, k ≠ i → ((q.modify i fun _ => r).deallocate i).registers k = q.registers k := by
    intro k hk
    simp [MshrQueue.deallocate, MshrQueue.modify, hk]
  funext a
  by_cases ha : a = (q.registers i).addr
  · subst ha
    rw [Function.update_self]
    apply fetch_eq_idle
    rw [findMatch_eq_none]
    intro j hj
    rw [hregs j (hne j hj)]
    intro heq
    exact hne j hj (h j (List.mem_of_mem_erase hj) i hi heq)
  · rw [Function.update_of_ne ha]
    apply h.fetch_congr (h.deallocate hnd)
    · intro k
      constructor
      · rintro ⟨hk, hka⟩
        rw [hregs k (hne k hk)] at hka
        exact ⟨List.mem_of_mem_erase hk, hka⟩
      · rintro ⟨hk, rfl⟩
        have hki : k ≠ i := by
          rintro rfl
          exact ha rfl
        rw [hregs k hki]
        exact ⟨(List.mem_erase_of_ne hki).2 hk, rfl⟩
    · rintro k - rfl
      have hki : k ≠ i := by
        rintro rfl
        exact ha rfl
      rw [hregs k hki]
      exact ⟨rfl, fun _ => rfl⟩

/-- A write to an entry in use changes the request for its block only. -/
theorem Distinct.fetch_modify (h : q.Distinct) {r : Mshr} (hr : r.addr = (q.registers i).addr)
    (hi : i ∈ q.allocatedList) {reply reply' : Nat → Option Packet} (hreply : ∀ k, k ≠ i → reply' k = reply k) :
    (q.modify i fun _ => r).fetch reply' = Function.update (q.fetch reply) (q.registers i).addr
      (if r.inService then .answered (((reply' i).map fun p : Packet => p.data).getD []) else .waiting) := by
  have haddr : ∀ k, ((q.modify i fun _ => r).registers k).addr = (q.registers k).addr := by
    intro k
    by_cases hk : k = i
    · subst hk
      simp [MshrQueue.modify, hr]
    · simp [MshrQueue.modify, hk]
  funext a
  by_cases ha : a = (q.registers i).addr
  · subst ha
    rw [Function.update_self, ← haddr, (h.modify hr).fetch_self reply' hi]
    simp [MshrQueue.modify]
  · rw [Function.update_of_ne ha]
    apply h.fetch_congr (h.modify hr)
    · intro k
      rw [haddr]
      rfl
    · rintro k - rfl
      have hki : k ≠ i := by
        rintro rfl
        exact ha rfl
      refine ⟨by simp [MshrQueue.modify, hki], fun _ => hreply k hki⟩

/-- A new entry for a block without one: a request for it waits. -/
theorem WellFormed.fetch_allocate (hq : q.WellFormed) (h : q.Distinct) (hnone : q.findMatch addr = none)
    (hfree : q.freeList ≠ []) (size : Nat) (pkt : Packet) (time : Tick) (order : Nat)
    (reply : Nat → Option Packet) :
    (q.allocate addr size pkt time order).1.fetch reply = Function.update (q.fetch reply) addr .waiting := by
  obtain ⟨j, hj⟩ := allocate_isSome hfree addr size pkt time order
  obtain ⟨hmem, -, hself⟩ := allocate_new hj
  have hdistinct := hq.distinct_allocate h hnone size pkt time order
  funext a
  by_cases ha : a = addr
  · subst ha
    have := hdistinct.fetch_self reply hmem
    rw [hself] at this
    rw [Function.update_self]
    exact this
  · rw [Function.update_of_ne ha]
    apply h.fetch_congr hdistinct
    · intro k
      constructor
      · rintro ⟨hk, hka⟩
        rcases hq.allocate_cases hj hk with ⟨rfl, -, hreg⟩ | ⟨hk, hreg⟩
        · rw [hreg] at hka
          exact absurd hka.symm ha
        · exact ⟨hk, by rwa [hreg] at hka⟩
      · rintro ⟨hk, hka⟩
        obtain ⟨hk', hreg⟩ := hq.allocate_old hk addr size pkt time order
        exact ⟨hk', by rwa [hreg]⟩
    · intro k hk _
      rw [(hq.allocate_old hk addr size pkt time order).2]
      exact ⟨rfl, fun _ => rfl⟩

end MshrQueue

end PrefetchSim
