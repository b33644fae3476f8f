import PrefetchSim.Mem.QueueRuns
import PrefetchSim.Mem.Waiting
import PrefetchSim.Mem.Writeback

/- A cache between CPUs and a memory.

   CPUs send loads, stores, store conditionals and swaps for parts of blocks, the
   cache sends its misses and writebacks to the memory and takes the responses, and
   the responses leave at the CPU side. The memory answers a request when the bus
   takes it; the response may say that the block is shared, so blocks are upgraded,
   fills go by the temporary block and targets are deferred and requested again. The
   policy is free, so anything may be prefetched at any time.

   `Tidy` is the invariant of the cache here. Its core is what an outstanding miss
   means for its block: the block is not in the cache, or neither readable nor
   writable. A dirty block is writable, so nothing is dirty that an upgrade would
   clean. -/
namespace PrefetchSim

/-! ## The system -/

/-- The cache, the memory and the responses on the way, and what has left at the CPU side. -/
structure Node (σ : Type) extends System σ where
  delivered : List Packet := []

namespace Node

variable {σ : Type}

inductive Action where
  | tick (n : Nat)
  /-- a CPU sends a request -/
  | request (pkt : Packet)
  /-- the cache gets the bus -/
  | send (accept : Bool)
  /-- the response for an entry arrives; another cache may share the block -/
  | respond (i : Nat) (shared : Bool) (firstWordTime finishTime : Tick)
  /-- a response leaves at the CPU side -/
  | deliver

def initial (cfg : Config) (policy : σ) (memory : Addr → List UInt8) : Node σ :=
  { System.initial cfg policy memory with delivered := [] }

def step (cfg : Config) (P : Policy σ) (s : Node σ) : Action → Node σ
  | .tick n => { s with toSystem := s.toSystem.step cfg P (.tick n) }
  | .request pkt => { s with cache := s.cache.step cfg P (.cpuPacket pkt) }
  | .send accept => { s with toSystem := s.toSystem.step cfg P (.send accept noSnoops) }
  | .respond i shared firstWordTime finishTime =>
    { s with toSystem := s.toSystem.step cfg P (.respond i shared firstWordTime finishTime) }
  | .deliver =>
    { s with
      cache := s.cache.step cfg P .cpuSend
      delivered := s.delivered ++ (s.cache.cpuSidePort.transmitList.map Prod.snd).head?.toList }

/-- What the environment may do. A response answers a request that is out, a request
for an exclusive copy gets one, and the assertion of `MSHRQueue::allocate` holds in the
write buffer. No write is in the way of a prefetch that is about to become a miss. -/
def Enabled (cfg : Config) (s : Node σ) : Action → Prop
  | .request pkt => pkt.FromCpu cfg.geom
  | .send _ => s.cache.PrefetchClear cfg
  | .respond i shared _ _ => i ∈ s.cache.mshrQueue.allocatedList ∧
      (s.cache.mshrQueue.registers i).inService = true ∧
      (shared = true → (s.reply i).all fun pkt => pkt.cmd = .readResp) ∧ s.cache.writeBuffer.freeList ≠ []
  | _ => True

instance (cfg : Config) (s : Node σ) : DecidablePred (s.Enabled cfg) := by
  rintro ⟨⟩ <;> dsimp only [Enabled] <;> infer_instance

/-- The responses made so far. -/
def answers (s : Node σ) : List Packet := s.delivered ++ s.cache.cpuSidePort.transmitList.map Prod.snd

/-- The system as a server of the memory that is seen through it. -/
def server (cfg : Config) (P : Policy σ) : Serving.Server (Node σ) Action (cpuMeaning cfg.geom) where
  step := step cfg P
  seen s := s.value cfg
  waiting s := s.cache.mshrQueue.requests
  answers := answers
  arriving s
    | .request pkt => if s.cache.cpuSidePort.blocked then [] else [pkt]
    | _ => []

end Node

/-- The store of the system, with the requests that the memory has seen. -/
def System.view {σ : Type} (cfg : Config) (s : System σ) : Layers.Store cfg.geom.Block (List UInt8) :=
  { s.store cfg with fetch := fun b => (s.cache.mshrQueue.fetch s.reply b.1).sent }

theorem System.value_eq_view {σ : Type} (cfg : Config) (s : System σ) : s.value cfg = (s.view cfg).seen := by
  funext b
  exact System.value_eq cfg s b

/-! ## Permissions -/

/-- What the status of a block that is in the cache may be; `idle` says that no miss is
outstanding for it. -/
structure Status.Fits {g : Geometry} (b : g.Block) (idle : Prop) (st : Status) : Prop where
  dirty : st.dirty = true → st.writable = true ∧ b.1.toNat + g.blkSize < 2 ^ 64
  readable : st.readable = true ↔ idle
  writable : st.writable = true → idle

namespace Tags

variable {g : Geometry} {t t' t'' : Tags} {idle idle' : g.Block → Prop}

def Fits (g : Geometry) (t : Tags) (idle : g.Block → Prop) : Prop :=
  ∀ b p, t.findBlock g b.1 = some p → (t.blks p).status.Fits b (idle b)

/-- One block has changed, or gone, or come. -/
theorem Fits.update (h : t.Fits g idle) (b₀ : g.Block)
    (hnew : ∀ p, t'.findBlock g b₀.1 = some p → (t'.blks p).status.Fits b₀ (idle' b₀))
    (hrest : ∀ b, b ≠ b₀ → ∀ p, t'.findBlock g b.1 = some p →
      t.findBlock g b.1 = some p ∧ (t'.blks p).status = (t.blks p).status)
    (hidle : ∀ b, b ≠ b₀ → (idle' b ↔ idle b)) : t'.Fits g idle' := by
  intro b p hp
  by_cases hb : b = b₀
  · subst hb
    exact hnew p hp
  · obtain ⟨hold, hst⟩ := hrest b hb p hp
    have := h b p hold
    rw [hst]
    exact ⟨this.dirty, this.readable.trans (hidle b hb).symm, fun hw => (hidle b hb).2 (this.writable hw)⟩

/-- Stores that are the same to every access: they differ in their order, in
counters, and in which blocks are marked as prefetched. -/
structure Alike (g : Geometry) (t t' : Tags) : Prop where
  find : ∀ a, t'.findBlock g a = t.findBlock g a
  data : ∀ p, (t'.blks p).data = (t.blks p).data
  dirty : ∀ p, (t'.blks p).status.dirty = (t.blks p).status.dirty
  readable : ∀ p, (t'.blks p).status.readable = (t.blks p).status.readable
  writable : ∀ p, (t'.blks p).status.writable = (t.blks p).status.writable
  housed : t.Housed g → t'.Housed g

theorem Alike.refl (g : Geometry) (t : Tags) : Alike g t t :=
  ⟨fun _ => rfl, fun _ => rfl, fun _ => rfl, fun _ => rfl, fun _ => rfl, id⟩

theorem Quiet.alike (h : Quiet t t') (ht : t.WellFormed g) : Alike g t t' :=
  ⟨fun _ => h.findBlk ht _ _, h.data, fun p => by rw [h.status], fun p => by rw [h.status],
    fun p => by rw [h.status], h.housed⟩

/-- A block is marked as prefetched, or the mark is taken off. -/
theorem alike_mark (g : Geometry) (t : Tags) (p : BlkPtr) (mark : Bool) :
    Alike g t (t.modify p fun b => { b with status := { b.status with hwPrefetched := mark } }) := by
  have hinert := inert_status (fun st => { st with hwPrefetched := mark }) (fun _ => rfl) t p
  have hsame : ∀ p', (t.modify p fun b => { b with status := { b.status with hwPrefetched := mark } }).blks p' =
      t.blks p' ∨ (t.modify p fun b => { b with status := { b.status with hwPrefetched := mark } }).blks p' =
      { t.blks p' with status := { (t.blks p').status with hwPrefetched := mark } } := by
    intro p'
    by_cases hp : p' = p
    · subst hp
      exact .inr (modify_self ..)
    · exact .inl (modify_of_ne t hp _)
  refine ⟨fun a => findBlock_modify hinert g a, ?_, ?_, ?_, ?_, fun hh => hh.modify hinert⟩
  all_goals
    intro p'
    rcases hsame p' with h | h <;> rw [h]

theorem Alike.line (h : Alike g t t') : t'.line g = t.line g := by
  funext b
  unfold Tags.line
  rw [h.find]
  simp only [h.data, CacheBlk.isDirty, h.dirty]

theorem Alike.fits (h : Alike g t t') (hf : t.Fits g idle) : t'.Fits g idle := by
  intro b p hp
  rw [h.find] at hp
  have := hf b p hp
  refine ⟨?_, ?_, ?_⟩
  · rw [h.dirty, h.writable]
    exact this.dirty
  · rw [h.readable]
    exact this.readable
  · rw [h.writable]
    exact this.writable

/-- A write to the block `b` changes its permissions only. -/
theorem Fits.modify (h : t.Fits g idle) {p : BlkPtr} {f : CacheBlk → CacheBlk} (hf : t.Inert p f) (b : g.Block)
    (hb : t.findBlock g b.1 = some p) (hnew : (f (t.blks p)).status.Fits b (idle' b))
    (hidle : ∀ b', b' ≠ b → (idle' b' ↔ idle b')) : (t.modify p f).Fits g idle' := by
  refine h.update b ?_ ?_ hidle
  · intro p' hp'
    rw [findBlock_modify hf, hb] at hp'
    cases hp'
    rw [modify_self]
    exact hnew
  · intro b' hne p' hp'
    rw [findBlock_modify hf] at hp'
    refine ⟨hp', ?_⟩
    have hpp : p' ≠ p := by
      rintro rfl
      exact hne ((findBlock_inj hp' hb).trans (Geometry.block_val b))
    rw [modify_of_ne t hpp]

end Tags

/-! ## The invariant -/

/-- An entry of the write buffer: a whole block that waits for the bus. -/
structure Mshr.Posts (g : Geometry) (m : Mshr) : Prop where
  holds : m.HoldsBlock g
  waits : m.inService = false
  low : m.addr.toNat + g.blkSize < 2 ^ 64

structure Cache.Tidy {σ : Type} (cfg : Config) (reply : Nat → Option Packet) (c : Cache σ) : Prop where
  ordered : c.Ordered cfg
  spare : c.Spare cfg
  housed : c.tags.Housed cfg.geom
  queued : ∀ p ∈ c.prefetcher.pf, IsPrefetch p
  distinct : c.mshrQueue.Distinct
  misses : ∀ i ∈ c.mshrQueue.allocatedList, (c.mshrQueue.registers i).Awaits cfg.geom
    (c.tags.findBlock cfg.geom (c.mshrQueue.registers i).addr).isSome (reply i)
  writes : ∀ j ∈ c.writeBuffer.allocatedList, (c.writeBuffer.registers j).Posts cfg.geom
  younger : ∀ i ∈ c.mshrQueue.readyList, ∀ j ∈ c.writeBuffer.allocatedList,
    (c.writeBuffer.registers j).addr = (c.mshrQueue.registers i).addr →
      (c.writeBuffer.registers j).order < (c.mshrQueue.registers i).order
  fits : c.tags.Fits cfg.geom fun b => c.mshrQueue.findMatch b.1 = none

namespace Cache

variable {σ : Type} {cfg : Config} {P : Policy σ} {reply : Nat → Option Packet} {c c' : Cache σ}

/-- The queues are as they were, and the blocks are where they were. -/
theorem Tidy.retag (h : c.Tidy cfg reply) (hordered : c'.Ordered cfg) (hspare : c'.Spare cfg)
    (hqueue : c'.mshrQueue = c.mshrQueue) (hbuffer : c'.writeBuffer = c.writeBuffer)
    (hpf : ∀ p ∈ c'.prefetcher.pf, IsPrefetch p) (hhoused : c'.tags.Housed cfg.geom)
    (hfind : ∀ a, c'.tags.findBlock cfg.geom a = c.tags.findBlock cfg.geom a)
    (hfits : c'.tags.Fits cfg.geom fun b => c.mshrQueue.findMatch b.1 = none) : c'.Tidy cfg reply := by
  refine ⟨hordered, hspare, hhoused, hpf, hqueue ▸ h.distinct, ?_, hbuffer ▸ h.writes, ?_, hqueue ▸ hfits⟩
  · rw [hqueue]
    intro i hi
    rw [hfind]
    exact h.misses i hi
  · rw [hqueue, hbuffer]
    exact h.younger

/-- Nothing has changed but the ports, the time and the prefetcher. -/
theorem Tidy.congr (h : c.Tidy cfg reply) (hordered : c'.Ordered cfg) (hspare : c'.Spare cfg)
    (hqueue : c'.mshrQueue = c.mshrQueue) (hbuffer : c'.writeBuffer = c.writeBuffer)
    (hpf : ∀ p ∈ c'.prefetcher.pf, IsPrefetch p) (htags : c'.tags = c.tags) : c'.Tidy cfg reply :=
  h.retag hordered hspare hqueue hbuffer hpf (htags ▸ h.housed) (fun _ => by rw [htags]) (htags ▸ h.fits)

theorem Tidy.misses_wellFormed (h : c.Tidy cfg reply) : c.mshrQueue.WellFormed := h.ordered.sound.queues .mshrs

theorem Tidy.writes_wellFormed (h : c.Tidy cfg reply) : c.writeBuffer.WellFormed :=
  h.ordered.sound.queues .writeBuffer

theorem initial_tidy (cfg : Config) (policy : σ) (reply : Nat → Option Packet) :
    (initial cfg policy).Tidy cfg reply where
  ordered := initial_ordered cfg policy
  spare := initial_spare cfg policy
  housed := Tags.initial_housed cfg.geom
  queued _ h := by cases h
  distinct _ h := by cases h
  misses _ h := by cases h
  writes _ h := by cases h
  younger _ h := by cases h
  fits b p hp := by
    rw [show (initial cfg policy).tags.findBlock cfg.geom b.1 = none from
      Tags.initial_findBlock cfg.geom b.1] at hp
    cases hp

end Cache

namespace MshrQueue

variable {q : MshrQueue}

/-- After a new entry for a block only its own block has one more miss. -/
theorem WellFormed.findMatch_allocate (hq : q.WellFormed) (hfree : q.freeList ≠ []) (addr : Addr) (size : Nat)
    (pkt : Packet) (time : Tick) (order : Nat) (a : Addr) :
    (q.allocate addr size pkt time order).1.findMatch a = none ↔ a ≠ addr ∧ q.findMatch a = none := by
  obtain ⟨j, hj⟩ := allocate_isSome hfree addr size pkt time order
  obtain ⟨hmem, -, hself⟩ := allocate_new hj
  simp only [findMatch_eq_none]
  constructor
  · intro h
    refine ⟨?_, fun k hk => ?_⟩
    · rintro rfl
      apply h j hmem
      rw [hself]
      rfl
    · obtain ⟨hk', hreg⟩ := hq.allocate_old hk addr size pkt time order
      have := h k hk'
      rwa [hreg] at this
  · rintro ⟨hne, h⟩ k hk
    rcases hq.allocate_cases hj hk with ⟨rfl, -, hreg⟩ | ⟨hk, hreg⟩
    · rw [hreg]
      exact hne.symm
    · rw [hreg]
      exact h k hk

end MshrQueue

namespace Cache

variable {σ : Type} {cfg : Config} {P : Policy σ} {reply reply' : Nat → Option Packet} {c c' : Cache σ}

/-- A packet becomes a miss to a block that has none. -/
theorem Tidy.enter (hs : c.Tidy cfg reply) {pkt : Packet}
    (hmiss : pkt.Misses cfg.geom (c.tags.findBlock cfg.geom pkt.addr).isSome)
    (hnone : c.mshrQueue.findMatch (cfg.geom.blockAlign pkt.addr) = none) {time : Tick}
    (hordered : c'.Ordered cfg) (hspare : c'.Spare cfg)
    (hqueue : c'.mshrQueue =
      (c.mshrQueue.allocate (cfg.geom.blockAlign pkt.addr) cfg.geom.blkSize pkt time c.order).1)
    (hbuffer : c'.writeBuffer = c.writeBuffer) (hpf : ∀ p ∈ c'.prefetcher.pf, IsPrefetch p)
    (hhoused : c'.tags.Housed cfg.geom)
    (hfind : ∀ a, c'.tags.findBlock cfg.geom a = c.tags.findBlock cfg.geom a)
    (hfits : c'.tags.Fits cfg.geom fun b =>
      b.1 ≠ cfg.geom.blockAlign pkt.addr ∧ c.mshrQueue.findMatch b.1 = none) : c'.Tidy cfg reply := by
  have hq := hs.misses_wellFormed
  obtain ⟨j, hj⟩ := MshrQueue.allocate_isSome hs.spare.free (cfg.geom.blockAlign pkt.addr) cfg.geom.blkSize pkt
    time c.order
  refine ⟨hordered, hspare, hhoused, hpf, ?_, ?_, hbuffer ▸ hs.writes, ?_, ?_⟩
  · rw [hqueue]
    exact hq.distinct_allocate hs.distinct hnone _ pkt time c.order
  · rw [hqueue]
    intro k hk
    rcases hq.allocate_cases hj hk with ⟨rfl, hidle, hreg⟩ | ⟨hk, hreg⟩
    · rw [hreg, hfind]
      have hsame : c.tags.findBlock cfg.geom (cfg.geom.blockAlign pkt.addr) = c.tags.findBlock cfg.geom pkt.addr :=
        Tags.findBlock_block c.tags pkt.addr
      show ((c.mshrQueue.registers k).allocate (cfg.geom.blockAlign pkt.addr) cfg.geom.blkSize pkt time
        c.order).Awaits cfg.geom (c.tags.findBlock cfg.geom (cfg.geom.blockAlign pkt.addr)).isSome (reply k)
      rw [hsame]
      exact Mshr.Misses.awaits hidle hmiss time c.order
    · rw [hreg, hfind]
      exact hs.misses k hk
  · rw [hbuffer, hqueue]
    intro k hk j' hj' haddr
    obtain ⟨hmem, hin⟩ := (hq.allocate _ _ pkt time c.order).mem_ready.1 hk
    rcases hq.allocate_cases hj hmem with ⟨rfl, hidle, hreg⟩ | ⟨hmem, hreg⟩
    · -- the new entry is the youngest of all
      rw [hreg]
      exact (hs.ordered.writes j' hj').2
    · rw [hreg] at hin haddr ⊢
      exact hs.younger k (hq.mem_ready.2 ⟨hmem, hin⟩) j' hj' haddr
  · rw [hqueue]
    intro b p hp
    have := hfits b p hp
    have hiff := hq.findMatch_allocate hs.spare.free (cfg.geom.blockAlign pkt.addr) cfg.geom.blkSize pkt time
      c.order b.1
    exact ⟨this.dirty, this.readable.trans hiff.symm, fun hw => hiff.2 (this.writable hw)⟩

variable (reply') in
/-- The entry of a miss is written: it stays the entry of its block, with its age. -/
theorem Tidy.rewrite (hs : c.Tidy cfg reply) {i : Nat} (hi : i ∈ c.mshrQueue.allocatedList) {r : Mshr}
    (haddr : r.addr = (c.mshrQueue.registers i).addr) (horder : r.order = (c.mshrQueue.registers i).order)
    (hordered : c'.Ordered cfg) (hspare : c'.Spare cfg) (halike : Tags.Alike cfg.geom c.tags c'.tags)
    (hpf : ∀ p ∈ c'.prefetcher.pf, IsPrefetch p) (hbuffer : c'.writeBuffer = c.writeBuffer)
    (hlist : c'.mshrQueue.allocatedList = c.mshrQueue.allocatedList)
    (hready : ∀ k ∈ c'.mshrQueue.readyList, k ∈ c.mshrQueue.readyList)
    (hregs : c'.mshrQueue.registers = Function.update c.mshrQueue.registers i r)
    (hreply : ∀ k, k ≠ i → reply' k = reply k)
    (hr : r.Awaits cfg.geom (c.tags.findBlock cfg.geom r.addr).isSome (reply' i)) :
    c'.Tidy cfg reply' ∧ c'.mshrQueue.fetch reply' =
      Function.update (c.mshrQueue.fetch reply) (c.mshrQueue.registers i).addr
        (if r.inService then .answered (((reply' i).map fun p : Packet => p.data).getD []) else .waiting) := by
  have haddrs : ∀ k, (c'.mshrQueue.registers k).addr = (c.mshrQueue.registers k).addr := by
    intro k
    rw [hregs]
    by_cases hk : k = i
    · subst hk
      rw [Function.update_self, haddr]
    · rw [Function.update_of_ne hk]
  have horders : ∀ k, (c'.mshrQueue.registers k).order = (c.mshrQueue.registers k).order := by
    intro k
    rw [hregs]
    by_cases hk : k = i
    · subst hk
      rw [Function.update_self, horder]
    · rw [Function.update_of_ne hk]
  have hmatch : ∀ a, c'.mshrQueue.findMatch a = c.mshrQueue.findMatch a := by
    intro a
    unfold MshrQueue.findMatch
    simp only [hlist, haddrs]
  refine ⟨⟨hordered, hspare, halike.housed hs.housed, hpf, ?_, ?_, hbuffer ▸ hs.writes, ?_, ?_⟩, ?_⟩
  · intro j hj k hk hjk
    rw [hlist] at hj hk
    rw [haddrs, haddrs] at hjk
    exact hs.distinct j hj k hk hjk
  · intro k hk
    rw [hlist] at hk
    rw [haddrs, halike.find, hregs]
    by_cases hki : k = i
    · subst hki
      rw [Function.update_self, ← haddr]
      exact hr
    · rw [Function.update_of_ne hki, hreply k hki]
      exact hs.misses k hk
  · intro k hk j hj heq
    rw [hbuffer] at hj heq ⊢
    rw [haddrs] at heq
    rw [horders]
    exact hs.younger k (hready k hk) j hj heq
  · simp only [hmatch]
    exact halike.fits hs.fits
  · rw [← hs.distinct.fetch_modify haddr hi hreply]
    funext a
    unfold MshrQueue.fetch MshrQueue.findMatch
    rw [hlist, hregs]
    rfl

end Cache

/-! ## The access of a request -/

/-- A request is satisfied from its block; or it is a store conditional, and has failed
because there is no block; or it misses. -/
inductive Access (g : Geometry) (t : Tags) (pkt : Packet) (r : AccessResult) : Prop where
  | hit (t₁ : Tags) (ptr : BlkPtr) (quiet : Tags.Quiet t t₁) (found : t.findBlock g pkt.addr = some ptr)
      (permitted : permits pkt (t.blks ptr) = true) (satisfied : r.satisfied = true) (blk : r.blk = some ptr)
      (tags : r.tags = (satisfyCpuSideRequest g t₁ ptr pkt).1)
      (packet : r.pkt = (satisfyCpuSideRequest g t₁ ptr pkt).2)
  | fails (absent : t.findBlock g pkt.addr = none) (cmd : pkt.cmd = .storeCondReq)
      (satisfied : r.satisfied = true) (blk : r.blk = none) (tags : r.tags = t)
      (packet : r.pkt = pkt.setExtraData 0)
  | miss (satisfied : r.satisfied = false) (quiet : Tags.Quiet t r.tags)
      (blk : r.blk = t.findBlock g pkt.addr) (packet : r.pkt = pkt)
      (refused : ∀ ptr, t.findBlock g pkt.addr = some ptr → permits pkt (t.blks ptr) = false)

theorem access_request {g : Geometry} (t : Tags) (q : MshrQueue) (now : Tick) {pkt : Packet}
    (h : pkt.FromCpu g) :
    (access g t q now pkt).writebacks = [] ∧ Access g t pkt (access g t q now pkt) := by
  obtain ⟨-, -, -, -, -, hwb, -⟩ := MemCmd.ofCpu_attributes h.cmd
  have hfound := t.accessBlock_found g now pkt.addr
  have quiet := t.accessBlock_quiet g now pkt.addr
  have hnone : t.findBlock g pkt.addr = none → (t.accessBlock g now pkt.addr).1 = t := by
    intro hn
    rw [Tags.accessBlock, hn]
  unfold access
  generalize t.accessBlock g now pkt.addr = acc at hfound quiet hnone ⊢
  obtain ⟨t₁, lat, blk⟩ := acc
  dsimp only at hfound quiet hnone ⊢
  cases blk with
  | some ptr =>
    have hpermits : permits pkt (t₁.blks ptr) = permits pkt (t.blks ptr) := by
      simp only [permits, CacheBlk.isWritable, CacheBlk.isReadable, quiet.status]
    dsimp only
    split
    · rename_i hp
      exact ⟨rfl, .hit t₁ ptr quiet hfound.symm (hpermits ▸ hp) rfl rfl rfl rfl⟩
    · rename_i hp
      refine ⟨rfl, .miss rfl quiet hfound rfl ?_⟩
      intro ptr' hptr'
      rw [show t.findBlock g pkt.addr = some ptr from hfound.symm] at hptr'
      cases hptr'
      rw [← hpermits]
      exact Bool.eq_false_iff.2 hp
  | none =>
    have habsent : t.findBlock g pkt.addr = none := hfound.symm
    obtain rfl := hnone habsent
    dsimp only
    rw [if_neg hwb]
    split
    · rename_i hsc
      have hcmd : pkt.cmd = .storeCondReq := by
        have hof := h.cmd
        revert hsc hof
        cases pkt.cmd <;> decide
      exact ⟨rfl, .fails habsent hcmd rfl rfl rfl rfl⟩
    · refine ⟨rfl, .miss rfl (.refl _) hfound rfl ?_⟩
      intro ptr hptr
      rw [habsent] at hptr
      cases hptr

/-! ## What a hit and a miss leave -/

namespace Cache

variable {σ : Type} {cfg : Config} {P : Policy σ} {s : Cache σ}

/-- The responses that wait at the CPU side. -/
def responses (s : Cache σ) : List Packet := s.cpuSidePort.transmitList.map Prod.snd

variable (cfg P) in
/-- The prefetch queue stays one of prefetches. -/
theorem notify_queued {s : Cache σ} (hpf : ∀ p ∈ s.prefetcher.pf, IsPrefetch p) (pkt : Packet) (time : Tick) :
    ∀ p ∈ (s.notify cfg P pkt time).prefetcher.pf, IsPrefetch p :=
  Prefetcher.notify_isPrefetch P cfg.geom cfg.pf _ _ _ pkt time hpf

variable (cfg P) in
theorem hitPath_answers {r : AccessResult} (hresp : r.pkt.cmd.needsResponse = true) (time : Tick)
    (hpf : ∀ p ∈ s.prefetcher.pf, IsPrefetch p) :
    let s' := s.hitPath cfg P r time
    s'.mshrQueue = s.mshrQueue ∧ s'.writeBuffer = s.writeBuffer ∧ Tags.Alike cfg.geom s.tags s'.tags ∧
      (∀ p ∈ s'.prefetcher.pf, IsPrefetch p) ∧
      s'.responses.Perm (s.responses ++ [r.pkt.makeTimingResponse]) := by
  have hnotify := notify_queued cfg P hpf r.pkt time
  unfold hitPath
  simp only [hresp, if_true]
  split
  · cases r.blk with
    | none => exact ⟨rfl, rfl, .refl _ _, hnotify, CachePort.respond_perm ..⟩
    | some ptr =>
      exact ⟨rfl, rfl, Tags.alike_mark cfg.geom s.tags ptr false, hnotify, CachePort.respond_perm ..⟩
  · exact ⟨rfl, rfl, .refl _ _, hpf, CachePort.respond_perm ..⟩

theorem setBlocked_responses (s : Cache σ) (cause : BlockedCause) : (s.setBlocked cause).responses = s.responses := by
  unfold responses setBlocked
  dsimp only
  split <;> rfl

theorem allocateBuffer_responses (idx : QueueIdx) (addr : Addr) (size : Nat) (pkt : Packet) (time : Tick)
    (s : Cache σ) : (s.allocateBuffer idx addr size pkt time).1.responses = s.responses := by
  unfold allocateBuffer
  dsimp only
  split
  · rw [setBlocked_responses]
    cases idx <;> rfl
  · cases idx <;> rfl

variable (cfg) in
/-- A request joins the miss to its block. -/
theorem addTarget_joins (i : Nat) (pkt : Packet) (time : Tick) (s : Cache σ) :
    let s' := s.addTarget cfg i pkt time
    s'.mshrQueue = (s.mshrQueue.modify i fun _ => (s.mshrQueue.registers i).allocateTarget pkt time s.order) ∧
      s'.writeBuffer = s.writeBuffer ∧ s'.tags = s.tags ∧ s'.prefetcher = s.prefetcher ∧
      s'.responses = s.responses := by
  unfold addTarget
  dsimp only
  split
  · exact ⟨rfl, rfl, rfl, rfl, setBlocked_responses ..⟩
  · exact ⟨rfl, rfl, rfl, rfl, rfl⟩

variable (cfg P) in
/-- A request becomes a miss; its block, if it is here, is hidden. -/
theorem newMiss (blk : Option BlkPtr) (pkt : Packet) (time : Tick) (s : Cache σ) :
    let s' := (((s.hideBlock blk).allocateMissBuffer cfg pkt time).1).notify cfg P pkt time
    s'.mshrQueue = (s.mshrQueue.allocate (cfg.geom.blockAlign pkt.addr) cfg.geom.blkSize pkt time s.order).1 ∧
      s'.writeBuffer = s.writeBuffer ∧ s'.tags = (s.hideBlock blk).tags ∧
      ((∀ p ∈ s.prefetcher.pf, IsPrefetch p) → ∀ p ∈ s'.prefetcher.pf, IsPrefetch p) ∧
      s'.responses = s.responses := by
  have hcore := hideBlock_sameCore cfg.geom blk s
  have hresp : (s.hideBlock blk).responses = s.responses := by
    unfold hideBlock
    split
    · split <;> rfl
    · rfl
  refine ⟨?_, ?_, ?_, ?_, ?_⟩
  · rw [← hcore.mshrQueue, ← hcore.order]
    exact queue_allocateBuffer .mshrs .mshrs ..
  · rw [← hcore.writeBuffer]
    exact queue_allocateBuffer .mshrs .writeBuffer ..
  · exact allocateBuffer_tags ..
  · intro hpf
    apply notify_queued
    rw [allocateMissBuffer, allocateBuffer_prefetcher, hcore.prefetcher]
    exact hpf
  · exact (allocateBuffer_responses ..).trans hresp

end Cache

/-! ## Steps -/

/-- What a step with these arrivals does: the invariant of the cache is kept, some
requests are performed, and what is seen of the memory changes as they say. -/
structure Node.Advances {σ : Type} (cfg : Config) (s : Node σ) (new : List Packet) (s' : Node σ) : Prop where
  tidy : s'.cache.Tidy cfg s'.reply
  effect : ∃ ops ws, Layers.Moves (s.view cfg) ws (s'.view cfg) ∧ (∀ w ∈ ws, w.2.length = cfg.geom.blkSize) ∧
    (cpuMeaning cfg.geom).Performs (s.view cfg).seen ops (Layers.settled (s.view cfg).seen ws) ∧
    (s.cache.mshrQueue.requests ++ new).Perm (ops.map Prod.fst ++ s'.cache.mshrQueue.requests) ∧
    s'.answers.Perm (s.answers ++ ops.map Prod.snd)

/-- The requests that the memory has seen, as a map of blocks. -/
theorem System.sent_update {f f' : Addr → Layers.Fetch (List UInt8)} {g : Geometry} {b : g.Block}
    {x : Layers.Fetch (List UInt8)} (h : f' = Function.update f b.1 x) :
    (fun b : g.Block => (f' b.1).sent) = Function.update (fun b : g.Block => (f b.1).sent) b x.sent := by
  rw [h]
  funext b'
  by_cases hb : b' = b
  · subst hb
    simp
  · have hne : b'.1 ≠ b.1 := fun e => hb (Subtype.ext e)
    simp [hb, hne]

/-- Moves to what the fields of the state say. -/
theorem System.moves_view {σ : Type} {cfg : Config} {s : System σ}
    {S T : Layers.Store cfg.geom.Block (List UInt8)} {ws : List (cfg.geom.Block × List UInt8)}
    (h : Layers.Moves S ws T) (hline : s.cache.tags.line cfg.geom = T.cached)
    (hpending : s.cache.writeBuffer.writes cfg.geom = T.pending)
    (hmemory : (fun b : cfg.geom.Block => s.memory b.1) = T.memory)
    (hfetch : (fun b : cfg.geom.Block => (s.cache.mshrQueue.fetch s.reply b.1).sent) = T.fetch) :
    Layers.Moves S ws (s.view cfg) := by
  have hT : s.view cfg = T := Layers.Store.ext hline hpending hmemory hfetch
  rw [hT]
  exact h

namespace Node

variable {σ : Type} {cfg : Config} {P : Policy σ} {s s' : Node σ} {c : Cache σ}

/-- A step in which no request is performed. -/
theorem Advances.quiet {new : List Packet} (htidy : s'.cache.Tidy cfg s'.reply)
    (hmoves : Layers.Moves (s.view cfg) [] (s'.view cfg))
    (hrequests : (s.cache.mshrQueue.requests ++ new).Perm s'.cache.mshrQueue.requests)
    (hanswers : s'.answers.Perm s.answers) : s.Advances cfg new s' :=
  ⟨htidy, [], [], hmoves, by simp, .nil _, hrequests, by simpa using hanswers⟩

theorem answers_perm {rs : List Packet} (h : c.responses.Perm (s.cache.responses ++ rs)) :
    ({ s with cache := c } : Node σ).answers.Perm (s.answers ++ rs) := by
  unfold answers
  rw [List.append_assoc]
  exact h.append_left _

theorem answers_eq (h : c.responses = s.cache.responses) : ({ s with cache := c } : Node σ).answers = s.answers :=
  congrArg (s.delivered ++ ·) h

/-! ## A request that hits -/

/-- The block of a request that is satisfied: where it is, what it held, and that its
permissions fit still. -/
theorem hit_block {c : Cache σ} {reply : Nat → Option Packet} (hs : c.Tidy cfg reply) {pkt : Packet}
    (hpkt : pkt.FromCpu cfg.geom) {t₁ : Tags} {ptr : BlkPtr} (quiet : Tags.Quiet c.tags t₁)
    (found : c.tags.findBlock cfg.geom pkt.addr = some ptr)
    (permitted : permits pkt (c.tags.blks ptr) = true)
    (hlen : (c.tags.blks ptr).data.length = cfg.geom.blkSize) :
    let b := cfg.geom.block pkt.addr
    let t' := (satisfyCpuSideRequest cfg.geom t₁ ptr pkt).1
    let blk' := satisfiedBlk cfg.geom pkt (t₁.blks ptr)
    (∀ a, t'.findBlock cfg.geom a = c.tags.findBlock cfg.geom a) ∧ t'.Housed cfg.geom ∧
      (t'.Fits cfg.geom fun b => c.mshrQueue.findMatch b.1 = none) ∧
      c.tags.line cfg.geom b = some ((t₁.blks ptr).data, (t₁.blks ptr).isDirty) ∧
      t'.line cfg.geom = Function.update (c.tags.line cfg.geom) b (some (blk'.data, blk'.isDirty)) ∧
      CacheBlk.Served pkt.cmd.needsExclusive (t₁.blks ptr) blk' := by
  intro b t' blk'
  have hwf := hs.ordered.sound.tags
  have halike := quiet.alike hwf
  have hserved : CacheBlk.Served pkt.cmd.needsExclusive (t₁.blks ptr) blk' :=
    served_satisfiedBlk hpkt ((congrArg List.length (quiet.data ptr)).trans hlen)
  have ht' : t' = t₁.modify ptr fun _ => blk' := satisfy_modify hpkt t₁ ptr
  have hinert : t₁.Inert ptr fun _ => blk' := .inr ⟨hserved.tag, hserved.set, hserved.valid⟩
  have hfound : t₁.findBlock cfg.geom b.1 = some ptr := by
    rw [halike.find, Tags.findBlock_block]
    exact found
  have hfits : t₁.Fits cfg.geom fun b => c.mshrQueue.findMatch b.1 = none := halike.fits hs.fits
  have hold := hfits b ptr hfound
  rw [ht']
  refine ⟨?_, (halike.housed hs.housed).modify hinert, ?_, ?_, ?_, hserved⟩
  · intro a
    rw [Tags.findBlock_modify hinert, halike.find]
  · refine hfits.modify hinert b hfound ⟨?_, ?_, ?_⟩ (fun _ _ => Iff.rfl)
    · intro hdirty
      rw [hserved.writable]
      cases hx : pkt.cmd.needsExclusive with
      | false => exact hold.dirty ((hserved.clean hx).symm.trans hdirty)
      | true =>
        have hw : (c.tags.blks ptr).isWritable = true := by simpa [permits, hx] using permitted
        simp only [CacheBlk.isWritable, Bool.and_eq_true] at hw
        rw [quiet.status]
        exact ⟨hw.1, hpkt.low⟩
    · rw [hserved.readable]
      exact hold.readable
    · rw [hserved.writable]
      exact hold.writable
  · rw [← halike.line, Tags.line, hfound]
    rfl
  · rw [Tags.line_modify hinert hfound, halike.line]

theorem hit_advances (hs : s.cache.Tidy cfg s.reply)
    (hsizes : (s.view cfg).All fun v => v.length = cfg.geom.blkSize) {pkt : Packet} (hpkt : pkt.FromCpu cfg.geom)
    {t₁ : Tags} {ptr : BlkPtr} (quiet : Tags.Quiet s.cache.tags t₁)
    (found : s.cache.tags.findBlock cfg.geom pkt.addr = some ptr)
    (permitted : permits pkt (s.cache.tags.blks ptr) = true) (hordered : c.Ordered cfg)
    (hspare : c.Spare cfg) (hqueue : c.mshrQueue = s.cache.mshrQueue)
    (hbuffer : c.writeBuffer = s.cache.writeBuffer) (hpf : ∀ p ∈ c.prefetcher.pf, IsPrefetch p)
    (halike : Tags.Alike cfg.geom (satisfyCpuSideRequest cfg.geom t₁ ptr pkt).1 c.tags)
    (hresponses : c.responses.Perm (s.cache.responses ++
      [(satisfyCpuSideRequest cfg.geom t₁ ptr pkt).2.makeTimingResponse])) :
    s.Advances cfg [pkt] { s with cache := c } := by
  have hlen : (s.cache.tags.blks ptr).data.length = cfg.geom.blkSize := by
    refine hsizes.cached (cfg.geom.block pkt.addr) ((s.cache.tags.blks ptr).data, (s.cache.tags.blks ptr).isDirty) ?_
    show s.cache.tags.line cfg.geom (cfg.geom.block pkt.addr) = _
    rw [Tags.line, Tags.findBlock_block, found]
    rfl
  obtain ⟨hfind, hhoused, hfits, hheld, hline, hserved⟩ := hit_block hs hpkt quiet found permitted hlen
  have hperf := satisfy_performs hpkt t₁ ptr
  obtain ⟨ws, hmoves, hws, hsettled⟩ := Layers.Moves.touch (s.view cfg) _ hheld hserved.dirty
  refine ⟨?_, [(pkt, (satisfyCpuSideRequest cfg.geom t₁ ptr pkt).2.makeTimingResponse)], ws, ?_, ?_, ?_, ?_,
    answers_perm hresponses⟩
  · exact hs.retag hordered hspare hqueue hbuffer hpf (halike.housed hhoused)
      (fun a => (halike.find a).trans (hfind a)) (halike.fits hfits)
  · exact System.moves_view hmoves (halike.line.trans hline) (congrArg (MshrQueue.writes cfg.geom) hbuffer) rfl
      (by rw [hqueue]; rfl)
  · intro w hw
    rw [hws w hw, hserved.length, quiet.data]
    exact hlen
  · have hseen : (s.view cfg).seen (cfg.geom.block pkt.addr) = (t₁.blks ptr).data := by
      simp only [Layers.Store.seen]
      rw [show (s.view cfg).cached (cfg.geom.block pkt.addr) = _ from hheld]
      rfl
    rw [hsettled]
    exact Serving.Meaning.Chain.performs (.one rfl hperf) _ hseen
  · rw [hqueue]
    exact List.perm_append_comm

/-! ## A request that misses -/

/-- A store conditional whose block is not in the cache fails. -/
theorem fails_advances (hs : s.cache.Tidy cfg s.reply) {pkt : Packet} (hcmd : pkt.cmd = .storeCondReq)
    (hordered : c.Ordered cfg) (hspare : c.Spare cfg)
    (hqueue : c.mshrQueue = s.cache.mshrQueue)
    (hbuffer : c.writeBuffer = s.cache.writeBuffer) (hpf : ∀ p ∈ c.prefetcher.pf, IsPrefetch p)
    (halike : Tags.Alike cfg.geom s.cache.tags c.tags)
    (hresponses : c.responses.Perm (s.cache.responses ++ [(pkt.setExtraData 0).makeTimingResponse])) :
    s.Advances cfg [pkt] { s with cache := c } := by
  have hperf : pkt.Performs cfg.geom ((s.view cfg).seen (cfg.geom.block pkt.addr))
      (pkt.setExtraData 0).makeTimingResponse ((s.view cfg).seen (cfg.geom.block pkt.addr)) := by
    refine ⟨⟨rfl, rfl, rfl⟩, ?_⟩
    rw [hcmd]
    exact .inr ⟨rfl, rfl⟩
  refine ⟨?_, [(pkt, (pkt.setExtraData 0).makeTimingResponse)], [], ?_, by simp, ?_, ?_,
    answers_perm hresponses⟩
  · exact hs.retag hordered hspare hqueue hbuffer hpf (halike.housed hs.housed) halike.find (halike.fits hs.fits)
  · exact System.moves_view (.refl _) halike.line (congrArg (MshrQueue.writes cfg.geom) hbuffer) rfl
      (by rw [hqueue]; rfl)
  · have hchain : (cpuMeaning cfg.geom).Chain (cfg.geom.block pkt.addr) _ _ _ := .one rfl hperf
    have := hchain.performs (s.view cfg).seen rfl
    rw [Function.update_eq_self] at this
    exact this
  · rw [hqueue]
    exact List.perm_append_comm

/-- A request joins the miss to its block. -/
theorem join_advances (hs : s.cache.Tidy cfg s.reply) {pkt : Packet} (hpkt : pkt.FromCpu cfg.geom) {i : Nat}
    (hmatch : s.cache.mshrQueue.findMatch (cfg.geom.blockAlign pkt.addr) = some i) {time : Tick}
    (hordered : c.Ordered cfg) (hspare : c.Spare cfg)
    (hqueue : c.mshrQueue = s.cache.mshrQueue.modify i fun _ =>
      (s.cache.mshrQueue.registers i).allocateTarget pkt time s.cache.order)
    (hbuffer : c.writeBuffer = s.cache.writeBuffer) (hpf : ∀ p ∈ c.prefetcher.pf, IsPrefetch p)
    (halike : Tags.Alike cfg.geom s.cache.tags c.tags)
    (hresponses : c.responses = s.cache.responses) :
    s.Advances cfg [pkt] { s with cache := c } := by
  obtain ⟨hi, haddr⟩ := hs.distinct.findMatch_eq_some.1 hmatch
  have hm := hs.misses i hi
  have hq := hs.misses_wellFormed
  generalize hr : (s.cache.mshrQueue.registers i).allocateTarget pkt time s.cache.order = r at hqueue
  have hfields : r.addr = (s.cache.mshrQueue.registers i).addr ∧ r.order = (s.cache.mshrQueue.registers i).order ∧
      r.inService = (s.cache.mshrQueue.registers i).inService := by
    rw [← hr]
    unfold Mshr.allocateTarget
    split <;> exact ⟨rfl, rfl, rfl⟩
  have hawaits : r.Awaits cfg.geom (s.cache.tags.findBlock cfg.geom r.addr).isSome (s.reply i) := by
    rw [hfields.1, ← hr]
    exact hm.target hpkt haddr.symm time s.cache.order
  obtain ⟨htidy, hfetch⟩ := hs.rewrite s.reply hi hfields.1 hfields.2.1 hordered hspare
    halike hpf hbuffer (by rw [hqueue]; rfl) (by rw [hqueue]; exact fun _ hk => hk) (by rw [hqueue]; rfl)
    (fun _ _ => rfl) hawaits
  have hsame : c.mshrQueue.fetch s.reply = s.cache.mshrQueue.fetch s.reply := by
    rw [hfetch, hfields.2.2, ← hs.distinct.fetch_self s.reply hi, Function.update_eq_self]
  refine .quiet htidy (System.moves_view (.refl _) halike.line (congrArg (MshrQueue.writes cfg.geom) hbuffer) rfl
    (by rw [hsame]; rfl)) ?_ ?_
  · obtain ⟨rest, hbefore, hafter, -⟩ := hq.requests_split hi
    have hjoined : c.mshrQueue.requests.Perm (r.requests ++ rest) := by
      have hself : c.mshrQueue.registers i = r := by
        rw [hqueue]
        exact Function.update_self ..
      rw [← hself]
      refine hafter _ (by rw [hqueue]; rfl) ?_
      intro k hk
      rw [hqueue]
      exact Function.update_of_ne hk ..
    have htarget : r.requests.Perm ((s.cache.mshrQueue.registers i).requests ++ [pkt]) := by
      rw [← hr]
      exact Mshr.requests_allocateTarget ..
    calc s.cache.mshrQueue.requests ++ [pkt]
      _ |>.Perm (((s.cache.mshrQueue.registers i).requests ++ rest) ++ [pkt]) := hbefore.append_right _
      _ |>.Perm (((s.cache.mshrQueue.registers i).requests ++ [pkt]) ++ rest) := by
        rw [List.append_assoc, List.append_assoc]
        exact List.perm_append_comm.append_left _
      _ |>.Perm (r.requests ++ rest) := htarget.symm.append_right _
      _ |>.Perm c.mshrQueue.requests := hjoined.symm
  · exact List.Perm.of_eq (answers_eq hresponses)

/-- A packet becomes a miss. -/
theorem enter_advances {pkt : Packet} {time : Tick} (hs : s.cache.Tidy cfg s.reply)
    (hnone : s.cache.mshrQueue.findMatch (cfg.geom.blockAlign pkt.addr) = none)
    (htidy : c.Tidy cfg s.reply)
    (hqueue : c.mshrQueue = (s.cache.mshrQueue.allocate (cfg.geom.blockAlign pkt.addr) cfg.geom.blkSize pkt
      time s.cache.order).1)
    (hbuffer : c.writeBuffer = s.cache.writeBuffer)
    (hline : c.tags.line cfg.geom = s.cache.tags.line cfg.geom)
    (hresponses : c.responses = s.cache.responses) :
    s.Advances cfg (if pkt.cmd = .hardPFReq then [] else [pkt]) { s with cache := c } := by
  have hq := hs.misses_wellFormed
  have hfetch : c.mshrQueue.fetch s.reply =
      Function.update (s.cache.mshrQueue.fetch s.reply) (cfg.geom.block pkt.addr).1 .waiting := by
    rw [hqueue]
    exact hq.fetch_allocate hs.distinct hnone hs.spare.free _ pkt time s.cache.order s.reply
  refine .quiet htidy (System.moves_view (.refl _) hline (congrArg (MshrQueue.writes cfg.geom) hbuffer) rfl ?_) ?_ ?_
  · dsimp only
    rw [System.sent_update hfetch]
    refine Function.update_eq_self_iff.2 ?_
    show Layers.Fetch.idle = (s.cache.mshrQueue.fetch s.reply (cfg.geom.blockAlign pkt.addr)).sent
    rw [MshrQueue.fetch_eq_idle hnone]
    rfl
  · rw [hqueue, hq.requests_allocate hs.spare.free]
  · exact List.Perm.of_eq (answers_eq hresponses)

/-- The block of a request that misses, with no miss outstanding for it, is hidden. -/
theorem hideBlock_tags {c : Cache σ} {t : Tags} {reply : Nat → Option Packet} (hs : c.Tidy cfg reply)
    (halike : Tags.Alike cfg.geom c.tags t) {pkt : Packet}
    (hnone : c.mshrQueue.findMatch (cfg.geom.blockAlign pkt.addr) = none)
    (refused : ∀ ptr, c.tags.findBlock cfg.geom pkt.addr = some ptr → permits pkt (c.tags.blks ptr) = false) :
    let t' := (({ c with tags := t } : Cache σ).hideBlock (c.tags.findBlock cfg.geom pkt.addr)).tags
    (∀ a, t'.findBlock cfg.geom a = c.tags.findBlock cfg.geom a) ∧ t'.Housed cfg.geom ∧
      t'.line cfg.geom = c.tags.line cfg.geom ∧
      t'.Fits cfg.geom fun b => b.1 ≠ cfg.geom.blockAlign pkt.addr ∧ c.mshrQueue.findMatch b.1 = none := by
  intro t'
  let b := cfg.geom.block pkt.addr
  have hidle : ∀ b' : cfg.geom.Block, b' ≠ b →
      ((b'.1 ≠ cfg.geom.blockAlign pkt.addr ∧ c.mshrQueue.findMatch b'.1 = none) ↔
        c.mshrQueue.findMatch b'.1 = none) := by
    intro b' hb'
    exact ⟨fun h => h.2, fun h => ⟨fun e => hb' (Subtype.ext e), h⟩⟩
  have hfits := halike.fits hs.fits
  cases hfound : c.tags.findBlock cfg.geom pkt.addr with
  | none =>
    have ht' : t' = t := by
      simp only [t', hfound]
      rfl
    rw [ht']
    refine ⟨halike.find, halike.housed hs.housed, halike.line, hfits.update b ?_ ?_ hidle⟩
    · intro p hp
      rw [halike.find, Tags.findBlock_block, hfound] at hp
      cases hp
    · exact fun b' _ p hp => ⟨hp, rfl⟩
  | some ptr =>
    have hvalid : (t.blks ptr).isValid = true := Tags.findBlock_valid ((halike.find pkt.addr).trans hfound)
    have ht' : t' = t.modify ptr fun b => { b with status := { b.status with readable := false } } := by
      simp only [t', hfound, Cache.hideBlock, hvalid, if_true]
    have hinert := inert_status (fun st => { st with readable := false }) (fun _ => rfl) t ptr
    have hb : t.findBlock cfg.geom b.1 = some ptr := by
      rw [halike.find, Tags.findBlock_block]
      exact hfound
    have hold := hfits b ptr hb
    -- the block can be read, so it is the right to write that is missing
    have hreadable : (t.blks ptr).status.readable = true := hold.readable.2 hnone
    have hwritable : (t.blks ptr).status.writable = false := by
      have hp := refused ptr hfound
      have hv : (c.tags.blks ptr).status.valid = true := Tags.findBlock_valid hfound
      rw [halike.readable] at hreadable
      rw [halike.writable]
      unfold permits at hp
      split at hp
      · simpa [CacheBlk.isWritable, hv] using hp
      · simp [CacheBlk.isReadable, hv, hreadable] at hp
    rw [ht']
    refine ⟨?_, (halike.housed hs.housed).modify hinert, ?_, ?_⟩
    · intro a
      rw [Tags.findBlock_modify hinert, halike.find]
    · rw [Tags.line_modify_same hinert (fun _ => ⟨rfl, rfl⟩), halike.line]
    · refine hfits.modify hinert b hb ⟨hold.dirty, ?_, ?_⟩ hidle
      · exact iff_of_false (by simp) (fun h => h.1 rfl)
      · intro hw
        rw [show (t.blks ptr).status.writable = true from hw] at hwritable
        cases hwritable

/-! ## Requests -/

theorem request_advances (hs : s.cache.Tidy cfg s.reply)
    (hsizes : (s.view cfg).All fun v => v.length = cfg.geom.blkSize) {pkt : Packet} (hpkt : pkt.FromCpu cfg.geom)
    (hopen : s.cache.cpuSidePort.blocked = false) : s.Advances cfg [pkt] (s.step cfg P (.request pkt)) := by
  obtain ⟨hreq, hnotresp, hresp, -, hpf, hwb, -⟩ := MemCmd.ofCpu_attributes hpkt.cmd
  have henabled : s.cache.Enabled cfg (.cpuPacket pkt) := ⟨hpf, .inl hreq⟩
  have hordered : (s.cache.step cfg P (.cpuPacket pkt)).Ordered cfg :=
    Cache.step_ordered hs.ordered (fun _ _ h => by cases h) henabled
  have hspare : (s.cache.step cfg P (.cpuPacket pkt)).Spare cfg := Cache.step_spare hs.spare henabled
  obtain ⟨hwbs, haccess⟩ := access_request s.cache.tags s.cache.mshrQueue s.cache.curTick hpkt
  obtain ⟨hcmd, -, -⟩ := access_pkt cfg.geom s.cache.tags s.cache.mshrQueue s.cache.curTick pkt
  have hstep : s.cache.step cfg P (.cpuPacket pkt) =
      let r := access cfg.geom s.cache.tags s.cache.mshrQueue s.cache.curTick pkt
      let c : Cache σ := { s.cache with tags := r.tags }
      let time := s.cache.curTick + cfg.geom.hitLatency
      if r.satisfied then c.hitPath cfg P r time else c.missPath cfg P r time := by
    simp only [Cache.step, Cache.cpuRecvTiming, hopen, Bool.and_false, Bool.false_eq_true, if_false,
      Cache.timingAccess, hnotresp, hpkt.inhibit, hpkt.cacheable, hwbs]
    rfl
  show s.Advances cfg [pkt] { s with cache := s.cache.step cfg P (.cpuPacket pkt) }
  generalize hcache : s.cache.step cfg P (.cpuPacket pkt) = c' at hstep hordered hspare
  generalize access cfg.geom s.cache.tags s.cache.mshrQueue s.cache.curTick pkt = r at haccess hcmd hstep
  dsimp only at hstep
  have hwf := hs.ordered.sound.tags
  cases haccess with
  | hit t₁ ptr quiet found permitted satisfied blk tags packet =>
    rw [satisfied, if_pos rfl] at hstep
    obtain ⟨hq, hw, halike, hqueued, hresponses⟩ := Cache.hitPath_answers cfg P
      (s := { s.cache with tags := r.tags }) (r := r) (by rw [hcmd]; exact hresp)
      (s.cache.curTick + cfg.geom.hitLatency) hs.queued
    rw [← hstep] at hq hw halike hqueued hresponses
    rw [packet] at hresponses
    exact hit_advances hs hsizes hpkt quiet found permitted hordered hspare hq hw hqueued
      (tags ▸ halike) hresponses
  | fails absent hsc satisfied blk tags packet =>
    rw [satisfied, if_pos rfl] at hstep
    obtain ⟨hq, hw, halike, hqueued, hresponses⟩ := Cache.hitPath_answers cfg P
      (s := { s.cache with tags := r.tags }) (r := r) (by rw [hcmd]; exact hresp)
      (s.cache.curTick + cfg.geom.hitLatency) hs.queued
    rw [← hstep] at hq hw halike hqueued hresponses
    rw [packet] at hresponses
    exact fails_advances hs hsc hordered hspare hq hw hqueued (tags ▸ halike) hresponses
  | miss satisfied quiet blk packet refused =>
    rw [satisfied, if_neg Bool.false_ne_true] at hstep
    have halike := quiet.alike hwf
    unfold Cache.missPath at hstep
    rw [packet] at hstep
    cases hmatch : s.cache.mshrQueue.findMatch (cfg.geom.blockAlign pkt.addr) with
    | some i =>
      simp only [hmatch] at hstep
      obtain ⟨hq, hw, htags, hpref, hresponses⟩ := Cache.addTarget_joins cfg i pkt
        (s.cache.curTick + cfg.geom.hitLatency) { s.cache with tags := r.tags }
      rw [← hstep] at hq hw htags hpref hresponses
      exact join_advances hs hpkt hmatch hordered hspare hq hw (hpref ▸ hs.queued) (htags ▸ halike) hresponses
    | none =>
      simp only [hmatch, if_neg hwb] at hstep
      obtain ⟨hq, hw, htags, hqueued, hresponses⟩ := Cache.newMiss cfg P r.blk pkt
        (s.cache.curTick + cfg.geom.hitLatency) { s.cache with tags := r.tags }
      rw [← hstep] at hq hw htags hqueued hresponses
      obtain ⟨hfind, hhoused, hline, hfits⟩ := hideBlock_tags hs halike hmatch refused
      rw [blk] at htags
      rw [← htags] at hfind hhoused hline hfits
      have htidy : c'.Tidy cfg s.reply := hs.enter (.inl hpkt) hmatch hordered hspare hq hw (hqueued hs.queued)
        hhoused hfind hfits
      have := enter_advances hs hmatch htidy hq hw hline hresponses
      rwa [if_neg hpf] at this

end Node

end PrefetchSim
