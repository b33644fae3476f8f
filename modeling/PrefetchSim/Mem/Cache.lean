import PrefetchSim.Lib.Runs
import PrefetchSim.Mem.Access
import PrefetchSim.Mem.Prefetch

/- One cache in timing mode, with its prefetcher (`m5/src/mem/cache/base.{hh,cc}`,
   `cache_impl.hh`): its state and what a request from the CPU side does to it.

   Correspondence (C++ ↔ Lean):
     `BaseCache`, `Cache`                     ↔ `Config`, `Cache`
     `setBlocked`, `clearBlocked`             ↔ `Cache.setBlocked`, `Cache.clearBlocked`
     `allocateBufferInternal` and its callers ↔ `Cache.allocateBuffer`, `.allocateMissBuffer`, ...
     `markInService`                          ↔ `Cache.markInService`
     `timingAccess`                           ↔ `Cache.timingAccess` (`.hitPath`, `.missPath`)
     `CpuSidePort::recvTiming`                ↔ `Cache.cpuRecvTiming`

   When an event fires is left to the environment, so requesting the bus has
   no effect here. The snoop that `timingAccess` sends down for a request
   another cache answers changes nothing in this one. -/
namespace PrefetchSim

/-! ## State -/

structure Config where
  geom : Geometry
  mshrs : Nat
  writeBuffers : Nat
  numTarget : Nat
  forwardSnoops : Bool
  prefetchOnAccess : Bool
  pf : PfConfig

/-- `MSHRQueueIndex`: which of the two queues. -/
inductive QueueIdx where
  | mshrs | writeBuffer
  deriving DecidableEq, Repr

/-- An `MSHR*`. -/
abbrev MshrRef := QueueIdx × Nat

inductive BlockedCause where
  | noMSHRs | noWBBuffers | noTargets
  deriving DecidableEq, Repr

def BlockedCause.flag : BlockedCause → BitVec 8
  | .noMSHRs => 1
  | .noWBBuffers => 2
  | .noTargets => 4

/-- `(BlockedCause)mq->index`. -/
def QueueIdx.cause : QueueIdx → BlockedCause
  | .mshrs => .noMSHRs
  | .writeBuffer => .noWBBuffers

structure CachePort where
  blocked : Bool := false
  mustSendRetry : Bool := false
  waitingOnRetry : Bool := false
  transmitList : List (Tick × Packet) := []

/-- `respond`, that is `schedSendTiming`: in order of time, and of arrival
where the times are equal. -/
def CachePort.respond (p : CachePort) (pkt : Packet) (time : Tick) : CachePort :=
  { p with transmitList :=
      if p.transmitList.head?.all fun d => time < d.1 then (time, pkt) :: p.transmitList
      else if p.transmitList.getLast?.all fun d => d.1 ≤ time then p.transmitList ++ [(time, pkt)]
      else p.transmitList.orderedInsert (fun a b => a.1 < b.1) (time, pkt) }

def CachePort.deferredPacketReady (p : CachePort) (now : Tick) : Bool :=
  p.transmitList.head?.any fun d => d.1 ≤ now

structure Cache (σ : Type) where
  tags : Tags
  mshrQueue : MshrQueue
  writeBuffer : MshrQueue
  prefetcher : Prefetcher σ
  blocked : BitVec 8 := 0
  cpuSidePort : CachePort := {}
  memSidePort : CachePort := {}
  order : Nat := 0
  noTargetMSHR : Option MshrRef := none
  curTick : Tick := 0

/-- What the caches above say to a snoop that is forwarded to them. -/
structure SnoopAnswer where
  memInhibit : Bool := false
  shared : Bool := false

namespace Cache

variable {σ : Type}

/-- The cache as it is built, with its policy in state `policy`. -/
def initial (cfg : Config) (policy : σ) : Cache σ where
  tags := Tags.initial cfg.geom
  mshrQueue := MshrQueue.create cfg.mshrs 4
  writeBuffer := MshrQueue.create cfg.writeBuffers (cfg.mshrs + 1000)
  prefetcher := { policy }

def queue (s : Cache σ) : QueueIdx → MshrQueue
  | .mshrs => s.mshrQueue
  | .writeBuffer => s.writeBuffer

def setQueue (s : Cache σ) (idx : QueueIdx) (q : MshrQueue) : Cache σ :=
  match idx with
  | .mshrs => { s with mshrQueue := q }
  | .writeBuffer => { s with writeBuffer := q }

def register (s : Cache σ) (m : MshrRef) : Mshr := (s.queue m.1).registers m.2

/-- A write through an `MSHR*`. -/
def setRegister (s : Cache σ) (m : MshrRef) (r : Mshr) : Cache σ :=
  s.setQueue m.1 ((s.queue m.1).modify m.2 fun _ => r)

/-! ## Blocking -/

def setBlocked (s : Cache σ) (cause : BlockedCause) : Cache σ :=
  { s with
    cpuSidePort := if s.blocked = 0 then { s.cpuSidePort with blocked := true, mustSendRetry := false }
      else s.cpuSidePort
    blocked := s.blocked ||| cause.flag }

def clearBlocked (s : Cache σ) (cause : BlockedCause) : Cache σ :=
  let blocked := s.blocked &&& ~~~cause.flag
  { s with
    blocked
    cpuSidePort := if blocked = 0 then { s.cpuSidePort with blocked := false, mustSendRetry := false }
      else s.cpuSidePort }

/-! ## Buffers -/

/-- `allocateBufferInternal`. -/
def allocateBuffer (idx : QueueIdx) (addr : Addr) (size : Nat) (pkt : Packet) (time : Tick)
    (s : Cache σ) : Cache σ × Option Nat :=
  let r := (s.queue idx).allocate addr size pkt time s.order
  let s := { s.setQueue idx r.1 with order := s.order + 1 }
  (if r.1.isFull then s.setBlocked idx.cause else s, r.2)

def allocateMissBuffer (cfg : Config) (pkt : Packet) (time : Tick) (s : Cache σ) :
    Cache σ × Option Nat :=
  s.allocateBuffer .mshrs (cfg.geom.blockAlign pkt.addr) cfg.geom.blkSize pkt time

def allocateWriteBuffer (pkt : Packet) (time : Tick) (s : Cache σ) : Cache σ :=
  (s.allocateBuffer .writeBuffer pkt.addr pkt.size pkt time).1

def allocateUncachedReadBuffer (pkt : Packet) (time : Tick) (s : Cache σ) : Cache σ :=
  (s.allocateBuffer .mshrs pkt.addr pkt.size pkt time).1

/-- The writebacks of an access or a fill go to the write buffer. -/
def copyWritebacks (wbs : List Packet) (time : Tick) (s : Cache σ) : Cache σ :=
  wbs.foldl (fun s pkt => s.allocateWriteBuffer pkt time) s

/-- The end of every path that frees an entry and looks after the blocking:
`q` is the queue as it is now. -/
def freed (s : Cache σ) (idx : QueueIdx) (q : MshrQueue) : Cache σ :=
  if (s.queue idx).isFull && !q.isFull then (s.setQueue idx q).clearBlocked idx.cause
  else s.setQueue idx q

/-- `markInServiceInternal`. -/
def markInService (s : Cache σ) (m : MshrRef) : Cache σ :=
  s.freed m.1 ((s.queue m.1).markInService m.2)

/-! ## Requests from the CPU side -/

/-- `prefetcher->notify`, with the cache's answers to what the policy asks. -/
def notify (cfg : Config) (P : Policy σ) (pkt : Packet) (time : Tick) (s : Cache σ) : Cache σ :=
  { s with prefetcher := (s.prefetcher.notify P cfg.geom cfg.pf
      (fun a => (s.tags.findBlock cfg.geom a).isSome) (fun a => (s.mshrQueue.findMatch a).isSome)
      s.curTick pkt time).1 }

/-- The block an access found was prefetched and not used since. -/
def prefetchHit (s : Cache σ) (blk : Option BlkPtr) : Bool :=
  blk.any fun ptr => (s.tags.blks ptr).wasPrefetched

/-- `timingAccess` after `access` has satisfied the request. -/
def hitPath (cfg : Config) (P : Policy σ) (r : AccessResult) (time : Tick) (s : Cache σ) : Cache σ :=
  let s :=
    if cfg.prefetchOnAccess || s.prefetchHit r.blk then
      let s := s.notify cfg P r.pkt time
      match r.blk with
      | some ptr => { s with tags := s.tags.modify ptr fun b =>
          { b with status := { b.status with hwPrefetched := false } } }
      | none => s
    else s
  if r.pkt.cmd.needsResponse then
    { s with cpuSidePort := s.cpuSidePort.respond r.pkt.makeTimingResponse (s.curTick + r.lat) }
  else s

/-- An outstanding miss takes the next order number. -/
def ordered (s : Cache σ) (i : Nat) (r : Mshr) : Cache σ :=
  { s.setRegister (.mshrs, i) r with order := s.order + 1 }

/-- The request becomes a target of an outstanding miss. -/
def addTarget (cfg : Config) (i : Nat) (pkt : Packet) (time : Tick) (s : Cache σ) : Cache σ :=
  let r := (s.mshrQueue.registers i).allocateTarget pkt time s.order
  let s := s.ordered i r
  if r.getNumTargets = cfg.numTarget then
    { s with noTargetMSHR := some (.mshrs, i) }.setBlocked .noTargets
  else s

/-- A write miss on a valid block makes the block unreadable. -/
def hideBlock (blk : Option BlkPtr) (s : Cache σ) : Cache σ :=
  match blk with
  | some ptr =>
    if (s.tags.blks ptr).isValid then
      { s with tags := s.tags.modify ptr fun b =>
          { b with status := { b.status with readable := false } } }
    else s
  | none => s

/-- `timingAccess` after `access` could not satisfy the request. -/
def missPath (cfg : Config) (P : Policy σ) (r : AccessResult) (time : Tick) (s : Cache σ) : Cache σ :=
  match s.mshrQueue.findMatch (cfg.geom.blockAlign r.pkt.addr) with
  | some i => s.addTarget cfg i r.pkt time
  | none =>
    let s :=
      if r.pkt.cmd = .writeback then s.allocateWriteBuffer r.pkt time
      else ((s.hideBlock r.blk).allocateMissBuffer cfg r.pkt time).1
    s.notify cfg P r.pkt time

def timingAccess (cfg : Config) (P : Policy σ) (pkt : Packet) (s : Cache σ) : Cache σ :=
  let time := s.curTick + cfg.geom.hitLatency
  if pkt.cmd.isResponse then { s with memSidePort := s.memSidePort.respond pkt time }
  else if pkt.memInhibit then s
  else if pkt.req.uncacheable then
    if pkt.cmd.isWrite && !pkt.cmd.isRead then s.allocateWriteBuffer pkt time
    else s.allocateUncachedReadBuffer pkt time
  else
    let r := access cfg.geom s.tags s.mshrQueue s.curTick pkt
    let s := { s with tags := r.tags }
    let s := if r.satisfied then s.hitPath cfg P r time else s.missPath cfg P r time
    s.copyWritebacks r.writebacks time

/-- `CpuSidePort::recvTiming`: requests are refused while the port is blocked. -/
def cpuRecvTiming (cfg : Config) (P : Policy σ) (pkt : Packet) (s : Cache σ) : Cache σ :=
  if pkt.cmd.isRequest && !pkt.memInhibit && s.cpuSidePort.blocked then
    { s with cpuSidePort := { s.cpuSidePort with mustSendRetry := true } }
  else s.timingAccess cfg P pkt

/-! ## What the parts leave alone -/

@[simp] theorem setBlocked_prefetcher (s : Cache σ) (c : BlockedCause) :
    (s.setBlocked c).prefetcher = s.prefetcher := rfl

@[simp] theorem setQueue_prefetcher (s : Cache σ) (idx : QueueIdx) (q : MshrQueue) :
    (s.setQueue idx q).prefetcher = s.prefetcher := by
  cases idx <;> rfl

@[simp] theorem setQueue_tags (s : Cache σ) (idx : QueueIdx) (q : MshrQueue) :
    (s.setQueue idx q).tags = s.tags := by
  cases idx <;> rfl

@[simp] theorem allocateBuffer_prefetcher (idx : QueueIdx) (addr : Addr) (size : Nat) (pkt : Packet)
    (time : Tick) (s : Cache σ) :
    (s.allocateBuffer idx addr size pkt time).1.prefetcher = s.prefetcher := by
  unfold allocateBuffer
  dsimp only
  split <;> simp

@[simp] theorem allocateBuffer_tags (idx : QueueIdx) (addr : Addr) (size : Nat) (pkt : Packet)
    (time : Tick) (s : Cache σ) : (s.allocateBuffer idx addr size pkt time).1.tags = s.tags := by
  unfold allocateBuffer
  dsimp only
  split <;> simp [setBlocked]

@[simp] theorem setQueue_curTick (s : Cache σ) (idx : QueueIdx) (q : MshrQueue) :
    (s.setQueue idx q).curTick = s.curTick := by
  cases idx <;> rfl

@[simp] theorem allocateBuffer_curTick (idx : QueueIdx) (addr : Addr) (size : Nat) (pkt : Packet)
    (time : Tick) (s : Cache σ) : (s.allocateBuffer idx addr size pkt time).1.curTick = s.curTick := by
  unfold allocateBuffer
  dsimp only
  split <;> simp [setBlocked]

@[simp] theorem hitPath_curTick (cfg : Config) (P : Policy σ) (r : AccessResult) (time : Tick)
    (s : Cache σ) : (s.hitPath cfg P r time).curTick = s.curTick := by
  unfold hitPath
  cases r.blk <;> dsimp only <;> split <;> split <;> rfl

@[simp] theorem hideBlock_curTick (blk : Option BlkPtr) (s : Cache σ) :
    (s.hideBlock blk).curTick = s.curTick := by
  unfold hideBlock
  split
  · split <;> rfl
  · rfl

@[simp] theorem missPath_curTick (cfg : Config) (P : Policy σ) (r : AccessResult) (time : Tick)
    (s : Cache σ) : (s.missPath cfg P r time).curTick = s.curTick := by
  unfold missPath
  split
  · unfold addTarget
    dsimp only
    split <;> rfl
  · dsimp only [notify]
    split
    · exact allocateBuffer_curTick ..
    · exact (allocateBuffer_curTick ..).trans (hideBlock_curTick _ s)

/-- What the write buffer does not matter for is left by the writebacks. -/
theorem copyWritebacks_keeps {α : Type} (f : Cache σ → α)
    (hf : ∀ pkt time s, f (s.allocateWriteBuffer pkt time) = f s) (wbs : List Packet) (time : Tick) (s : Cache σ) :
    f (s.copyWritebacks wbs time) = f s := by
  induction wbs generalizing s with
  | nil => rfl
  | cons pkt wbs ih => exact (ih (s.allocateWriteBuffer pkt time)).trans (hf pkt time s)

@[simp] theorem copyWritebacks_curTick (wbs : List Packet) (time : Tick) (s : Cache σ) :
    (s.copyWritebacks wbs time).curTick = s.curTick :=
  copyWritebacks_keeps (·.curTick) (fun _ _ _ => allocateBuffer_curTick ..) wbs time s

@[simp] theorem copyWritebacks_prefetcher (wbs : List Packet) (time : Tick) (s : Cache σ) :
    (s.copyWritebacks wbs time).prefetcher = s.prefetcher :=
  copyWritebacks_keeps (·.prefetcher) (fun _ _ _ => allocateBuffer_prefetcher ..) wbs time s

@[simp] theorem hideBlock_prefetcher (blk : Option BlkPtr) (s : Cache σ) :
    (s.hideBlock blk).prefetcher = s.prefetcher := by
  unfold hideBlock
  split
  · split <;> rfl
  · rfl

end Cache
end PrefetchSim
