import PrefetchSim.Lib.Runs
import PrefetchSim.Mem.Cache

/- The memory side of the cache in timing mode (`m5/src/mem/cache/cache_impl.hh`)
   and the cache as a state machine.

   Correspondence (C++ ↔ Lean):
     `handleSnoop`, `doTimingSupplyResponse` ↔ `handleSnoop`, `doTimingSupplyResponse`
     `handleResponse` (its target loop)      ↔ `Cache.handleResponse` (`.answerOf`, `.answer`, `serviceTarget`)
     `snoopTiming`                           ↔ `Cache.snoopTiming` (`.snoopMSHR`, `.snoopWriteback`)
     `getNextMSHR`                           ↔ `Cache.getNextMSHR` (`.pendingMSHR`, `.tryPrefetch`)
     `getTimingPacket`, `sendPacket`         ↔ `Cache.getTimingPacket`, `Cache.sendPacket`
     the calls the environment makes         ↔ `Action`, `Cache.step`

   The environment may call `sendPacket` at any time. Whether the bus takes the
   packet, and what the caches above answer to a forwarded snoop, are part of
   the action. -/
namespace PrefetchSim

/-! ## Snoops -/

/-- The response of a snooped cache, sent from a copy of the snooped packet
unless that is a copy already. -/
def doTimingSupplyResponse (g : Geometry) (now : Tick) (port : CachePort) (reqPkt : Packet)
    (blkData : List UInt8) (alreadyCopied pendingInval : Bool) : CachePort :=
  let pkt := (if alreadyCopied then reqPkt else reqPkt.copy now false).makeTimingResponse
  let pkt := if pkt.cmd.isRead then pkt.setDataFromBlock blkData g.blkSize else pkt
  let pkt := if pkt.cmd = .readResp ∧ pendingInval then { pkt with cmd := .readRespWithInvalidate }
    else pkt
  port.respond pkt (now + g.hitLatency)

/-- `handleSnoop` in timing mode: the tags, the memory-side port and the packet
as the snoop leaves them. -/
def handleSnoop (cfg : Config) (t : Tags) (port : CachePort) (now : Tick) (answer : SnoopAnswer)
    (pkt : Packet) (blk : Option BlkPtr) (isDeferred pendingInval : Bool) :
    Tags × CachePort × Packet :=
  let pkt :=
    if cfg.forwardSnoops then
      { pkt with memInhibit := pkt.memInhibit || answer.memInhibit
                 shared := pkt.shared || answer.shared }
    else pkt
  match blk with
  | none => (t, port, pkt)
  | some ptr =>
    let b := t.blks ptr
    if b.isValid then
      let respond := b.isDirty && pkt.cmd.needsResponse
      let share := pkt.cmd.isRead && !pkt.cmd.isInvalidate
      let pkt := { pkt with
        shared := pkt.shared || share
        memInhibit := pkt.memInhibit || respond
        supplyExclusive := pkt.supplyExclusive || (respond && b.isWritable) }
      let t := if share then
          t.modify ptr fun b => { b with status := { b.status with writable := false } }
        else t
      let port := if respond then
          doTimingSupplyResponse cfg.geom now port pkt b.data isDeferred pendingInval
        else port
      (if pkt.cmd.isInvalidate then t.invalidateBlk cfg.geom ptr else t, port, pkt)
    else (t, port, pkt)

/-! ## Responses -/

/-- What the loop over the targets of an answered entry works on. -/
structure Service (σ : Type) where
  tags : Tags
  prefetcher : Prefetcher σ
  cpuSidePort : CachePort
  memSidePort : CachePort
  /-- the number of snoops processed so far -/
  snoops : Nat := 0

/-- The response the loop works from. -/
structure Answer where
  pkt : Packet
  isFill : Bool
  blk : Option BlkPtr
  /-- the offset of the first target, for critical-word-first timing -/
  initialOffset : Nat
  pendingInvalidate : Bool
  now : Tick
  upward : Nat → SnoopAnswer

/-- A target of the CPU side: its packet and completion time, with the tags as
its request leaves them. -/
def serviceCpu (g : Geometry) (a : Answer) (t : Tags) (pkt : Packet) : Tags × Packet × Tick :=
  if a.isFill then
    let r := match a.blk with
      | some ptr => satisfyCpuSideRequest g t ptr pkt
      | none => (t, pkt)
    (r.1, r.2, g.hitLatency +
      (if pkt.getOffset g.blkSize = a.initialOffset then a.pkt.firstWordTime else a.pkt.finishTime))
  else if pkt.cmd = .storeCondReq ∧ a.pkt.cmd = .upgradeFailResp then
    (t, pkt.setExtraData 0, g.hitLatency + a.pkt.finishTime)
  else
    (t, if a.pkt.cmd.isRead && !a.pkt.cmd.isError then pkt.setData a.pkt.data else pkt,
      g.hitLatency + a.pkt.finishTime)

/-- The response made of a target's packet. -/
def cpuResponse (a : Answer) (pkt : Packet) : Packet :=
  let pkt := pkt.makeTimingResponse
  let pkt := if a.pkt.cmd.isError then pkt.copyError a.pkt else pkt
  if a.pkt.cmd.isInvalidate then { pkt with cmd := .readRespWithInvalidate } else pkt

/-- One round of the loop over the targets. -/
def serviceTarget {σ : Type} (cfg : Config) (P : Policy σ) (a : Answer) (s : Service σ)
    (target : Target) : Service σ :=
  match target.source with
  | .fromCPU =>
    let r := serviceCpu cfg.geom a s.tags target.pkt
    { s with tags := r.1, cpuSidePort := s.cpuSidePort.respond (cpuResponse a r.2.1) r.2.2 }
  | .fromPrefetcher =>
    match a.blk with
    | some ptr =>
      { s with
        tags := s.tags.modify ptr fun b => { b with status := { b.status with hwPrefetched := true } }
        prefetcher := s.prefetcher.complete P target.pkt }
    | none => { s with prefetcher := s.prefetcher.record [.dropped .noBlock target.pkt.addr] }
  | .fromSnoop =>
    let r := handleSnoop cfg s.tags s.memSidePort a.now (a.upward s.snoops) target.pkt a.blk true
      (a.pendingInvalidate || a.pkt.cmd.isInvalidate)
    { s with tags := r.1, memSidePort := r.2.1, snoops := s.snoops + 1 }

namespace Cache

variable {σ : Type}

/-- The first part of `handleResponse`: the fill, if the response is one. -/
def fill (cfg : Config) (m : MshrRef) (pkt : Packet) (isFill : Bool) (s : Cache σ) :
    Cache σ × Packet × Option BlkPtr × List Packet :=
  let blk := s.tags.findBlock cfg.geom pkt.addr
  if isFill && !pkt.cmd.isError then
    let r := (s.register m).handleFill pkt
    let f := PrefetchSim.handleFill cfg.geom s.tags s.mshrQueue s.curTick r.2 blk
    ({ s.setRegister m r.1 with tags := f.1 }, r.2, some f.2.1, f.2.2)
  else (s, pkt, blk, [])

/-- The target loop of `handleResponse`, after which the entry has no targets. -/
def serviceTargets (cfg : Config) (P : Policy σ) (m : MshrRef) (a : Answer) (s : Cache σ) : Cache σ :=
  let r := s.register m
  let service := r.targets.list.foldl (serviceTarget cfg P a)
    { tags := s.tags, prefetcher := s.prefetcher
      cpuSidePort := s.cpuSidePort, memSidePort := s.memSidePort }
  { s.setRegister m r.served with
    tags := service.tags
    prefetcher := service.prefetcher
    cpuSidePort := service.cpuSidePort
    memSidePort := service.memSidePort }

/-- The last part of `handleResponse`: deferred targets are requested again, or
the entry is freed. -/
def retire (m : MshrRef) (blk : Option BlkPtr) (s : Cache σ) : Cache σ :=
  let r := (s.register m).promoteDeferredTargets s.curTick
  if r.2 then
    let s := match blk with
      | some ptr => { s with tags := s.tags.modify ptr fun b =>
          { b with status := { b.status with readable := false } } }
      | none => s
    s.setQueue m.1 (((s.queue m.1).modify m.2 fun _ => r.1).markPending m.2)
  else s.freed m.1 ((s.queue m.1).deallocate m.2)

/-- The temporary block is written back, if dirty, and given up. -/
def clearTemp (cfg : Config) (blk : Option BlkPtr) (time : Tick) (s : Cache σ) : Cache σ :=
  if blk = some .temp then
    let s :=
      if (s.tags.blks .temp).isDirty then
        let w := writebackBlk cfg.geom s.tags s.curTick .temp
        { s with tags := w.1 }.allocateWriteBuffer w.2 time
      else s
    { s with tags := s.tags.invalidateBlk cfg.geom .temp }
  else s

/-- `if (mshr == noTargetMSHR)`: a response always clears a target. -/
def clearNoTarget (m : MshrRef) (s : Cache σ) : Cache σ :=
  if s.noTargetMSHR = some m then { s.clearBlocked .noTargets with noTargetMSHR := none } else s

/-- `tags->invalidateBlk(blk)` for an invalidating response. -/
def invalidateAfter (cfg : Config) (pkt : Packet) (blk : Option BlkPtr) (s : Cache σ) : Cache σ :=
  match blk with
  | some ptr =>
    if pkt.cmd.isInvalidate then { s with tags := s.tags.invalidateBlk cfg.geom ptr } else s
  | none => s

/-- `is_fill`: the response brings a block, or the permission to write it. -/
def isFill (s : Cache σ) (m : MshrRef) (pkt : Packet) : Bool :=
  !(s.register m).isForward && (pkt.cmd.isRead || pkt.cmd == .upgradeResp)

/-- The cache when the target loop of `handleResponse` begins, what the loop works from,
and the writebacks of the fill. -/
def answerOf (cfg : Config) (m : MshrRef) (pkt : Packet) (upward : Nat → SnoopAnswer) (s : Cache σ) :
    Cache σ × Answer × List Packet :=
  let isFill := s.isFill m pkt
  let (s, pkt, blk, writebacks) := s.fill cfg m pkt isFill
  (s, { pkt, isFill, blk, upward, now := s.curTick
        initialOffset := ((s.register m).getTarget.map (·.pkt.getOffset cfg.geom.blkSize)).getD 0
        pendingInvalidate := (s.register m).pendingInvalidate }, writebacks)

/-- What `handleResponse` does with the entry itself; also the block the
response went to and the writebacks it caused. -/
def answer (cfg : Config) (P : Policy σ) (m : MshrRef) (pkt : Packet) (upward : Nat → SnoopAnswer)
    (s : Cache σ) : Cache σ × Option BlkPtr × List Packet :=
  let (s, a, writebacks) := s.answerOf cfg m pkt upward
  (((s.serviceTargets cfg P m a).invalidateAfter cfg a.pkt a.blk).retire m a.blk, a.blk, writebacks)

def handleResponse (cfg : Config) (P : Policy σ) (m : MshrRef) (pkt : Packet)
    (upward : Nat → SnoopAnswer) (s : Cache σ) : Cache σ :=
  let time := s.curTick + cfg.geom.hitLatency
  if pkt.cmd = .networkNackError then s
  else
    let (s, blk, writebacks) := (s.clearNoTarget m).answer cfg P m pkt upward
    (s.copyWritebacks writebacks time).clearTemp cfg blk time

/-- The outstanding miss to the block, if there is one, tracks the snoop; the
last component says that it has dealt with it. -/
def snoopMSHR (blkAddr : Addr) (pkt : Packet) (s : Cache σ) : Cache σ × Packet × Bool :=
  match s.mshrQueue.findMatch blkAddr with
  | none => (s, pkt, false)
  | some i =>
    let r := (s.mshrQueue.registers i).handleSnoop s.curTick pkt s.order
    (s.ordered i r.1, r.2.1, r.2.2)

/-- A buffered writeback of the block supplies its data. -/
def snoopWriteback (cfg : Config) (blkAddr : Addr) (pkt : Packet) (s : Cache σ) : Cache σ × Packet :=
  match (s.writeBuffer.findMatches blkAddr).head? with
  | none => (s, pkt)
  | some i =>
    let data := ((s.writeBuffer.registers i).getTarget.map fun t : Target => t.pkt.data).getD []
    let pkt := { pkt with memInhibit := true, shared := pkt.shared || !pkt.cmd.needsExclusive }
    let port := doTimingSupplyResponse cfg.geom s.curTick s.memSidePort pkt data false false
    let s := { s with memSidePort := port }
    -- an invalidation trumps the writeback
    (if pkt.cmd.isInvalidate then s.markInService (.writeBuffer, i) else s, pkt)

def snoopTiming (cfg : Config) (pkt : Packet) (answer : SnoopAnswer) (s : Cache σ) : Cache σ :=
  if pkt.req.uncacheable || pkt.cmd == .writeback then s
  else
    let blk := s.tags.findBlock cfg.geom pkt.addr
    let blkAddr := cfg.geom.blockAlign pkt.addr
    let m := s.snoopMSHR blkAddr pkt
    if m.2.2 then m.1
    else
      let w := m.1.snoopWriteback cfg blkAddr m.2.1
      let r := PrefetchSim.handleSnoop cfg w.1.tags w.1.memSidePort w.1.curTick answer w.2 blk false false
      { w.1 with tags := r.1, memSidePort := r.2.1 }

/-! ## Sending -/

/-- The part of `getNextMSHR` that chooses among the entries there are. -/
def pendingMSHR (s : Cache σ) : Option MshrRef :=
  match s.mshrQueue.getNextMSHR s.curTick, s.writeBuffer.getNextMSHR s.curTick with
  | some miss, none => some (.mshrs, miss)
  | none, some write => some (.writeBuffer, write)
  | none, none => none
  | some miss, some write =>
    if s.writeBuffer.isFull && s.writeBuffer.inServiceEntries == 0 then
      let w := s.writeBuffer.registers write
      match s.mshrQueue.findPending w.addr w.size with
      | some conflict =>
        if (s.mshrQueue.registers conflict).order < w.order then some (.mshrs, conflict)
        else some (.writeBuffer, write)
      | none => some (.writeBuffer, write)
    else
      let m := s.mshrQueue.registers miss
      match s.writeBuffer.findPending m.addr m.size with
      | some conflict => some (.writeBuffer, conflict)
      | none => some (.mshrs, miss)

/-- Whether a prefetch taken off the queue becomes a miss: its block is neither
in the cache nor requested already. -/
def wanted (cfg : Config) (s : Cache σ) (p : Packet) : Bool :=
  let pfAddr := cfg.geom.blockAlign p.addr
  (s.tags.findBlock cfg.geom pfAddr).isNone && (s.mshrQueue.findMatch pfAddr).isNone

/-- The loop that takes packets off the prefetch queue until one is wanted. -/
def tryPrefetch (cfg : Config) : List Packet → Cache σ → Cache σ × Option MshrRef
  | [], s => (s, none)
  | p :: rest, s =>
    if p.time ≤ s.curTick then
      let s := { s with prefetcher := s.prefetcher.getPacket rest }
      if s.wanted cfg p then
        let r := s.allocateMissBuffer cfg p s.curTick
        (r.1, r.2.map (QueueIdx.mshrs, ·))
      else
        tryPrefetch cfg rest
          { s with prefetcher := s.prefetcher.record [.dropped .present p.addr] }
    else (s, none)

def getNextMSHR (cfg : Config) (s : Cache σ) : Cache σ × Option MshrRef :=
  match s.pendingMSHR with
  | some m => (s, some m)
  | none => if s.mshrQueue.isFull then (s, none) else s.tryPrefetch cfg s.prefetcher.pf

/-- The bail-out of `getTimingPacket`: the prefetch is dropped, and the entry
with it if nothing else waits for it. -/
def bailOut (m : MshrRef) (target : Target) (s : Cache σ) : Cache σ :=
  let s := s.setRegister m (s.register m).popTarget
  let s := { s with prefetcher := s.prefetcher.record [.dropped .bailOut target.pkt.addr] }
  if (s.register m).hasTargets then s else s.setQueue m.1 ((s.queue m.1).deallocate m.2)

/-- Whether the request is a prefetch for a block that is in the cache by now. -/
def needless (cfg : Config) (m : MshrRef) (target : Target) (s : Cache σ) : Bool :=
  (s.tags.findBlock cfg.geom (s.register m).addr).any (fun ptr => (s.tags.blks ptr).isValid) &&
    target.pkt.cmd == .hardPFReq

/-- The packet for entry `m`, if one is to be sent. -/
def timingPacketFor (cfg : Config) (P : Policy σ) (upward : Nat → SnoopAnswer) (m : MshrRef)
    (target : Target) (s : Cache σ) : Cache σ × Option Packet :=
  if target.pkt.cmd = .scUpgradeFailReq then
    let pkt := { target.pkt.copy s.curTick false with
      cmd := .upgradeFailResp, firstWordTime := s.curTick, finishTime := s.curTick }
    (s.handleResponse cfg P m pkt upward, none)
  else if (s.register m).isForwardNoResponse then (s, some target.pkt)
  else if s.needless cfg m target then (s.bailOut m target, none)
  else
    let blk := (s.tags.findBlock cfg.geom (s.register m).addr).map s.tags.blks
    let busPkt := getBusPacket cfg.geom s.curTick target.pkt blk (s.register m).needsExclusive
    let s := s.setRegister m { s.register m with isForward := busPkt.isNone }
    let forward := target.pkt.copy s.curTick false
    let forward := if forward.cmd.isWrite then forward.setData target.pkt.data else forward
    (s, some (busPkt.getD forward))

def getTimingPacket (cfg : Config) (P : Policy σ) (upward : Nat → SnoopAnswer) (s : Cache σ) :
    Cache σ × Option (Packet × MshrRef) :=
  match s.getNextMSHR cfg with
  | (s, none) => (s, none)
  | (s, some m) =>
    match (s.register m).getTarget with
    | none => (s, none)
    | some target =>
      let r := s.timingPacketFor cfg P upward m target
      (r.1, r.2.map (·, m))

/-- `MemSidePort::sendPacket`; `accept` says whether the bus takes the packet. -/
def sendPacket (cfg : Config) (P : Policy σ) (accept : Bool) (upward : Nat → SnoopAnswer)
    (s : Cache σ) : Cache σ :=
  if s.memSidePort.deferredPacketReady s.curTick then
    { s with memSidePort := { s.memSidePort with
      transmitList := if accept then s.memSidePort.transmitList.tail else s.memSidePort.transmitList
      waitingOnRetry := !accept } }
  else
    match s.getTimingPacket cfg P upward with
    | (s, none) => { s with memSidePort := { s.memSidePort with waitingOnRetry := false } }
    | (s, some (_, m)) =>
      let s := { s with memSidePort := { s.memSidePort with waitingOnRetry := !accept } }
      if accept then s.markInService m else s

end Cache

/-! ## The state machine -/

inductive Action where
  /-- time passes -/
  | tick (n : Nat)
  /-- a packet arrives at the CPU side -/
  | cpuPacket (pkt : Packet)
  /-- the response for an entry arrives from memory -/
  | response (m : MshrRef) (pkt : Packet) (upward : Nat → SnoopAnswer)
  /-- a request of another cache is snooped -/
  | snoop (pkt : Packet) (answer : SnoopAnswer)
  /-- the cache gets the bus, on an event or a retry -/
  | sendPacket (accept : Bool) (upward : Nat → SnoopAnswer)
  /-- a response leaves at the CPU side -/
  | cpuSend
  /-- a cache below buffers the request of an entry, or has sent it on -/
  | downstream (m : MshrRef) (pending : Bool)

namespace Cache

variable {σ : Type}

def step (cfg : Config) (P : Policy σ) (s : Cache σ) : Action → Cache σ
  | .tick n => { s with curTick := s.curTick + n }
  | .cpuPacket pkt => s.cpuRecvTiming cfg P pkt
  | .response m pkt upward => s.handleResponse cfg P m pkt upward
  | .snoop pkt answer => s.snoopTiming cfg pkt answer
  | .sendPacket accept upward => s.sendPacket cfg P accept upward
  | .cpuSend => { s with cpuSidePort := { s.cpuSidePort with
      transmitList := s.cpuSidePort.transmitList.tail } }
  | .downstream m pending => s.setRegister m { s.register m with downstreamPending := pending }

end Cache

/-! ## A small cache -/

/-- Two sets of two blocks of 64 bytes. -/
def smallGeometry : Geometry where
  blkBits := 6
  setBits := 1
  assoc := 2
  hitLatency := 1
  numCpus := 1
  two_le_blkBits := by decide
  fits := by decide
  assoc_pos := Nat.two_pos
  hitLatency_pos := Nat.one_pos

def smallConfig (mshrs : Nat) : Config where
  geom := smallGeometry
  mshrs
  writeBuffers := 2
  numTarget := 4
  forwardSnoops := true
  prefetchOnAccess := false
  pf := {}

/-- A load of eight bytes by the instruction at `pc`. -/
def load (pc addr : Addr) : Packet :=
  Packet.ofRequest { paddr := addr, size := 8, pc := some pc, contextId := some 0 } .readReq 0

/-- An upper level gives its block back. -/
def giveBack (addr : Addr) (byte : UInt8) : Packet :=
  { Packet.ofRequest { paddr := addr, size := 64 } .writeback 0 with data := List.replicate 64 byte }

def noSnoops (_ : Nat) : SnoopAnswer := {}

end PrefetchSim
