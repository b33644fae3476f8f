import PrefetchSim.Lib.Bytes
import PrefetchSim.Mem.Access

/- Caches on a bus in atomic mode (`cache_impl.hh`, `bus.cc`, `physical.{hh,cc}` of `m5/src/mem`).

   Correspondence (C++ ↔ Lean):
     `PhysicalMemory`, `doAtomicAccess`           ↔ `PhysicalMemory`, `PhysicalMemory.doAtomicAccess`
     `trackLoadLocked`, `writeOK`                 ↔ `PhysicalMemory.trackLoadLocked`, `.writeOK`
     `handleSnoop` (`is_timing` false)            ↔ `handleSnoopAtomic`
     `Cache::snoopAtomic`                         ↔ `snoopAtomic`
     `Bus::recvAtomic`                            ↔ `Bus.recvAtomic` (`Bus.snoop` is one round of its loop)
     `Cache::atomicAccess`                        ↔ `AtomicSystem.atomicAccess` (`.missAtomic`)

   A call that fails an assertion, or panics, has no result: these functions return `none` there.
   The memory owns all addresses, so it is the target of every packet and its start is 0. What
   a CPU answers to a snoop that is forwarded to it is nothing. In atomic mode no miss is
   outstanding. The current tick and the latency `calculateLatency` draws are parameters. -/
namespace PrefetchSim

def Packet.makeAtomicResponse (pkt : Packet) : Packet := pkt.makeTimingResponse

/-! ## Memory -/

structure LockedAddr where
  addr : Addr
  contextId : Option Nat
  deriving DecidableEq, Repr

/-- The granularity of a lock is 16 bytes. -/
def LockedAddr.mask (paddr : Addr) : Addr := paddr &&& ~~~0xf

def LockedAddr.ofRequest (req : Request) : LockedAddr := ⟨mask req.paddr, req.contextId⟩

def LockedAddr.matchesContext (l : LockedAddr) (req : Request) : Bool := l.contextId == req.contextId

structure PhysicalMemory where
  pmem : Addr → UInt8
  lockedAddrList : List LockedAddr := []

namespace PhysicalMemory

/-- A context has one lock: an older one is moved to the new address. -/
def trackLoadLocked (m : PhysicalMemory) (pkt : Packet) : PhysicalMemory :=
  match m.lockedAddrList.findIdx? (·.matchesContext pkt.req) with
  | some i => { m with lockedAddrList :=
      m.lockedAddrList.modify i fun l => { l with addr := LockedAddr.mask pkt.req.paddr } }
  | none => { m with lockedAddrList := .ofRequest pkt.req :: m.lockedAddrList }

def checkLockedAddrList (m : PhysicalMemory) (pkt : Packet) : PhysicalMemory × Packet × Bool :=
  let paddr := LockedAddr.mask pkt.req.paddr
  let success := !pkt.cmd.isLLSC ||
    m.lockedAddrList.any fun l => l.addr == paddr && l.matchesContext pkt.req
  ({ m with lockedAddrList := m.lockedAddrList.filter fun l => l.addr != paddr },
    if pkt.cmd.isLLSC then pkt.setExtraData (if success then 1 else 0) else pkt, success)

def writeOK (m : PhysicalMemory) (pkt : Packet) : PhysicalMemory × Packet × Bool :=
  if m.lockedAddrList.isEmpty then
    (m, if pkt.cmd.isLLSC then pkt.setExtraData 0 else pkt, !pkt.cmd.isLLSC)
  else m.checkLockedAddrList pkt

/-- The part of `doAtomicAccess` that depends on the command. -/
def serve (m : PhysicalMemory) (pkt : Packet) : Option (PhysicalMemory × Packet) :=
  if pkt.cmd = .swapReq then
    let old := Bytes.read m.pmem pkt.addr pkt.size
    let overwriteMem := !pkt.req.condSwap || decide (old = littleEndian pkt.size pkt.req.extraData)
    some (if overwriteMem then { m with pmem := Bytes.write m.pmem pkt.addr (pkt.data.take pkt.size) } else m,
      pkt.setData old)
  else if pkt.cmd.isRead then
    let m := if pkt.cmd.isLLSC then m.trackLoadLocked pkt else m
    some (m, pkt.setData (Bytes.read m.pmem pkt.addr pkt.size))
  else if pkt.cmd.isWrite then
    let r := m.writeOK pkt
    some (if r.2.2 then { r.1 with pmem := Bytes.write r.1.pmem pkt.addr (pkt.data.take pkt.size) } else r.1, r.2.1)
  else if pkt.cmd.isInvalidate then
    some (m, if pkt.cmd.needsResponse then pkt.makeAtomicResponse else pkt)
  else none

def doAtomicAccess (m : PhysicalMemory) (latency : Tick) (pkt : Packet) : Option (PhysicalMemory × Packet × Tick) :=
  if pkt.memInhibit then some (m, pkt, 0)
  else (m.serve pkt).map fun r =>
    (r.1, if r.2.cmd.needsResponse then r.2.makeAtomicResponse else r.2, latency)

end PhysicalMemory

/-! ## Snoops -/

/-- `handleSnoop` in atomic mode. -/
def handleSnoopAtomic (g : Geometry) (t : Tags) (pkt : Packet) (blk : Option BlkPtr) : Option (Tags × Packet) :=
  if !pkt.cmd.isRequest then none
  else
    match blk with
    | none => some (t, pkt)
    | some ptr =>
      let b := t.blks ptr
      if !b.isValid then some (t, pkt)
      else
        let respond := b.isDirty && pkt.cmd.needsResponse
        let share := pkt.cmd.isRead && !pkt.cmd.isInvalidate
        -- a shared copy cannot be asked for with exclusive rights, and there is one responder
        if (share && pkt.cmd.needsExclusive) || (respond && pkt.memInhibit) then none
        else
          let t := if share then
              t.modify ptr fun b => { b with status := { b.status with writable := false } }
            else t
          let answer := { pkt with shared := pkt.shared || share }
          let answer := if respond then
              ({ answer with
                memInhibit := true
                supplyExclusive := answer.supplyExclusive || b.isWritable }.makeAtomicResponse).setDataFromBlock
                  b.data g.blkSize
            else answer
          some (if pkt.cmd.isInvalidate then t.invalidateBlk g ptr else t, answer)

def snoopAtomic (g : Geometry) (t : Tags) (pkt : Packet) : Option (Tags × Packet × Tick) :=
  if pkt.req.uncacheable || pkt.cmd == .writeback then some (t, pkt, g.hitLatency)
  else (handleSnoopAtomic g t pkt (t.findBlock g pkt.addr)).map fun r => (r.1, r.2, g.hitLatency)

/-! ## The bus -/

/-- The caches on a bus. They may be built differently, but for one block size; the bus snoops
them in the order of `snoopPorts`. -/
structure Bus (ι : Type) where
  geom : ι → Geometry
  blkBits : Nat
  blkBits_eq : ∀ i, (geom i).blkBits = blkBits
  snoopPorts : List ι
  nodup : snoopPorts.Nodup
  all_snoop : ∀ i, i ∈ snoopPorts

structure AtomicSystem (ι : Type) where
  caches : ι → Tags
  memory : PhysicalMemory

/-- What the loop over the snoop ports works on. -/
structure Snoops (ι : Type) where
  caches : ι → Tags
  pkt : Packet
  /-- `snoop_response_cmd`, with `none` for `InvalidCmd` -/
  response : Option MemCmd := none
  latency : Tick := 0

variable {ι : Type} [DecidableEq ι]

namespace Bus

/-- One round of the loop over the snoop ports, for a packet of port `src`. -/
def snoop (B : Bus ι) (src : ι) (origCmd : MemCmd) (s : Snoops ι) (i : ι) : Option (Snoops ι) :=
  if i = src then some s
  else
    match snoopAtomic (B.geom i) (s.caches i) s.pkt with
    | none => none
    | some (t, pkt, latency) =>
      let caches := Function.update s.caches i t
      if pkt.cmd.isResponse then
        -- a response to this command, from an owner, and the first one
        if pkt.cmd ≠ origCmd ∧ pkt.memInhibit = true ∧ s.response = none then
          some { caches, pkt := { pkt with cmd := origCmd }, response := some pkt.cmd, latency }
        else none
      else some { s with caches, pkt }

/-- After the snoops the packet goes to memory, and the response of a snooper is restored. -/
def finish (now : Tick) (origCmd : MemCmd) (r : Snoops ι) (memory : PhysicalMemory) (pkt : Packet) (latency : Tick) :
    Option (AtomicSystem ι × Packet × Tick) :=
  match r.response with
  | none => some (⟨r.caches, memory⟩, { pkt with finishTime := now + latency }, latency)
  | some cmd =>
    if pkt.cmd.isResponse || pkt.cmd != origCmd then none
    else some (⟨r.caches, memory⟩, { pkt with cmd, finishTime := now + r.latency }, r.latency)

def recvAtomic (B : Bus ι) (s : AtomicSystem ι) (src : ι) (now memLatency : Tick) (pkt : Packet) :
    Option (AtomicSystem ι × Packet × Tick) :=
  if !pkt.cmd.isRequest then none
  else do
    let r ← B.snoopPorts.foldlM (B.snoop src pkt.cmd) { caches := s.caches, pkt }
    let (memory, answer, latency) ← s.memory.doAtomicAccess memLatency r.pkt
    finish now pkt.cmd r memory answer latency

end Bus

/-! ## Accesses -/

/-- The queue of a cache with no outstanding miss. -/
def noMisses : MshrQueue := .create 0 0

namespace AtomicSystem

def setTags (s : AtomicSystem ι) (i : ι) (t : Tags) : AtomicSystem ι :=
  { s with caches := Function.update s.caches i t }

/-- `atomicAccess` after `access` could not satisfy the request: also the writebacks so far. -/
def missAtomic (B : Bus ι) (s : AtomicSystem ι) (i : ι) (now memLatency : Tick) (r : AccessResult) :
    Option (AtomicSystem ι × Packet × Tick × List Packet) :=
  let g := B.geom i
  let pkt := r.pkt
  match getBusPacket g now pkt (r.blk.map (s.caches i).blks) pkt.cmd.needsExclusive with
  | none => do
    -- the request itself is forwarded, and comes back as the response
    let (s, pkt, latency) ← B.recvAtomic s i now memLatency pkt
    some (s, pkt, r.lat + latency, r.writebacks)
  | some busPkt => do
    let (s, busPkt, latency) ← B.recvAtomic s i now memLatency busPkt
    let lat := r.lat + latency
    if busPkt.cmd = .networkNackError then none
    else if !pkt.cmd.needsResponse then some (s, pkt, lat, r.writebacks)
    else if !busPkt.cmd.isResponse then none
    else if busPkt.cmd.isError then some (s, pkt.makeAtomicResponse.copyError busPkt, lat, r.writebacks)
    else if busPkt.cmd.isRead || busPkt.cmd == .upgradeResp then
      let f := handleFill g (s.caches i) noMisses now busPkt r.blk
      let q := satisfyCpuSideRequest g f.1 f.2.1 pkt
      some (s.setTags i q.1, q.2, lat, r.writebacks ++ f.2.2)
    else some (s, pkt.makeAtomicResponse, lat, r.writebacks)

/-- The writebacks are performed once the request is complete. -/
def sendWritebacks (B : Bus ι) (s : AtomicSystem ι) (i : ι) (now memLatency : Tick) (wbs : List Packet) :
    Option (AtomicSystem ι) :=
  wbs.foldlM (fun s wb => (B.recvAtomic s i now memLatency wb).map (·.1)) s

/-- `access`; an uncacheable request is not looked up. -/
def accessAtomic (g : Geometry) (t : Tags) (now : Tick) (pkt : Packet) : AccessResult :=
  if pkt.req.uncacheable then { tags := t, pkt, blk := none, lat := g.hitLatency, satisfied := false }
  else access g t noMisses now pkt

/-- `atomicAccess` of cache `i`: the response in place of the request, and the latency. -/
def atomicAccess (B : Bus ι) (s : AtomicSystem ι) (i : ι) (now memLatency : Tick) (pkt : Packet) :
    Option (AtomicSystem ι × Packet × Tick) :=
  let g := B.geom i
  if pkt.memInhibit then
    if pkt.req.uncacheable then none
    else if pkt.cmd.isInvalidate then do
      let t := match (s.caches i).findBlock g pkt.addr with
        | some ptr => (s.caches i).invalidateBlk g ptr
        | none => s.caches i
      let (s, pkt, latency) ← B.recvAtomic (s.setTags i t) i now memLatency pkt
      some (s, pkt, g.hitLatency + latency)
    else some (s, pkt, g.hitLatency)
  else do
    let r := accessAtomic g (s.caches i) now pkt
    let s := s.setTags i r.tags
    let (s, pkt, lat, wbs) ←
      if r.satisfied then some (s, r.pkt, r.lat, r.writebacks) else s.missAtomic B i now memLatency r
    let s ← s.sendWritebacks B i now memLatency wbs
    some (s, if pkt.cmd.needsResponse then pkt.makeAtomicResponse else pkt, lat)

end AtomicSystem

/-! ## Requests of the CPUs -/

inductive CpuCmd where
  | load | loadLocked | store | storeCond | swap
  deriving DecidableEq, Repr

def CpuCmd.memCmd : CpuCmd → MemCmd
  | .load => .readReq
  | .loadLocked => .loadLockedReq
  | .store => .writeReq
  | .storeCond => .storeCondReq
  | .swap => .swapReq

namespace CpuCmd

/-- The request may write, and asks for exclusive rights. -/
def mayWrite : CpuCmd → Bool
  | .load | .loadLocked => false
  | .store | .storeCond | .swap => true

/-- The request returns what it finds. -/
def returnsData : CpuCmd → Bool
  | .load | .loadLocked | .swap => true
  | .store | .storeCond => false

@[simp] theorem memCmd_isWrite (c : CpuCmd) : c.memCmd.isWrite = c.mayWrite := by cases c <;> rfl
@[simp] theorem memCmd_needsExclusive (c : CpuCmd) : c.memCmd.needsExclusive = c.mayWrite := by cases c <;> rfl
@[simp] theorem memCmd_isRead (c : CpuCmd) : c.memCmd.isRead = c.returnsData := by cases c <;> rfl
@[simp] theorem memCmd_needsResponse (c : CpuCmd) : c.memCmd.needsResponse = true := by cases c <;> rfl

@[simp] theorem memCmd_isLLSC (c : CpuCmd) : c.memCmd.isLLSC = decide (c = .loadLocked ∨ c = .storeCond) := by
  cases c <;> rfl

@[simp] theorem memCmd_swap (c : CpuCmd) : c.memCmd = .swapReq ↔ c = .swap := by cases c <;> decide

theorem memCmd_ne_writeback (c : CpuCmd) : c.memCmd ≠ .writeback := by cases c <;> decide
theorem memCmd_not_upgrade (c : CpuCmd) : c.memCmd.isUpgrade = false := by cases c <;> rfl

end CpuCmd

/-- A cacheable request of a CPU, for fewer bytes than a block has and inside one. The packet
has a buffer of as many bytes. -/
structure CpuRequest (blkBits : Nat) where
  cmd : CpuCmd
  req : Request
  data : List UInt8
  cacheable : req.uncacheable = false
  smaller : req.size < 2 ^ blkBits
  inside : (req.paddr &&& (BitVec.ofNat 64 (2 ^ blkBits) - 1)).toNat + req.size ≤ 2 ^ blkBits
  filled : data.length = req.size

def CpuRequest.packet {blkBits : Nat} (r : CpuRequest blkBits) (now : Tick) : Packet :=
  { Packet.ofRequest r.req r.cmd.memCmd now with data := r.data }

end PrefetchSim
