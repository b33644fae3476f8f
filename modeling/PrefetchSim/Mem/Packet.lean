import Mathlib.Data.List.Basic
import PrefetchSim.Lib.Words

/- Memory commands, requests and packets (`m5/src/mem/packet.hh`, `packet.cc`).

   Correspondence (C++ ↔ Lean):
     `MemCmd::Command`, `commandInfo`       ↔ `MemCmd`, `MemCmd.attributes`, `MemCmd.responseCommand`
     `Request`                              ↔ `Request` (the fields the cache and the prefetcher read)
     `Packet`                               ↔ `Packet`
     `makeTimingResponse`, `copyError`      ↔ `Packet.makeTimingResponse`, `Packet.copyError`
     `setDataFromBlock`, `writeDataToBlock` ↔ `Packet.setDataFromBlock`, `Packet.writeDataToBlock`

   A packet is a value here. The routing fields (`src`, `dest`, `senderState`)
   are left out: a response names the entry it answers, and that is where
   `senderState` leads. -/
namespace PrefetchSim

/-- `uint64_t`. -/
abbrev Addr := BitVec 64

/-- Simulated time (`int64_t`, never negative). -/
abbrev Tick := Nat

/-! ## Commands -/

/-- Command attributes (`MemCmd::Attribute`). -/
inductive Attribute where
  | isRead | isWrite | isUpgrade | isInvalidate | needsExclusive | isRequest | isResponse
  | needsResponse | isSWPrefetch | isHWPrefetch | isLlsc | hasData | isError | isPrint
  deriving DecidableEq, Repr

inductive MemCmd where
  | invalidCmd
  | readReq | readResp | readRespWithInvalidate
  | writeReq | writeResp | writeback
  | softPFReq | hardPFReq | softPFResp | hardPFResp
  | writeInvalidateReq | writeInvalidateResp
  | upgradeReq | scUpgradeReq | upgradeResp | scUpgradeFailReq | upgradeFailResp
  | readExReq | readExResp
  | loadLockedReq | storeCondReq | storeCondResp
  | swapReq | swapResp | messageReq | messageResp
  | networkNackError | invalidDestError | badAddressError
  | printReq
  deriving DecidableEq, Repr

namespace MemCmd

/-- The attribute sets of `commandInfo`. -/
def attributes : MemCmd → List Attribute
  | invalidCmd => []
  | readReq => [.isRead, .isRequest, .needsResponse]
  | readResp => [.isRead, .isResponse, .hasData]
  | readRespWithInvalidate => [.isRead, .isResponse, .hasData, .isInvalidate]
  | writeReq => [.isWrite, .needsExclusive, .isRequest, .needsResponse, .hasData]
  | writeResp => [.isWrite, .needsExclusive, .isResponse]
  | writeback => [.isWrite, .needsExclusive, .isRequest, .hasData]
  | softPFReq => [.isRead, .isRequest, .isSWPrefetch, .needsResponse]
  | hardPFReq => [.isRead, .isRequest, .isHWPrefetch, .needsResponse]
  | softPFResp => [.isRead, .isResponse, .isSWPrefetch, .hasData]
  | hardPFResp => [.isRead, .isResponse, .isHWPrefetch, .hasData]
  | writeInvalidateReq =>
    [.isWrite, .needsExclusive, .isInvalidate, .isRequest, .hasData, .needsResponse]
  | writeInvalidateResp => [.isWrite, .needsExclusive, .isResponse]
  | upgradeReq => [.isInvalidate, .needsExclusive, .isUpgrade, .isRequest, .needsResponse]
  | scUpgradeReq =>
    [.isInvalidate, .needsExclusive, .isUpgrade, .isLlsc, .isRequest, .needsResponse]
  | upgradeResp => [.needsExclusive, .isUpgrade, .isResponse]
  | scUpgradeFailReq => [.isInvalidate, .needsExclusive, .isLlsc, .isRequest, .needsResponse]
  | upgradeFailResp => [.needsExclusive, .isResponse]
  | readExReq => [.isRead, .needsExclusive, .isInvalidate, .isRequest, .needsResponse]
  | readExResp => [.isRead, .needsExclusive, .isResponse, .hasData]
  | loadLockedReq => [.isRead, .isLlsc, .isRequest, .needsResponse]
  | storeCondReq => [.isWrite, .needsExclusive, .isLlsc, .isRequest, .needsResponse, .hasData]
  | storeCondResp => [.isWrite, .needsExclusive, .isLlsc, .isResponse]
  | swapReq => [.isRead, .isWrite, .needsExclusive, .isRequest, .hasData, .needsResponse]
  | swapResp => [.isRead, .isWrite, .needsExclusive, .isResponse, .hasData]
  | messageReq => [.isWrite, .isRequest, .needsResponse, .hasData]
  | messageResp => [.isWrite, .isResponse]
  | networkNackError => [.isResponse, .isError]
  | invalidDestError => [.isResponse, .isError]
  | badAddressError => [.isResponse, .isError]
  | printReq => [.isRequest, .isPrint]

/-- The response column of `commandInfo`. -/
def responseCommand : MemCmd → MemCmd
  | readReq => readResp
  | writeReq => writeResp
  | softPFReq => softPFResp
  | hardPFReq => hardPFResp
  | writeInvalidateReq => writeInvalidateResp
  | upgradeReq => upgradeResp
  | scUpgradeReq => upgradeResp
  | scUpgradeFailReq => upgradeFailResp
  | readExReq => readExResp
  | loadLockedReq => readResp
  | storeCondReq => storeCondResp
  | swapReq => swapResp
  | messageReq => messageResp
  | _ => invalidCmd

def testCmdAttrib (c : MemCmd) (a : Attribute) : Bool := decide (a ∈ c.attributes)

def isRead (c : MemCmd) : Bool := c.testCmdAttrib .isRead
def isWrite (c : MemCmd) : Bool := c.testCmdAttrib .isWrite
def isUpgrade (c : MemCmd) : Bool := c.testCmdAttrib .isUpgrade
def isRequest (c : MemCmd) : Bool := c.testCmdAttrib .isRequest
def isResponse (c : MemCmd) : Bool := c.testCmdAttrib .isResponse
def needsExclusive (c : MemCmd) : Bool := c.testCmdAttrib .needsExclusive
def needsResponse (c : MemCmd) : Bool := c.testCmdAttrib .needsResponse
def isInvalidate (c : MemCmd) : Bool := c.testCmdAttrib .isInvalidate
def hasData (c : MemCmd) : Bool := c.testCmdAttrib .hasData
def isLLSC (c : MemCmd) : Bool := c.testCmdAttrib .isLlsc
def isError (c : MemCmd) : Bool := c.testCmdAttrib .isError

/-- Every request that expects a response is answered by a response that expects none. -/
theorem response_of_request (c : MemCmd) (h : c.needsResponse = true) :
    c.isRequest = true ∧ c.responseCommand.isResponse = true ∧
      c.responseCommand.needsResponse = false := by
  revert h
  cases c <;> decide

end MemCmd

/-! ## Requests and packets -/

/-- The parts of a request that the cache and the prefetcher read. `pc` and
`contextId` are `none` where `hasPC()` and `hasContextId()` are false. -/
structure Request where
  paddr : Addr
  size : Nat
  uncacheable : Bool := false
  instFetch : Bool := false
  condSwap : Bool := false
  /-- a software prefetch (`isPrefetch()`) -/
  prefetch : Bool := false
  pc : Option Addr := none
  contextId : Option Nat := none
  extraData : BitVec 64 := 0
  deriving DecidableEq, Repr

structure Packet where
  cmd : MemCmd
  req : Request
  addr : Addr
  size : Nat
  data : List UInt8 := []
  time : Tick := 0
  finishTime : Tick := 0
  firstWordTime : Tick := 0
  shared : Bool := false
  memInhibit : Bool := false
  expressSnoop : Bool := false
  supplyExclusive : Bool := false
  deriving DecidableEq, Repr

/-- The bytes of `dst` with `src` copied in at offset `off`. -/
def memcpyAt (dst : List UInt8) (off : Nat) (src : List UInt8) : List UInt8 :=
  dst.take off ++ src ++ dst.drop (off + src.length)

namespace Packet

/-- `Packet(req, cmd, dest)`: address and size are the request's. -/
def ofRequest (req : Request) (cmd : MemCmd) (now : Tick) : Packet :=
  { cmd, req, addr := req.paddr, size := req.size, time := now }

/-- `Packet(pkt, clearFlags)`: the copy owns no data yet. -/
def copy (pkt : Packet) (now : Tick) (clearFlags : Bool) : Packet :=
  { cmd := pkt.cmd, req := pkt.req, addr := pkt.addr, size := pkt.size, time := now
    shared := pkt.shared && !clearFlags
    memInhibit := pkt.memInhibit && !clearFlags
    expressSnoop := pkt.expressSnoop && !clearFlags
    supplyExclusive := pkt.supplyExclusive && !clearFlags }

/-- `makeResponse`; responses are never express. -/
def makeTimingResponse (pkt : Packet) : Packet :=
  { pkt with cmd := pkt.cmd.responseCommand, expressSnoop := false }

def copyError (pkt err : Packet) : Packet := { pkt with cmd := err.cmd }

def setExtraData (pkt : Packet) (v : BitVec 64) : Packet :=
  { pkt with req := { pkt.req with extraData := v } }

def getOffset (pkt : Packet) (blkSize : Nat) : Nat :=
  (pkt.addr &&& (BitVec.ofNat 64 blkSize - 1)).toNat

/-- `setData`: the packet takes its size in bytes from `p`. -/
def setData (pkt : Packet) (p : List UInt8) : Packet := { pkt with data := p.take pkt.size }

def setDataFromBlock (pkt : Packet) (blkData : List UInt8) (blkSize : Nat) : Packet :=
  pkt.setData (blkData.drop (pkt.getOffset blkSize))

/-- The block's bytes after the packet's data is written at its offset. -/
def writeDataToBlock (pkt : Packet) (blkData : List UInt8) (blkSize : Nat) : List UInt8 :=
  memcpyAt blkData (pkt.getOffset blkSize) (pkt.data.take pkt.size)

end Packet
end PrefetchSim
