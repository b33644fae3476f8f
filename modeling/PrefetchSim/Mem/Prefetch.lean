import Mathlib.Data.List.DropRight
import PrefetchSim.Dcpt.Prefetcher
import PrefetchSim.Lib.Ledger
import PrefetchSim.Mem.Lru

/- The prefetch queue of the cache (`m5/src/mem/cache/prefetch/base.{hh,cc}`)
   and the proxy that connects it to a prefetcher written against
   `interface.hh` (`prefetch/proxy.cc`).

   Correspondence (C++ ↔ Lean):
     `BasePrefetcher` (`pf`)                     ↔ `Prefetcher`
     `notify`                                    ↔ `Prefetcher.notify`
       (removal, squash, enqueue loop)              (`.removeDemanded`, `.squash`, `.enqueue`)
     `inPrefetch`                                ↔ `inPrefetch`
     `getPacket`                                 ↔ `Prefetcher.getPacket`
     `calculatePrefetch`, `prefetchComplete`     ↔ the fields of `Policy`
     `ProxyPrefetcher`, `issue_prefetch`         ↔ `proxy`, `issuePrefetch`

   `Prefetcher.log` is a history variable: it records what happens to the
   addresses the policy issues, in order, and nothing reads it. The policy
   asks the cache about its state through a `View`. -/
namespace PrefetchSim

/-! ## Policies -/

/-- What a policy can ask the cache during one call. -/
structure View where
  inCache : Addr → Bool
  inMissQueue : Addr → Bool
  currentQueueSize : Nat

/-- A prefetch policy: candidate addresses with their delays for a demand
request, and what it does when one of its prefetches has completed. -/
structure Policy (σ : Type) where
  calculatePrefetch : View → Packet → σ → σ × List (Addr × Tick)
  prefetchComplete : Packet → σ → σ

structure PfConfig where
  size : Nat := 100
  serialSquash : Bool := false
  onlyData : Bool := false

/-- The places at which a prefetch leaves the system without a callback. -/
inductive DropCause where
  /-- `notify`: a demand request for the queued block -/
  | demanded
  /-- `notify`: later than the new miss, with `serialSquash` -/
  | squashed
  /-- `notify`: a packet to the same block is queued already -/
  | queued
  /-- `notify`: oldest packet of a full queue -/
  | overflow
  /-- `getNextMSHR`: cached, or missing already, when popped -/
  | present
  /-- `getTimingPacket`: cached when the request is to be sent -/
  | bailOut
  /-- `handleResponse`: the response leaves no block -/
  | noBlock
  deriving DecidableEq, Repr

abbrev PfEvent := Ledger.Event DropCause Addr

structure Prefetcher (σ : Type) where
  pf : List Packet := []
  policy : σ
  log : List PfEvent := []

/-- Whether a queued packet is found for this address. The address itself is
not aligned before it is compared. -/
def inPrefetch (g : Geometry) (address : Addr) (pkt : Packet) : Bool :=
  decide (g.blockAlign pkt.addr = address)

namespace Prefetcher

variable {σ : Type}

def record (s : Prefetcher σ) (es : List PfEvent) : Prefetcher σ := { s with log := s.log ++ es }

/-- The removal of a queued prefetch to the block that is now demanded. -/
def removeDemanded (g : Geometry) (addr : Addr) (s : Prefetcher σ) : Prefetcher σ :=
  let found := s.pf.find? (inPrefetch g (g.blockAlign addr))
  { s with pf := s.pf.eraseP (inPrefetch g (g.blockAlign addr)) }.record
    (found.toList.map fun p : Packet => .dropped .demanded p.addr)

/-- The removal, from the end, of everything not earlier than `time`. -/
def squash (time : Tick) (s : Prefetcher σ) : Prefetcher σ :=
  let late := fun p : Packet => decide (time ≤ p.time)
  { s with pf := s.pf.rdropWhile late }.record
    ((s.pf.rtakeWhile late).map fun p : Packet => .dropped .squashed p.addr)

/-- The packet `notify` makes of a candidate. -/
def prefetchPacket (g : Geometry) (pkt : Packet) (time : Tick) (now : Tick) (c : Addr × Tick) :
    Packet :=
  { Packet.ofRequest { paddr := c.1, size := g.blkSize, contextId := pkt.req.contextId }
      .hardPFReq now with time := time + c.2 }

/-- One round of the loop over the candidates. -/
def enqueue (g : Geometry) (cfg : PfConfig) (pkt : Packet) (time now : Tick) (s : Prefetcher σ)
    (c : Addr × Tick) : Prefetcher σ :=
  let s := s.record [.accepted c.1]
  if s.pf.any (inPrefetch g c.1) then s.record [.dropped .queued c.1]
  else
    let s := match s.pf with
      | [] => s
      | old :: rest =>
        if s.pf.length = cfg.size then
          { s with pf := rest }.record [.dropped .overflow old.addr]
        else s
    { s with pf := s.pf ++ [prefetchPacket g pkt time now c] }

theorem enqueueAll_policy (g : Geometry) (cfg : PfConfig) (pkt : Packet) (time now : Tick)
    (cs : List (Addr × Tick)) (s : Prefetcher σ) :
    (cs.foldl (enqueue g cfg pkt time now) s).policy = s.policy := by
  induction cs generalizing s with
  | nil => rfl
  | cons c cs ih =>
    rw [List.foldl_cons, ih]
    unfold enqueue
    dsimp only
    split
    · rfl
    · split
      · rfl
      · split <;> rfl

/-- What holds of the queued packets and of every new one holds after the loop. -/
theorem enqueueAll_forall {g : Geometry} {cfg : PfConfig} {pkt : Packet} {time now : Tick} {Q : Packet → Prop}
    (hnew : ∀ c, Q (prefetchPacket g pkt time now c)) (cs : List (Addr × Tick)) {s : Prefetcher σ}
    (h : ∀ p ∈ s.pf, Q p) : ∀ p ∈ (cs.foldl (enqueue g cfg pkt time now) s).pf, Q p := by
  induction cs generalizing s with
  | nil => exact h
  | cons c cs ih =>
    have hpush : ∀ l : List Packet, (∀ p ∈ l, Q p) → ∀ p ∈ l ++ [prefetchPacket g pkt time now c], Q p := by
      intro l hl p hp
      rcases List.mem_append.1 hp with hp | hp
      · exact hl p hp
      · rw [List.mem_singleton.1 hp]
        exact hnew c
    apply ih
    unfold enqueue
    dsimp only
    split
    · exact h
    · split
      · exact hpush s.pf h
      · rename_i old l hpf
        replace hpf : s.pf = old :: l := hpf
        split
        · exact hpush l fun p hp => h p (hpf ▸ List.mem_cons_of_mem old hp)
        · exact hpush s.pf h

/-- `notify`; the second component is the time of the next prefetch, or 0. -/
def notify (P : Policy σ) (g : Geometry) (cfg : PfConfig) (inCache inMissQueue : Addr → Bool)
    (now : Tick) (pkt : Packet) (time : Tick) (s : Prefetcher σ) : Prefetcher σ × Tick :=
  let s :=
    if !pkt.req.uncacheable && !(pkt.req.instFetch && cfg.onlyData) then
      let s := s.removeDemanded g pkt.addr
      let s := if cfg.serialSquash then s.squash time else s
      let r := P.calculatePrefetch ⟨inCache, inMissQueue, s.pf.length⟩ pkt s.policy
      r.2.foldl (enqueue g cfg pkt time now) { s with policy := r.1 }
    else s
  (s, (s.pf.head?.map (·.time)).getD 0)

/-- `getPacket` takes the head off the queue, which leaves `rest`. -/
def getPacket (rest : List Packet) (s : Prefetcher σ) : Prefetcher σ := { s with pf := rest }

/-- `prefetchComplete` of the policy. -/
def complete (P : Policy σ) (pkt : Packet) (s : Prefetcher σ) : Prefetcher σ :=
  { s with policy := P.prefetchComplete pkt s.policy }.record [.completed pkt.addr]

end Prefetcher

/-! ## The proxy -/

/-- A prefetcher written against `interface.hh`. -/
structure User (τ : Type) where
  prefetchAccess : Dcpt.Sim → Dcpt.AccessStat → τ → τ × List Addr
  prefetchComplete : Addr → τ → τ

/-- `issue_prefetch` pushes the aligned address; an address that is too large
ends the simulation, and nothing is pushed for it. -/
def issuePrefetch (latency : Tick) (addr : Addr) : List (Addr × Tick) :=
  if addr ≤ Dcpt.maxPhysMemAddr then [(addr &&& ~~~(Dcpt.blockSize - 1), latency)] else []

/-- The answers of `in_cache`, `in_mshr_queue` and `current_queue_size`. -/
def View.sim (v : View) : Dcpt.Sim where
  inCache _ a := v.inCache (a &&& ~~~(Dcpt.blockSize - 1))
  inMshrQueue _ a := v.inMissQueue (a &&& ~~~(Dcpt.blockSize - 1))
  currentQueueSize _ := v.currentQueueSize

/-- The statistics the proxy reports for a request, if it reports any. -/
def accessStat (v : View) (pkt : Packet) : Option Dcpt.AccessStat :=
  match pkt.req.pc, pkt.req.contextId with
  | some pc, some _ => some { pc, memAddr := pkt.addr, time := pkt.time, miss := !v.inCache pkt.addr }
  | _, _ => none

/-- `ProxyPrefetcher` around a user's prefetcher. -/
def proxy {τ : Type} (latency : Tick) (u : User τ) : Policy τ where
  calculatePrefetch v pkt s :=
    match accessStat v pkt with
    | none => (s, [])
    | some stat =>
      let r := u.prefetchAccess v.sim stat s
      (r.1, r.2.flatMap (issuePrefetch latency))
  prefetchComplete pkt s := u.prefetchComplete pkt.addr s

/-- The DCPT prefetcher as the proxy's user. -/
def dcpt : User Dcpt.State where
  prefetchAccess := Dcpt.prefetchAccess
  prefetchComplete := Dcpt.prefetchComplete

end PrefetchSim
