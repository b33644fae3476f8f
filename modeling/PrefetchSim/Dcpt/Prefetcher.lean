import Mathlib.Data.Finset.Card
import Mathlib.Data.Finset.Insert
import Mathlib.Logic.Function.Basic
import PrefetchSim.Lib.Runs
import PrefetchSim.Lib.Window
import PrefetchSim.Mem.Packet

/- The DCPT prefetcher (`prefetcher/prefetcher.cc`) over the C interface the
   simulator gives it (`prefetcher/interface.hh`).

   Correspondence (C++ ↔ Lean):
     `Entry`, `insert_delta`              ↔ `Entry`, `Entry.insertDelta`
     `table`, `in_flight`                 ↔ `State.table`, `State.inFlight`
     `to_block`, `table_lookup`           ↔ `toBlock`, `slotOf`
     `delta_correlation` (its two loops)  ↔ `deltaCorrelation` (`scan`, `addDeltas`)
     `prefetch_filter`                    ↔ `prefetchFilter` (`filterLoop`)
     `issue_prefetches`                   ↔ `issuePrefetches` (`issueLoop`)
     `prefetch_access`                    ↔ `prefetchAccess`
     `prefetch_complete`                  ↔ `prefetchComplete`

   `Addr` is `uint64_t` with its wrap-around; a `Delta` is a 32-bit `int`,
   held here as the integer it denotes. The simulator's answers to `in_cache`,
   `in_mshr_queue` and `current_queue_size` are an argument (`Sim`) that may
   answer every question of one call differently. -/
namespace PrefetchSim

namespace Dcpt

/-! ## Constants of `interface.hh` and `prefetcher.cc` -/

def blockSize : Addr := 64
def maxQueueSize : Nat := 100
def maxPhysMemAddr : Addr := 256 * 1024 * 1024 - 1

def numDeltas : Nat := 19
def tableSize : Nat := 98
def deltaBits : Nat := 12
def maxDegree : Nat := numDeltas
def deltaMin : Int := -(2 ^ (deltaBits - 1))
def deltaMax : Int := 2 ^ (deltaBits - 1) - 1

/-- What the simulator tells the prefetcher about one access. -/
structure AccessStat where
  pc : Addr
  memAddr : Addr
  time : Tick
  miss : Bool
  deriving DecidableEq, Repr

/-- The simulator's answers during one call: the `k`-th question of a loop may
be answered differently from the others. -/
structure Sim where
  inCache : Nat → Addr → Bool
  inMshrQueue : Nat → Addr → Bool
  currentQueueSize : Nat → Nat

/-! ## The table -/

/-- One row of the table; `deltas` is oldest first. -/
structure Entry where
  pc : Addr := 0
  lastAddress : Addr := 0
  lastPrefetch : Addr := 0
  deltas : List Int := []
  deriving DecidableEq, Repr

/-- Whether a delta can be stored. -/
def storable (delta : Int) : Bool := deltaMin ≤ delta && delta ≤ deltaMax

/-- A delta too large or too negative to store is ignored. -/
def Entry.insertDelta (e : Entry) (delta : Int) : Entry :=
  if delta < deltaMin ∨ deltaMax < delta then e
  else { e with deltas := Window.push numDeltas e.deltas delta }

/-- The conversion of a 64-bit difference to the `int` parameter of `insert_delta`. -/
def toDelta (diff : Addr) : Int := (diff.setWidth 32).toInt

structure State where
  table : Fin tableSize → Entry
  inFlight : Finset Addr

/-- The program's state before the first call: default-constructed rows. -/
def initial : State := { table := fun _ => {}, inFlight := ∅ }

def toBlock (addr : Addr) : Addr := addr / blockSize * blockSize

/-- The row `table_lookup` maps a pc to. -/
def slotOf (pc : Addr) : Fin tableSize := ⟨pc.toNat % tableSize, Nat.mod_lt _ (by decide)⟩

/-! ## Candidates -/

/-- The inner loop: add the deltas to `address` one by one. The second component
is the value `address` is left with. -/
def addDeltas : Addr → List Int → List Addr × Addr
  | address, [] => ([], address)
  | address, w :: ws =>
    let r := addDeltas (address + BitVec.ofInt 64 w) ws
    ((address + BitVec.ofInt 64 w) :: r.1, r.2)

/-- The outer loop over the reversed deltas, from `u` on with `v` its successor.
`address` is not reset between two matches. -/
def scan (d1 d2 : Int) : List Int → Addr → List Addr
  | u :: v :: rest, address =>
    if u = d1 ∧ v = d2 then
      let r := addDeltas address (v :: rest)
      r.1 ++ scan d1 d2 (v :: rest) r.2
    else scan d1 d2 (v :: rest) address
  | _, _ => []

def deltaCorrelation (e : Entry) : List Addr :=
  match e.deltas.reverse with
  | d1 :: d2 :: rest => scan d1 d2 (d2 :: rest) e.lastAddress
  | _ => []

/-! ## Filtering and issuing -/

/-- The loop of `prefetch_filter` from the `i`-th candidate on. -/
def filterLoop (sim : Sim) (lastPrefetch : Addr) :
    Nat → List Addr → Finset Addr → List Addr → Finset Addr × List Addr
  | _, [], inFlight, prefetches => (inFlight, prefetches)
  | i, c :: cs, inFlight, prefetches =>
    let take := c ≤ maxPhysMemAddr ∧ toBlock c ∉ inFlight ∧ sim.inMshrQueue i c = false ∧
      sim.inCache i c = false ∧ inFlight.card < maxQueueSize
    let inFlight' := if take then insert (toBlock c) inFlight else inFlight
    let prefetches' := if take then prefetches ++ [c] else prefetches
    filterLoop sim lastPrefetch (i + 1) cs inFlight' (if c = lastPrefetch then [] else prefetches')

def prefetchFilter (sim : Sim) (e : Entry) (candidates : List Addr) (inFlight : Finset Addr) :
    Finset Addr × List Addr :=
  filterLoop sim e.lastPrefetch 0 candidates inFlight []

/-- The loop of `issue_prefetches` after `issued` prefetches; the result is what
is passed to `issue_prefetch`. -/
def issueLoop (sim : Sim) : Nat → List Addr → List Addr
  | _, [] => []
  | issued, p :: ps =>
    if maxQueueSize ≤ sim.currentQueueSize issued ∨ maxDegree ≤ issued then []
    else p :: issueLoop sim (issued + 1) ps

def issuePrefetches (sim : Sim) (prefetches : List Addr) : List Addr := issueLoop sim 0 prefetches

/-! ## The entry points -/

/-- `prefetch_access`: the new state and the addresses passed to `issue_prefetch`, in order. -/
def prefetchAccess (sim : Sim) (stat : AccessStat) (s : State) : State × List Addr :=
  let slot := slotOf stat.pc
  let entry := s.table slot
  if entry.pc ≠ stat.pc then
    ({ s with table := Function.update s.table slot { pc := stat.pc, lastAddress := stat.memAddr } }, [])
  else if stat.memAddr ≠ entry.lastAddress then
    let entry' := { entry.insertDelta (toDelta (stat.memAddr - entry.lastAddress)) with
      lastAddress := stat.memAddr }
    let filtered := prefetchFilter sim entry' (deltaCorrelation entry') s.inFlight
    ({ table := Function.update s.table slot entry', inFlight := filtered.1 },
      issuePrefetches sim filtered.2)
  else (s, [])

def prefetchComplete (addr : Addr) (s : State) : State :=
  { s with inFlight := s.inFlight.erase (toBlock addr) }

/-! ## Runs -/

/-- The calls the simulator makes. -/
inductive Event where
  | access (sim : Sim) (stat : AccessStat)
  | complete (addr : Addr)

def step (s : State) : Event → State
  | .access sim stat => (prefetchAccess sim stat s).1
  | .complete addr => prefetchComplete addr s

def run (evs : List Event) : State := Runs.exec step initial evs

def Reachable (s : State) : Prop := ∃ evs, s = run evs

/-! ## The row an access leaves behind -/

/-- What an access by `pc` to `addr` makes of the row it maps to. -/
def Entry.access (e : Entry) (pc addr : Addr) : Entry :=
  if e.pc ≠ pc then { pc := pc, lastAddress := addr }
  else if addr ≠ e.lastAddress then
    { e.insertDelta (toDelta (addr - e.lastAddress)) with lastAddress := addr }
  else e

/-- The candidates an access in state `s` computes. -/
def candidates (s : State) (stat : AccessStat) : List Addr :=
  let e := s.table (slotOf stat.pc)
  if e.pc = stat.pc ∧ stat.memAddr ≠ e.lastAddress then
    deltaCorrelation (e.access stat.pc stat.memAddr)
  else []

@[simp] theorem insertDelta_pc (e : Entry) (d : Int) : (e.insertDelta d).pc = e.pc := by
  unfold Entry.insertDelta; split <;> rfl

@[simp] theorem insertDelta_lastPrefetch (e : Entry) (d : Int) :
    (e.insertDelta d).lastPrefetch = e.lastPrefetch := by
  unfold Entry.insertDelta; split <;> rfl

@[simp] theorem access_pc (e : Entry) (pc addr : Addr) : (e.access pc addr).pc = pc := by
  unfold Entry.access
  split
  · rfl
  · rename_i h
    split <;> simpa using h

/-- An access changes one row, whatever the simulator answers. -/
theorem prefetchAccess_table (sim : Sim) (stat : AccessStat) (s : State) :
    (prefetchAccess sim stat s).1.table =
      Function.update s.table (slotOf stat.pc)
        ((s.table (slotOf stat.pc)).access stat.pc stat.memAddr) := by
  unfold prefetchAccess Entry.access
  by_cases hpc : (s.table (slotOf stat.pc)).pc = stat.pc
  · by_cases ha : stat.memAddr = (s.table (slotOf stat.pc)).lastAddress <;> simp [hpc, ha]
  · simp [hpc]

/-- The filter and the issue loop see the candidates of the access; without the
delta branch both see an empty list. -/
theorem prefetchAccess_effect (sim : Sim) (stat : AccessStat) (s : State) :
    let f := prefetchFilter sim (s.table (slotOf stat.pc)) (candidates s stat) s.inFlight
    (prefetchAccess sim stat s).1.inFlight = f.1 ∧
      (prefetchAccess sim stat s).2 = issuePrefetches sim f.2 := by
  unfold prefetchAccess candidates
  by_cases hpc : (s.table (slotOf stat.pc)).pc = stat.pc
  · by_cases ha : stat.memAddr = (s.table (slotOf stat.pc)).lastAddress
    · simp [hpc, ha, prefetchFilter, filterLoop, issuePrefetches, issueLoop]
    · simp [hpc, ha, prefetchFilter, Entry.access]
  · simp [hpc, prefetchFilter, filterLoop, issuePrefetches, issueLoop]

/-! ## Blocks -/

theorem getLsbD_toBlock (a : Addr) (i : Nat) :
    (toBlock a).getLsbD i = (a.getLsbD i && decide (6 ≤ i)) := by
  have hshift : toBlock a = a >>> 6 <<< 6 := by
    apply BitVec.eq_of_toNat_eq
    simp [toBlock, blockSize, Nat.shiftRight_eq_div_pow, Nat.shiftLeft_eq]
  rw [hshift, BitVec.getLsbD_shiftLeft, BitVec.getLsbD_ushiftRight]
  by_cases h : i < 6
  · simp [h]
  · rw [Nat.add_sub_cancel' (Nat.le_of_not_lt h)]
    by_cases hi : i < 64
    · simp [h, hi]
      omega
    · simp [BitVec.getLsbD_of_ge a i (by omega)]

theorem toBlock_eq_and (a : Addr) : toBlock a = a &&& ~~~(blockSize - 1) := by
  apply BitVec.eq_of_getLsbD_eq
  intro i hi
  have hmask : (blockSize - 1 : Addr).getLsbD i = decide (i < 6) := by
    rw [show blockSize = BitVec.ofNat 64 (2 ^ 6) by decide]
    exact Words.lowMask_getLsbD (by decide) hi
  rw [getLsbD_toBlock, BitVec.getLsbD_and, BitVec.getLsbD_not, hmask]
  by_cases h : i < 6
  · simp [h]
  · simp [h, hi, Nat.le_of_not_lt h]

theorem toBlock_toBlock (a : Addr) : toBlock (toBlock a) = toBlock a := by
  rw [toBlock_eq_and (toBlock a), toBlock_eq_and a, BitVec.and_assoc, BitVec.and_self]

end Dcpt
end PrefetchSim
