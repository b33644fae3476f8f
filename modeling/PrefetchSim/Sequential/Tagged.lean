import PrefetchSim.Mem.Prefetch

/- The tagged sequential prefetcher (`prefetcher/ts_54.cc`): after a miss, or the use of a
   prefetched block, fetch `DEGREE` blocks, `DISTANCE` blocks ahead.

   Correspondence (C++ ↔ Lean):
     `in_cache`, `get_prefetch_bit`, `set_prefetch_bit`  ↔ `inCache`, `getPrefetchBit`, `setPrefetchBit`
     `prefetch_several` (the address of round `i`)       ↔ `prefetchSeveral` (`pfAddr`)
     `prefetch_access`, `prefetch_complete`              ↔ `prefetchAccess`, `prefetchComplete`

   `issue_prefetch` ends the simulation for an address above `MAX_PHYS_MEM_ADDR`. Nothing here
   checks for that, as the filter of DCPT does: `safe_iff` says which accesses get through,
   `last_block_aborts` is one that does not. -/
namespace PrefetchSim.Tagged

/-- What the prefetcher can see of the cache: the blocks held, each with its prefetch bit. -/
abbrev Lines := Addr → Option Bool

def degree : Nat := 5
def distance : Nat := 3

/-- The block an address of the interface stands for. -/
def blockAddr (addr : Addr) : Addr := addr &&& ~~~(Dcpt.blockSize - 1)

def inCache (lines : Lines) (addr : Addr) : Bool := (lines (blockAddr addr)).isSome

def getPrefetchBit (lines : Lines) (addr : Addr) : Bool := (lines (blockAddr addr)).getD false

/-- Nothing happens for a block that is not held. -/
def setPrefetchBit (lines : Lines) (addr : Addr) : Lines :=
  Function.update lines (blockAddr addr) ((lines (blockAddr addr)).map fun _ => true)

/-- The address of round `i` of the loop; `BLOCK_SIZE * (i + DISTANCE)` is at most 448, far from
the end of `unsigned int`. -/
def pfAddr (address : Addr) (i : Nat) : Addr := address + BitVec.ofNat 64 (64 * (i + distance))

def prefetchSeveral (lines : Lines) (address : Addr) : List Addr :=
  ((List.range degree).map (pfAddr address)).filter fun addr => !inCache lines addr

/-- The addresses passed to `issue_prefetch`, in order. -/
def prefetchAccess (lines : Lines) (stat : Dcpt.AccessStat) : List Addr :=
  if stat.miss then prefetchSeveral lines stat.memAddr
  else if !stat.miss && getPrefetchBit lines stat.memAddr then prefetchSeveral lines stat.memAddr
  else []

def prefetchComplete (lines : Lines) (addr : Addr) : Lines := setPrefetchBit lines addr

/-- No address ends the simulation in `issue_prefetch`. -/
def Safe (lines : Lines) (stat : Dcpt.AccessStat) : Prop :=
  ∀ addr ∈ prefetchAccess lines stat, addr ≤ Dcpt.maxPhysMemAddr

instance (lines : Lines) (stat : Dcpt.AccessStat) : Decidable (Safe lines stat) :=
  List.decidableBAll (· ≤ Dcpt.maxPhysMemAddr) (prefetchAccess lines stat)

/-- What makes the prefetcher act. -/
def Triggered (lines : Lines) (stat : Dcpt.AccessStat) : Prop :=
  stat.miss = true ∨ getPrefetchBit lines stat.memAddr = true

theorem prefetchAccess_of_triggered {lines : Lines} {stat : Dcpt.AccessStat} (h : Triggered lines stat) :
    prefetchAccess lines stat = prefetchSeveral lines stat.memAddr := by
  rw [prefetchAccess]
  cases hm : stat.miss with
  | true => simp
  | false =>
    have hbit : getPrefetchBit lines stat.memAddr = true := by simpa [Triggered, hm] using h
    simp [hbit]

theorem prefetchAccess_of_not_triggered {lines : Lines} {stat : Dcpt.AccessStat}
    (h : ¬ Triggered lines stat) : prefetchAccess lines stat = [] := by
  simp only [Triggered, not_or, Bool.not_eq_true] at h
  simp [prefetchAccess, h.1, h.2]

/-- From a physical address no round wraps around. -/
theorem pfAddr_le_iff {address : Addr} (h : address ≤ Dcpt.maxPhysMemAddr) {i : Nat} (hi : i < degree) :
    pfAddr address i ≤ Dcpt.maxPhysMemAddr ↔ address.toNat + 64 * (i + distance) < 256 * 1024 * 1024 := by
  have hmax : (Dcpt.maxPhysMemAddr : Addr).toNat = 256 * 1024 * 1024 - 1 := by decide
  have hle : address.toNat ≤ (Dcpt.maxPhysMemAddr : Addr).toNat := h
  rw [BitVec.le_def, pfAddr, BitVec.toNat_add, BitVec.toNat_ofNat]
  simp only [degree, distance] at hi ⊢
  omega

theorem prefetchSeveral_le_iff (lines : Lines) {address : Addr} (h : address ≤ Dcpt.maxPhysMemAddr) :
    (∀ addr ∈ prefetchSeveral lines address, addr ≤ Dcpt.maxPhysMemAddr) ↔
      ∀ i < degree, address.toNat + 64 * (i + distance) < 256 * 1024 * 1024 ∨
        inCache lines (address + BitVec.ofNat 64 (64 * (i + distance))) = true := by
  constructor
  · intro hall i hi
    by_cases hc : inCache lines (pfAddr address i) = true
    · exact Or.inr hc
    · have hmem : pfAddr address i ∈ prefetchSeveral lines address :=
        List.mem_filter.2 ⟨List.mem_map_of_mem (List.mem_range.2 hi), by simpa using hc⟩
      exact Or.inl ((pfAddr_le_iff h hi).1 (hall _ hmem))
  · intro hall addr hmem
    obtain ⟨hround, hnew⟩ := List.mem_filter.1 hmem
    obtain ⟨i, hi, rfl⟩ := List.mem_map.1 hround
    rcases hall i (List.mem_range.1 hi) with hfits | hc
    · exact (pfAddr_le_iff h (List.mem_range.1 hi)).2 hfits
    · simp [pfAddr, hc] at hnew

/-- An access to physical memory is safe exactly if it does not trigger the prefetcher, or each
of the five blocks ahead is still in memory or, though it is not, in the cache. -/
theorem safe_iff (lines : Lines) (stat : Dcpt.AccessStat) (h : stat.memAddr ≤ Dcpt.maxPhysMemAddr) :
    Safe lines stat ↔ ¬ Triggered lines stat ∨
      ∀ i < degree, stat.memAddr.toNat + 64 * (i + distance) < 256 * 1024 * 1024 ∨
        inCache lines (stat.memAddr + BitVec.ofNat 64 (64 * (i + distance))) = true := by
  by_cases ht : Triggered lines stat
  · rw [Safe, prefetchAccess_of_triggered ht, prefetchSeveral_le_iff lines h]
    simp [ht]
  · simp [Safe, prefetchAccess_of_not_triggered ht, ht]

def missAt (addr : Addr) : Dcpt.AccessStat := { pc := 1, memAddr := addr, time := 0, miss := true }

theorem safe_low : (missAt 4096).memAddr ≤ Dcpt.maxPhysMemAddr ∧ Safe (fun _ => none) (missAt 4096) :=
  ⟨by decide, (safe_iff (fun _ => none) (missAt 4096) (by decide)).2 (Or.inr (by decide))⟩

/-- A miss in the last block of the memory, with nothing cached. -/
theorem last_block_aborts :
    (missAt 0x0fffffc0).memAddr ≤ Dcpt.maxPhysMemAddr ∧
      ¬ Safe (fun _ => none) (missAt 0x0fffffc0) := by
  decide

end PrefetchSim.Tagged
