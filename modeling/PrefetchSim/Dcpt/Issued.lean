import Mathlib.Algebra.Order.BigOperators.Group.List
import PrefetchSim.Dcpt.Correlation
import PrefetchSim.Dcpt.History
import PrefetchSim.Mem.Prefetch

/- What DCPT passes to `issue_prefetch`.

   1. `issued_admissible`: with answers that do not change during the call, everything issued
      comes from the candidate list in order, passes every test of the filter and is accepted
      by `issue_prefetch`, and no two addresses share a block.
   2. `arithmetic_exact`: as long as every access is to a physical address, the 64-bit sums and
      the 32-bit deltas compute with integers. A row then holds a physical address and at most
      `numDeltas` storable deltas (`Entry.Physical`), so a running sum stays within 2^29 of
      zero, and a negative one is a word far above the physical addresses. -/
namespace PrefetchSim.Dcpt

open Sums

/-! ## Admissibility -/

/-- Answers that stay the same during a call. -/
def Sim.constant (inCache inMshrQueue : Addr → Bool) (currentQueueSize : Nat → Nat) : Sim where
  inCache _ := inCache
  inMshrQueue _ := inMshrQueue
  currentQueueSize := currentQueueSize

theorem candidates_sublist (s : State) (stat : AccessStat) :
    (candidates s stat).Sublist (deltaCorrelation ((s.table (slotOf stat.pc)).access stat.pc stat.memAddr)) := by
  simp only [candidates]
  split
  · exact List.Sublist.refl _
  · exact List.nil_sublist _

theorem issued_sublist (sim : Sim) (stat : AccessStat) (s : State) :
    (prefetchAccess sim stat s).2.Sublist
      (deltaCorrelation ((s.table (slotOf stat.pc)).access stat.pc stat.memAddr)) :=
  ((issued_accepted sim stat s).trans (accepted_sublist _ _ _ _)).trans (candidates_sublist s stat)

theorem issued_length_le (sim : Sim) (stat : AccessStat) (s : State) :
    (prefetchAccess sim stat s).2.length ≤ maxDegree := by
  rw [(prefetchAccess_effect sim stat s).2]
  exact issueLoop_length_le sim _ 0

/-- For every state, access and answers: the issued addresses are admissible, few, and in
blocks of their own; `issue_prefetch` pushes each of them. -/
theorem issued_admissible (s : State) (stat : AccessStat) (inCache inMshrQueue : Addr → Bool)
    (currentQueueSize : Nat → Nat) :
    let issued := (prefetchAccess (.constant inCache inMshrQueue currentQueueSize) stat s).2
    issued.Sublist (deltaCorrelation ((s.table (slotOf stat.pc)).access stat.pc stat.memAddr)) ∧
      issued.length ≤ maxDegree ∧
      (∀ a ∈ issued, a ≤ maxPhysMemAddr ∧
        (∀ latency, issuePrefetch latency a = [(a &&& ~~~(blockSize - 1), latency)]) ∧
        inCache a = false ∧ inMshrQueue a = false ∧ toBlock a ∉ s.inFlight) ∧
      issued.Pairwise (fun a b => toBlock a ≠ toBlock b) := by
  intro issued
  have haccepted := issued_accepted (.constant inCache inMshrQueue currentQueueSize) stat s
  have hspec := prefetchAccess_spec (.constant inCache inMshrQueue currentQueueSize) stat s
  refine ⟨issued_sublist _ stat s, issued_length_le _ stat s, ?_, List.pairwise_map.1 hspec.2.2.1⟩
  intro a ha
  obtain ⟨j, hle, hfresh, hmshr, hcache⟩ := accepted_admissible _ _ 0 s.inFlight a (haccepted.subset ha)
  refine ⟨hle, ?_, hcache, hmshr, hfresh⟩
  intro latency
  rw [issuePrefetch, if_pos hle]

/-! ## Exact arithmetic -/

/-- A row that only physical addresses went into. -/
structure Entry.Physical (e : Entry) : Prop where
  last : e.lastAddress ≤ maxPhysMemAddr
  few : e.deltas.length ≤ numDeltas
  stored : ∀ d ∈ e.deltas, deltaMin ≤ d ∧ d ≤ deltaMax

def Event.Physical : Event → Prop
  | .access _ stat => stat.memAddr ≤ maxPhysMemAddr
  | .complete _ => True

instance : (ev : Event) → Decidable ev.Physical
  | .access _ _ => inferInstanceAs (Decidable (_ ≤ _))
  | .complete _ => inferInstanceAs (Decidable True)

namespace Entry.Physical

theorem default : Entry.Physical {} := ⟨by decide, by decide, by simp⟩

theorem insertDelta {e : Entry} (h : e.Physical) (d : Int) : (e.insertDelta d).Physical := by
  unfold Entry.insertDelta
  split
  · exact h
  · rename_i hd
    refine ⟨h.last, Window.push_length h.few d, ?_⟩
    intro x hx
    have hmem : x ∈ e.deltas ++ [d] := by
      simp only [Window.push] at hx
      split at hx
      · exact List.mem_of_mem_tail hx
      · exact hx
    rcases List.mem_append.1 hmem with hx | hx
    · exact h.stored x hx
    · rw [List.mem_singleton.1 hx]
      omega

theorem access {e : Entry} (h : e.Physical) (pc : Addr) {addr : Addr} (ha : addr ≤ maxPhysMemAddr) :
    (e.access pc addr).Physical := by
  unfold Entry.access
  split
  · exact ⟨ha, by simp, by simp⟩
  · split
    · have hd := h.insertDelta (toDelta (addr - e.lastAddress))
      exact ⟨ha, hd.few, hd.stored⟩
    · exact h

theorem accesses {e : Entry} (h : e.Physical) {stats : List AccessStat}
    (hs : ∀ stat ∈ stats, stat.memAddr ≤ maxPhysMemAddr) : (e.accesses stats).Physical := by
  induction stats generalizing e with
  | nil => exact h
  | cons stat stats ih =>
    obtain ⟨hstat, hstats⟩ := List.forall_mem_cons.1 hs
    exact ih (h.access stat.pc hstat) hstats

end Entry.Physical

/-- Every row of a state reached by physical accesses. -/
theorem run_physical {evs : List Event} (h : ∀ ev ∈ evs, ev.Physical) (slot : Fin tableSize) :
    ((run evs).table slot).Physical := by
  rw [table_run]
  refine Entry.Physical.default.accesses ?_
  intro stat hstat
  obtain ⟨ev, hev, heq⟩ := List.mem_filterMap.1 hstat
  cases ev with
  | complete addr => cases heq
  | access sim stat' =>
    have hphys : stat'.memAddr ≤ maxPhysMemAddr := h _ hev
    by_cases hslot : slotOf stat'.pc = slot
    · simp only [hslot, if_true, Option.some.injEq] at heq
      exact heq ▸ hphys
    · simp [hslot] at heq

theorem toNat_le_of_physical {a : Addr} (h : a ≤ maxPhysMemAddr) : a.toNat < 2 ^ 28 := by
  have hle : a.toNat ≤ (maxPhysMemAddr : Addr).toNat := h
  have hmax : (maxPhysMemAddr : Addr).toNat = 2 ^ 28 - 1 := by decide
  omega

/-- The narrowing loses nothing between physical addresses. -/
theorem toDelta_physical {a b : Addr} (ha : a ≤ maxPhysMemAddr) (hb : b ≤ maxPhysMemAddr) :
    toDelta (b - a) = (b.toNat : Int) - a.toNat := by
  have ha := toNat_le_of_physical ha
  have hb := toNat_le_of_physical hb
  exact toDelta_sub (by omega) (by omega)

/-- The running sums of `delta_correlation` as integers. -/
def exactSums (e : Entry) : List Int := sums (e.lastAddress.toNat : Int) (replayed e.deltas)

theorem deltaCorrelation_exact (e : Entry) :
    deltaCorrelation e = (exactSums e).map (BitVec.ofInt 64) := by
  have hlast : BitVec.ofInt 64 (e.lastAddress.toNat : Int) = e.lastAddress := by
    rw [BitVec.ofInt_natCast, BitVec.ofNat_toNat, BitVec.setWidth_eq]
  rw [deltaCorrelation_eq, exactSums, map_sums (fun x y => BitVec.ofInt_add x y), hlast]

theorem length_replay_le (d1 d2 : Int) (l : List Int) :
    (replay d1 d2 l).length ≤ l.length * l.length := by
  induction l with
  | nil => exact Nat.le_refl 0
  | cons u l ih =>
    cases l with
    | nil => exact Nat.zero_le _
    | cons v rest =>
      have hsquare : ((u :: v :: rest).length) * ((u :: v :: rest).length) =
          (v :: rest).length * (v :: rest).length + 2 * (v :: rest).length + 1 := by
        simp only [List.length_cons, Nat.add_mul, Nat.mul_add]
        omega
      simp only [replay]
      split
      · rw [List.length_append]
        omega
      · omega

theorem length_replayed_le (ds : List Int) : (replayed ds).length ≤ ds.length * ds.length := by
  unfold replayed
  split
  · rename_i d1 d2 rest heq
    have hlen : ds.length = rest.length + 2 := by
      rw [← List.length_reverse, heq]
      rfl
    calc (replay d1 d2 (d2 :: rest)).length
      _ ≤ (rest.length + 1) * (rest.length + 1) := length_replay_le d1 d2 (d2 :: rest)
      _ ≤ ds.length * ds.length := Nat.mul_le_mul (by omega) (by omega)
  · exact Nat.zero_le _

/-- A running sum of a physical row is the address and a sum of stored deltas, and small. -/
theorem Entry.Physical.mem_exactSums {e : Entry} (h : e.Physical) {z : Int} (hz : z ∈ exactSums e) :
    ∃ ws : List Int, (∀ w ∈ ws, w ∈ e.deltas) ∧ z = e.lastAddress.toNat + ws.sum ∧
      -2 ^ 29 < z ∧ z < 2 ^ 29 := by
  obtain ⟨i, -, rfl⟩ := exists_of_mem_sums hz
  set ws := (replayed e.deltas).take (i + 1)
  have hmem : ∀ w ∈ ws, w ∈ e.deltas := fun w hw => mem_replayed (List.mem_of_mem_take hw)
  have hlen : ws.length ≤ 361 :=
    calc ws.length
      _ ≤ (replayed e.deltas).length := List.length_take_le' (i + 1) _
      _ ≤ e.deltas.length * e.deltas.length := length_replayed_le e.deltas
      _ ≤ numDeltas * numDeltas := Nat.mul_le_mul h.few h.few
  have hlo := List.card_nsmul_le_sum ws deltaMin fun w hw => (h.stored w (hmem w hw)).1
  have hhi := List.sum_le_card_nsmul ws deltaMax fun w hw => (h.stored w (hmem w hw)).2
  have hlast := toNat_le_of_physical h.last
  have hmin : deltaMin = -2048 := by decide
  have hmax : deltaMax = 2047 := by decide
  rw [nsmul_eq_mul, hmin] at hlo
  rw [nsmul_eq_mul, hmax] at hhi
  exact ⟨ws, hmem, rfl, by omega, by omega⟩

/-- Among small integers the words up to `MAX_PHYS_MEM_ADDR` are the non-negative ones. -/
theorem toNat_ofInt_of_le {z : Int} (hlo : -2 ^ 29 < z) (hhi : z < 2 ^ 29)
    (h : BitVec.ofInt 64 z ≤ maxPhysMemAddr) : ((BitVec.ofInt 64 z).toNat : Int) = z := by
  have hle := toNat_le_of_physical h
  rw [BitVec.toNat_ofInt] at hle ⊢
  omega

/-- One access computes with integers: the delta is the difference of the two addresses, the
issued addresses are running sums of stored deltas, and no negative sum is issued. -/
structure Exact (s : State) (sim : Sim) (stat : AccessStat) : Prop where
  delta : toDelta (stat.memAddr - (s.table (slotOf stat.pc)).lastAddress) =
    (stat.memAddr.toNat : Int) - (s.table (slotOf stat.pc)).lastAddress.toNat
  candidates : deltaCorrelation ((s.table (slotOf stat.pc)).access stat.pc stat.memAddr) =
    (exactSums ((s.table (slotOf stat.pc)).access stat.pc stat.memAddr)).map (BitVec.ofInt 64)
  issued : ∀ a ∈ (prefetchAccess sim stat s).2,
    (a.toNat : Int) ∈ exactSums ((s.table (slotOf stat.pc)).access stat.pc stat.memAddr) ∧
      a.toNat ≤ (maxPhysMemAddr : Addr).toNat ∧
      ∃ ws : List Int, (∀ w ∈ ws, w ∈ ((s.table (slotOf stat.pc)).access stat.pc stat.memAddr).deltas) ∧
        (a.toNat : Int) =
          ((s.table (slotOf stat.pc)).access stat.pc stat.memAddr).lastAddress.toNat + ws.sum
  negative : ∀ z ∈ exactSums ((s.table (slotOf stat.pc)).access stat.pc stat.memAddr),
    z < 0 → BitVec.ofInt 64 z ∉ (prefetchAccess sim stat s).2

theorem exact_of_physical {s : State} {stat : AccessStat} (hrow : (s.table (slotOf stat.pc)).Physical)
    (hstat : stat.memAddr ≤ maxPhysMemAddr) (sim : Sim) : Exact s sim stat := by
  have hnext := hrow.access stat.pc hstat
  have hissued : ∀ a ∈ (prefetchAccess sim stat s).2, a ≤ maxPhysMemAddr :=
    fun a ha => ((prefetchAccess_spec sim stat s).2.2.2 a ha).1
  refine ⟨toDelta_physical hrow.last hstat, deltaCorrelation_exact _, ?_, ?_⟩
  · intro a ha
    have hcand := (issued_sublist sim stat s).subset ha
    rw [deltaCorrelation_exact] at hcand
    obtain ⟨z, hz, rfl⟩ := List.mem_map.1 hcand
    obtain ⟨ws, hws, hsum, hlo, hhi⟩ := hnext.mem_exactSums hz
    have hval := toNat_ofInt_of_le hlo hhi (hissued _ ha)
    refine ⟨hval.symm ▸ hz, hissued _ ha, ws, hws, ?_⟩
    rw [hval, hsum]
  · intro z hz hneg hmem
    obtain ⟨-, -, -, hlo, hhi⟩ := hnext.mem_exactSums hz
    have hval := toNat_ofInt_of_le hlo hhi (hissued _ hmem)
    omega

/-- One instruction going far up and back, whose deltas later lead below address 0. -/
def dip : List Event :=
  [1000, 2024, 1896, 1960, 128, 0].map fun addr => .access idleSim (accessAt addr)

/-- In every state reached by physical accesses the next one is exact; and a sum can be
negative, and left out, before a later one that is issued. -/
theorem arithmetic_exact :
    (∀ (evs : List Event) (sim : Sim) (stat : AccessStat), (∀ ev ∈ evs, ev.Physical) →
      stat.memAddr ≤ maxPhysMemAddr → Exact (run evs) sim stat) ∧
    ∃ (evs : List Event) (sim : Sim) (stat : AccessStat) (low high : Int) (before : List Int),
      (∀ ev ∈ evs, ev.Physical) ∧ stat.memAddr ≤ maxPhysMemAddr ∧
      exactSums (((run evs).table (slotOf stat.pc)).access stat.pc stat.memAddr) = before ++ [low, high] ∧
      low < 0 ∧ BitVec.ofInt 64 high ∈ (prefetchAccess sim stat (run evs)).2 := by
  refine ⟨fun evs sim stat hevs hstat => exact_of_physical (run_physical hevs _) hstat sim, ?_⟩
  exact ⟨dip, idleSim, accessAt 64, -64, 960, [], by decide, by decide, by decide, by decide, by decide⟩

theorem arithmetic_exact_walkDown :
    (∀ ev ∈ walkDown, ev.Physical) ∧ (accessAt 256).memAddr ≤ maxPhysMemAddr ∧
      Exact (run walkDown) idleSim (accessAt 256) :=
  ⟨by decide, by decide, arithmetic_exact.1 walkDown idleSim (accessAt 256) (by decide) (by decide)⟩

end PrefetchSim.Dcpt
