import Mathlib.Algebra.Ring.Int.Defs
import Mathlib.Data.List.Destutter
import PrefetchSim.Dcpt.Filter

/- What a table row remembers.

   `table_run`: a row is a fold of `Entry.access` over the accesses that map to
   it, so nothing else in a run can touch it. From this:
     1. `slot_refines`: rows are independent, and a first access takes a row
        over afresh, except for the instruction at pc 0, which the
        default-constructed row 0 takes for its owner;
     2. `delta_history`: the deltas of a row are the last `numDeltas` storable
        differences of the addresses its owner accessed, so exactly the last
        ones as long as none was too large to store. -/
namespace PrefetchSim.Dcpt

/-! ## Rows are independent -/

/-- The accesses of a run that map to a row. -/
def accessesTo (slot : Fin tableSize) (evs : List Event) : List AccessStat :=
  evs.filterMap fun
    | .access _ stat => if slotOf stat.pc = slot then some stat else none
    | .complete _ => none

/-- A row after the given accesses to it. -/
def Entry.accesses (e : Entry) (stats : List AccessStat) : Entry :=
  stats.foldl (fun e stat => e.access stat.pc stat.memAddr) e

theorem table_exec (slot : Fin tableSize) (evs : List Event) (s : State) :
    (Runs.exec step s evs).table slot = (s.table slot).accesses (accessesTo slot evs) := by
  induction evs generalizing s with
  | nil => rfl
  | cons ev evs ih =>
    rw [Runs.exec_cons, ih]
    cases ev with
    | complete addr => rfl
    | access sim stat =>
      by_cases hs : slotOf stat.pc = slot
      · simp [step, prefetchAccess_table, accessesTo, Entry.accesses, hs]
      · simp [step, prefetchAccess_table, accessesTo, hs, Function.update_of_ne (Ne.symm hs)]

theorem table_run (slot : Fin tableSize) (evs : List Event) :
    (run evs).table slot = ({} : Entry).accesses (accessesTo slot evs) :=
  table_exec slot evs initial

/-- The owner on record is the instruction that accessed the row last. -/
theorem accesses_pc (e : Entry) (stats : List AccessStat) :
    (e.accesses stats).pc = (stats.getLast?.map AccessStat.pc).getD e.pc := by
  induction stats using List.reverseRecOn with
  | nil => rfl
  | append_singleton stats stat _ => simp [Entry.accesses]

/-- An access to a row owned by another instruction takes it over. -/
theorem access_other {e : Entry} {pc : Addr} (h : e.pc ≠ pc) (addr : Addr) :
    e.access pc addr = { pc := pc, lastAddress := addr } := by
  simp [Entry.access, h]

/-- The first access of pc 0 to its default-constructed row. -/
theorem access_default_zero (addr : Addr) :
    ({} : Entry).access 0 addr = { lastAddress := addr } ↔
      ¬ (addr ≠ 0 ∧ storable (toDelta addr)) := by
  by_cases h0 : addr = 0#64
  · simp [Entry.access, h0]
  · by_cases hs : toDelta addr < deltaMin ∨ deltaMax < toDelta addr
    · have : storable (toDelta addr) = false := by simp [storable]; omega
      simp [Entry.access, Entry.insertDelta, h0, hs, this]
    · have : storable (toDelta addr) = true := by simp [storable]; omega
      simp [Entry.access, Entry.insertDelta, h0, hs, this, Window.push, numDeltas]

theorem issued_of_no_candidates {s : State} {stat : AccessStat} (h : candidates s stat = [])
    (sim : Sim) : (prefetchAccess sim stat s).2 = [] := by
  obtain ⟨-, h2⟩ := prefetchAccess_effect sim stat s
  rw [h2, h]
  rfl

theorem deltaCorrelation_of_short {e : Entry} (h : e.deltas.length < 2) : deltaCorrelation e = [] := by
  unfold deltaCorrelation
  split
  · rename_i heq
    have := congrArg List.length heq
    simp at this
    omega
  · rfl

/-- A first access predicts nothing: it finds a row of another instruction, or
the default row, which holds at most one delta afterwards. -/
theorem candidates_of_first {s : State} {stat : AccessStat}
    (h : (s.table (slotOf stat.pc)).pc ≠ stat.pc ∨ s.table (slotOf stat.pc) = {}) :
    candidates s stat = [] := by
  simp only [candidates]
  split
  · rename_i hd
    rcases h with h | h
    · exact absurd hd.1 h
    · apply deltaCorrelation_of_short
      rw [h]
      unfold Entry.access Entry.insertDelta
      repeat' split
      all_goals simp [Window.push, numDeltas]
  · rfl

/-- What a first access has to do: leave the row to the instruction alone, with
its address and nothing else, and issue no prefetch. -/
def TakesOver (s : State) (sim : Sim) (stat : AccessStat) : Prop :=
  (prefetchAccess sim stat s).1.table (slotOf stat.pc) =
      { pc := stat.pc, lastAddress := stat.memAddr, lastPrefetch := 0, deltas := [] } ∧
    (prefetchAccess sim stat s).2 = []

instance (s : State) (sim : Sim) (stat : AccessStat) : Decidable (TakesOver s sim stat) :=
  inferInstanceAs (Decidable (_ ∧ _))

/-- Rows are independent of each other and of the completed prefetches; and the
first access by an instruction takes the row over unless the row was never used,
the pc is 0 and the address itself is storable as a delta. -/
theorem slot_refines (slot : Fin tableSize) :
    (∀ evs evs', accessesTo slot evs = accessesTo slot evs' →
      (run evs).table slot = (run evs').table slot) ∧
    ∀ evs sim stat, slotOf stat.pc = slot →
      (∀ last ∈ (accessesTo slot evs).getLast?, last.pc ≠ stat.pc) →
      (TakesOver (run evs) sim stat ↔
        ¬ (accessesTo slot evs = [] ∧ stat.pc = 0 ∧ stat.memAddr ≠ 0 ∧
          storable (toDelta stat.memAddr))) := by
  refine ⟨fun evs evs' h => by rw [table_run, table_run, h], ?_⟩
  rintro evs sim stat rfl hlast
  have hrow := table_run (slotOf stat.pc) evs
  have hpc := accesses_pc {} (accessesTo (slotOf stat.pc) evs)
  rw [← hrow] at hpc
  -- either the row belongs to another instruction, or it is the default one and the pc is 0
  have hcases : (run evs).table (slotOf stat.pc) = {} ∧ stat.pc = 0 ∧
      accessesTo (slotOf stat.pc) evs = [] ∨
      ((run evs).table (slotOf stat.pc)).pc ≠ stat.pc ∧
        ¬ (accessesTo (slotOf stat.pc) evs = [] ∧ stat.pc = 0) := by
    cases hl : (accessesTo (slotOf stat.pc) evs).getLast? with
    | none =>
      have hnil := List.getLast?_eq_none_iff.mp hl
      rw [hnil] at hrow hpc
      by_cases hz : stat.pc = 0
      · exact Or.inl ⟨hrow, hz, hnil⟩
      · refine Or.inr ⟨?_, fun h => hz h.2⟩
        rw [hpc]
        exact Ne.symm hz
    | some last =>
      have hne := hlast last hl
      rw [hl] at hpc
      refine Or.inr ⟨by rw [hpc]; exact hne, fun h => ?_⟩
      rw [h.1] at hl
      simp at hl
  rw [TakesOver, prefetchAccess_table, Function.update_self]
  rcases hcases with ⟨hdef, hz, hnil⟩ | ⟨hne, hnot⟩
  · have hissue := issued_of_no_candidates (candidates_of_first (Or.inr hdef)) sim
    rw [hnil, hdef, hz, hissue]
    have h0 := access_default_zero stat.memAddr
    simpa using h0
  · have hissue := issued_of_no_candidates (candidates_of_first (Or.inl hne)) sim
    rw [access_other hne, hissue]
    simp only [and_self, true_iff]
    exact fun h => hnot ⟨h.1, h.2.1⟩

/-- Two accesses by an instruction that shares its row with the one at pc 1. -/
def formerOwner : List Event :=
  [.access idleSim { accessAt 64 with pc := 1 + BitVec.ofNat 64 tableSize },
    .access idleSim { accessAt 72 with pc := 1 + BitVec.ofNat 64 tableSize }]

/-- The instruction at pc 1 takes over the row of another one, with its delta. -/
theorem slot_refines_formerOwner :
    ((run formerOwner).table (slotOf 1)).deltas = [8] ∧ TakesOver (run formerOwner) idleSim (accessAt 8) :=
  ⟨by decide, ((slot_refines (slotOf 1)).2 formerOwner idleSim (accessAt 8) (by decide) (by decide)).mpr (by decide)⟩

/-- The instruction at pc 0 accessing address 8 first of all: the row comes out
with the delta 8 in it. -/
theorem slot_zero_not_fresh :
    accessesTo (slotOf 0) [] = [] ∧
      ¬ TakesOver (run []) idleSim { pc := 0, memAddr := 8, time := 0, miss := true } := by
  decide

/-! ## The deltas are a history -/

/-- The exact signed differences between consecutive addresses. -/
def differences : List Addr → List Int
  | a :: b :: rest => ((b.toNat : Int) - a.toNat) :: differences (b :: rest)
  | _ => []

/-- The accesses to a row end with `since`, all by the instruction at `pc`, which
took the row through the allocation branch: the owner on record before was another
one (pc 0 for the default row). -/
structure Owned (pc : Addr) (before since : List AccessStat) : Prop where
  nonempty : since ≠ []
  owner : ∀ stat ∈ since, stat.pc = pc
  taken : (before.getLast?.map AccessStat.pc).getD 0 ≠ pc

/-- The addresses accessed, immediate repetitions collapsed. -/
def addresses (since : List AccessStat) : List Addr :=
  (since.map AccessStat.memAddr).destutter (· ≠ ·)

/-- The narrowing to `int` is exact for differences that fit. -/
theorem toDelta_sub {a b : Addr} (hlo : -2 ^ 31 ≤ (b.toNat : Int) - a.toNat)
    (hhi : (b.toNat : Int) - a.toNat < 2 ^ 31) : toDelta (b - a) = (b.toNat : Int) - a.toNat := by
  have ha := a.isLt
  have hb := b.isLt
  simp only [toDelta, BitVec.toInt_setWidth, BitVec.toNat_sub, Int.bmod]
  omega

theorem destutter'_cons_head (a : Addr) (l : List Addr) :
    ∃ t, l.destutter' (· ≠ ·) a = a :: t := by
  induction l with
  | nil => exact ⟨[], rfl⟩
  | cons b l ih =>
    by_cases h : a = b
    · rw [List.destutter'_cons_neg _ (not_not.mpr h)]
      exact ih
    · rw [List.destutter'_cons_pos _ h]
      exact ⟨_, rfl⟩

/-- An access of the owner to a new address records it, and the difference if it
can be stored. -/
theorem access_owner {e : Entry} {addr : Addr} (hne : e.lastAddress ≠ addr)
    (hlo : -2 ^ 31 ≤ (addr.toNat : Int) - e.lastAddress.toNat)
    (hhi : (addr.toNat : Int) - e.lastAddress.toNat < 2 ^ 31) :
    e.access e.pc addr = { e with
      lastAddress := addr
      deltas := ([(addr.toNat : Int) - e.lastAddress.toNat].filter storable).foldl
        (Window.push numDeltas) e.deltas } := by
  simp only [Entry.access, ne_eq, not_true_eq_false, if_false, Ne.symm hne, not_false_iff, if_true,
    toDelta_sub hlo hhi, Entry.insertDelta]
  split
  · rename_i h
    have : storable ((addr.toNat : Int) - e.lastAddress.toNat) = false := by simp [storable]; omega
    simp [this]
  · rename_i h
    have : storable ((addr.toNat : Int) - e.lastAddress.toNat) = true := by simp [storable]; omega
    simp [this]

/-- A stretch of accesses by the owner pushes its storable differences. -/
theorem accesses_owner (stats : List AccessStat) (e : Entry) (hown : ∀ stat ∈ stats, stat.pc = e.pc)
    (hfit : ∀ d ∈ differences ((stats.map AccessStat.memAddr).destutter' (· ≠ ·) e.lastAddress),
      -2 ^ 31 ≤ d ∧ d < 2 ^ 31) :
    let as := (stats.map AccessStat.memAddr).destutter' (· ≠ ·) e.lastAddress
    (e.accesses stats).pc = e.pc ∧ as.getLast? = some (e.accesses stats).lastAddress ∧
      (e.accesses stats).deltas =
        ((differences as).filter storable).foldl (Window.push numDeltas) e.deltas := by
  induction stats generalizing e with
  | nil => simp [Entry.accesses, differences]
  | cons stat stats ih =>
    have hp : stat.pc = e.pc := hown stat (by simp)
    have hown' : ∀ st ∈ stats, st.pc = e.pc := fun st hst => hown st (by simp [hst])
    have hcons : e.accesses (stat :: stats) = (e.access e.pc stat.memAddr).accesses stats := by
      simp [Entry.accesses, hp]
    rw [hcons]
    simp only [List.map_cons] at hfit ⊢
    by_cases ha : e.lastAddress = stat.memAddr
    · -- an immediate repetition leaves the row as it is
      rw [List.destutter'_cons_neg _ (not_not.mpr ha)] at hfit ⊢
      rw [show e.access e.pc stat.memAddr = e by simp [Entry.access, ha]]
      exact ih e hown' hfit
    · obtain ⟨t, ht⟩ := destutter'_cons_head stat.memAddr (stats.map AccessStat.memAddr)
      have hdiff : differences (e.lastAddress ::
            (stats.map AccessStat.memAddr).destutter' (· ≠ ·) stat.memAddr) =
          ((stat.memAddr.toNat : Int) - e.lastAddress.toNat) ::
            differences ((stats.map AccessStat.memAddr).destutter' (· ≠ ·) stat.memAddr) := by
        rw [ht]; rfl
      rw [List.destutter'_cons_pos _ ha, hdiff] at hfit ⊢
      obtain ⟨hlo, hhi⟩ := hfit _ List.mem_cons_self
      rw [access_owner ha hlo hhi]
      obtain ⟨h1, h2, h3⟩ := ih { e with
        lastAddress := stat.memAddr
        deltas := ([(stat.memAddr.toNat : Int) - e.lastAddress.toNat].filter storable).foldl
          (Window.push numDeltas) e.deltas } hown' (fun d hd => hfit d (List.mem_cons_of_mem _ hd))
      refine ⟨h1, ?_, ?_⟩
      · rw [List.getLast?_cons, h2]
        rfl
      · rw [h3, ← List.foldl_append, ← List.filter_append]
        rfl

/-- The differences telescope. -/
theorem sum_differences (a last : Addr) (as : List Addr) (h : (a :: as).getLast? = some last) :
    (last.toNat : Int) - (differences (a :: as)).sum = a.toNat := by
  induction as generalizing a with
  | nil =>
    obtain rfl : a = last := by simpa using h
    simp [differences]
  | cons b as ih =>
    have := ih b (by simpa [List.getLast?_cons] using h)
    simp only [differences, List.sum_cons]
    omega

/-- Taking the sum of the last differences off the last address gives an address
of the list. -/
theorem sum_last_differences (as : List Addr) (last : Addr) (h : as.getLast? = some last) (n : Nat) :
    ∃ a ∈ as, (last.toNat : Int) - ((differences as).drop n).sum = a.toNat := by
  induction as generalizing n with
  | nil => simp at h
  | cons a as ih =>
    cases n with
    | zero => exact ⟨a, by simp, sum_differences a last as h⟩
    | succ n =>
      cases as with
      | nil => exact ⟨a, by simp, by simpa [differences] using sum_differences a last [] h⟩
      | cons b rest =>
        obtain ⟨c, hc, hs⟩ := ih (by simpa [List.getLast?_cons] using h) n
        exact ⟨c, List.mem_cons_of_mem _ hc, hs⟩

/-- For every run and every row taken through the allocation branch, as long as
the differences of consecutive addresses fit an `int`: the row holds the last
address and the last `numDeltas` of the storable differences, in order. Where
every difference is storable these are simply the last differences, and taking
their sum off the last address gives an address that was accessed. -/
theorem delta_history (evs : List Event) (slot : Fin tableSize) (pc : Addr)
    (before since : List AccessStat) (hsplit : accessesTo slot evs = before ++ since)
    (howned : Owned pc before since)
    (hfit : ∀ d ∈ differences (addresses since), -2 ^ 31 ≤ d ∧ d < 2 ^ 31) :
    let entry := (run evs).table slot
    entry.pc = pc ∧ (addresses since).getLast? = some entry.lastAddress ∧
    entry.deltas = ((differences (addresses since)).filter storable).rtake numDeltas ∧
    ((∀ d ∈ differences (addresses since), storable d) →
      entry.deltas = (differences (addresses since)).rtake numDeltas ∧
      ∃ a ∈ since.map AccessStat.memAddr, (entry.lastAddress.toNat : Int) - entry.deltas.sum = a.toNat) := by
  intro entry
  obtain ⟨stat, stats, rfl⟩ : ∃ stat stats, since = stat :: stats :=
    List.exists_cons_of_ne_nil howned.nonempty
  have hpc : stat.pc = pc := howned.owner stat (by simp)
  -- the first access of the stretch takes the row over
  have hfirst : (({} : Entry).accesses before).access stat.pc stat.memAddr =
      { pc := pc, lastAddress := stat.memAddr } := by
    rw [access_other _ stat.memAddr, hpc]
    rw [accesses_pc, hpc]
    exact howned.taken
  have hentry : entry = ({ pc := pc, lastAddress := stat.memAddr } : Entry).accesses stats := by
    simp only [entry]
    rw [table_run, hsplit, ← hfirst]
    simp [Entry.accesses]
  obtain ⟨h1, h2, h3⟩ := accesses_owner stats { pc := pc, lastAddress := stat.memAddr }
    (fun st hst => howned.owner st (by simp [hst])) hfit
  rw [← hentry] at h1 h2 h3
  change entry.deltas = ((differences (addresses (stat :: stats))).filter storable).foldl _ [] at h3
  rw [Window.pushAll_eq] at h3
  refine ⟨h1, h2, h3, fun hall => ?_⟩
  have hd : entry.deltas = (differences (addresses (stat :: stats))).rtake numDeltas := by
    rw [h3, List.filter_eq_self.mpr hall]
  refine ⟨hd, ?_⟩
  obtain ⟨a, ha, hs⟩ := sum_last_differences (addresses (stat :: stats)) entry.lastAddress h2
    ((differences (addresses (stat :: stats))).length - numDeltas)
  refine ⟨a, (List.destutter_sublist _ _).subset ha, ?_⟩
  rw [hd]
  exact hs

/-- Two accesses a page apart: the jump of 4096 bytes is not stored. -/
def farJump : List Event := [.access idleSim (accessAt 0), .access idleSim (accessAt 4096)]

/-- The history with its hypotheses at `farJump`. -/
theorem delta_history_farJump :
    Owned 1 [] [accessAt 0, accessAt 4096] ∧ ((run farJump).table (slotOf 1)).deltas = [] :=
  have howned : Owned 1 [] [accessAt 0, accessAt 4096] := ⟨by decide, by decide, by decide⟩
  ⟨howned, (delta_history farJump (slotOf 1) 1 [] [accessAt 0, accessAt 4096] (by decide) howned
    (by decide)).2.2.1⟩

/-- So the deltas are not always the last differences. -/
theorem delta_history_gap :
    ¬ ∀ (evs : List Event) (slot : Fin tableSize) (pc : Addr) (before since : List AccessStat),
      accessesTo slot evs = before ++ since → Owned pc before since →
      (addresses since).getLast? = some ((run evs).table slot).lastAddress ∧
      ((run evs).table slot).deltas = (differences (addresses since)).rtake numDeltas := by
  intro h
  exact absurd (h farJump (slotOf 1) 1 [] [accessAt 0, accessAt 4096] (by decide)
    ⟨by decide, by decide, by decide⟩).2 (by decide)

end PrefetchSim.Dcpt
