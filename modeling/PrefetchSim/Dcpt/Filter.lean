import Mathlib.Data.Finset.Dedup
import PrefetchSim.Dcpt.Prefetcher

/- What one `prefetch_access` marks in flight and what it issues.

   `prefetch_filter` marks a candidate's block in flight as it accepts the
   candidate; afterwards the accepted list can still be cleared (a later
   candidate equals `last_prefetch`) or cut short (degree, queue). `accepted`
   is the list without these cuts. `inFlight_exact_iff`: the blocks a call adds
   to `in_flight` are the blocks it issues exactly when none of the three cuts
   drops anything. `inFlight_not_exact` is a run in which the first one does. -/
namespace PrefetchSim.Dcpt

/-! ## Acceptance -/

/-- The `i`-th candidate `c` passes the tests of `prefetch_filter` against the blocks `fl`. -/
def Admissible (sim : Sim) (fl : Finset Addr) (i : Nat) (c : Addr) : Prop :=
  c ≤ maxPhysMemAddr ∧ toBlock c ∉ fl ∧ sim.inMshrQueue i c = false ∧ sim.inCache i c = false

instance (sim : Sim) (fl : Finset Addr) (i : Nat) (c : Addr) : Decidable (Admissible sim fl i c) :=
  inferInstanceAs (Decidable (_ ∧ _))

/-- The blocks of the admissible candidates, the first candidate being the `i`-th. -/
def freshBlocks (sim : Sim) (fl : Finset Addr) : Nat → List Addr → Finset Addr
  | _, [] => ∅
  | i, c :: cs =>
    if Admissible sim fl i c then insert (toBlock c) (freshBlocks sim fl (i + 1) cs)
    else freshBlocks sim fl (i + 1) cs

/-- The candidates `prefetch_filter` accepts, before it clears the list. -/
def accepted (sim : Sim) : Nat → List Addr → Finset Addr → List Addr
  | _, [], _ => []
  | i, c :: cs, fl =>
    if Admissible sim fl i c ∧ fl.card < maxQueueSize then
      c :: accepted sim (i + 1) cs (insert (toBlock c) fl)
    else accepted sim (i + 1) cs fl

theorem filterLoop_cons (sim : Sim) (lp : Addr) (i : Nat) (c : Addr) (cs : List Addr)
    (fl : Finset Addr) (ps : List Addr) :
    filterLoop sim lp i (c :: cs) fl ps =
      if Admissible sim fl i c ∧ fl.card < maxQueueSize then
        filterLoop sim lp (i + 1) cs (insert (toBlock c) fl) (if c = lp then [] else ps ++ [c])
      else filterLoop sim lp (i + 1) cs fl (if c = lp then [] else ps) := by
  have h : (c ≤ maxPhysMemAddr ∧ toBlock c ∉ fl ∧ sim.inMshrQueue i c = false ∧
      sim.inCache i c = false ∧ fl.card < maxQueueSize) ↔
      (Admissible sim fl i c ∧ fl.card < maxQueueSize) := by
    simp only [Admissible, and_assoc]
  simp only [filterLoop, h]
  split <;> rfl

theorem admissible_insert {sim : Sim} {fl : Finset Addr} {i : Nat} {b c : Addr} :
    Admissible sim (insert b fl) i c ↔ toBlock c ≠ b ∧ Admissible sim fl i c := by
  simp only [Admissible, Finset.mem_insert, not_or]
  tauto

/-- Marking one more block takes it out of the fresh ones. -/
theorem freshBlocks_insert (sim : Sim) (fl : Finset Addr) (b : Addr) (cs : List Addr) (i : Nat) :
    freshBlocks sim (insert b fl) i cs = (freshBlocks sim fl i cs).erase b := by
  induction cs generalizing i with
  | nil => rfl
  | cons c cs ih =>
    simp only [freshBlocks, admissible_insert, ih]
    by_cases hc : toBlock c = b
    · subst hc
      by_cases ha : Admissible sim fl i c <;> simp [ha, Finset.erase_insert_eq_erase]
    · by_cases ha : Admissible sim fl i c
      · simp [ha, hc, Finset.erase_insert_of_ne hc]
      · simp [ha]

theorem freshBlocks_cons_card {sim : Sim} {fl : Finset Addr} {i : Nat} {c : Addr}
    (h : Admissible sim fl i c) (cs : List Addr) :
    (freshBlocks sim fl i (c :: cs)).card =
      (freshBlocks sim (insert (toBlock c) fl) (i + 1) cs).card + 1 := by
  rw [freshBlocks_insert, freshBlocks, if_pos h,
    ← Finset.erase_insert_eq_erase (freshBlocks sim fl (i + 1) cs) (toBlock c),
    Finset.card_erase_add_one (Finset.mem_insert_self _ _)]

/-! ## The filter against the accepted list -/

theorem filterLoop_inFlight (sim : Sim) (lp : Addr) (cs : List Addr) (i : Nat)
    (fl : Finset Addr) (ps : List Addr) :
    (filterLoop sim lp i cs fl ps).1 = fl ∪ ((accepted sim i cs fl).map toBlock).toFinset := by
  induction cs generalizing i fl ps with
  | nil => simp [filterLoop, accepted]
  | cons c cs ih =>
    rw [filterLoop_cons]
    by_cases h : Admissible sim fl i c ∧ fl.card < maxQueueSize
    · simp [h, accepted, ih]
    · simp only [h, if_false, accepted, ih]

/-- The accepted blocks are distinct and were not in flight. -/
theorem accepted_blocks (sim : Sim) (cs : List Addr) (i : Nat) (fl : Finset Addr) :
    ((accepted sim i cs fl).map toBlock).Nodup ∧ ∀ c ∈ accepted sim i cs fl, toBlock c ∉ fl := by
  induction cs generalizing i fl with
  | nil => simp [accepted]
  | cons c cs ih =>
    simp only [accepted]
    split
    · rename_i h
      obtain ⟨hn, hf⟩ := ih (i + 1) (insert (toBlock c) fl)
      refine ⟨?_, ?_⟩
      · rw [List.map_cons, List.nodup_cons]
        refine ⟨fun hm => ?_, hn⟩
        obtain ⟨d, hd, hdc⟩ := List.mem_map.mp hm
        exact hf d hd (by rw [hdc]; exact Finset.mem_insert_self _ _)
      · intro d hd
        rcases List.mem_cons.mp hd with rfl | hd
        · exact h.1.2.1
        · exact fun hm => hf d hd (Finset.mem_insert_of_mem hm)
    · exact ih (i + 1) fl

theorem accepted_length (sim : Sim) (cs : List Addr) (i : Nat) (fl : Finset Addr) :
    (accepted sim i cs fl).length =
      min (freshBlocks sim fl i cs).card (maxQueueSize - fl.card) := by
  induction cs generalizing i fl with
  | nil => simp [accepted, freshBlocks]
  | cons c cs ih =>
    simp only [accepted]
    split
    · rename_i h
      have hcard : (insert (toBlock c) fl).card = fl.card + 1 :=
        Finset.card_insert_of_notMem h.1.2.1
      rw [List.length_cons, ih, hcard, freshBlocks_cons_card h.1]
      omega
    · rename_i h
      rw [ih]
      by_cases ha : Admissible sim fl i c
      · -- no room: nothing more is accepted on either side
        have : ¬ fl.card < maxQueueSize := fun hr => h ⟨ha, hr⟩
        omega
      · simp [freshBlocks, ha]

/-- The filter returns an end piece of what it accepted. -/
theorem filterLoop_suffix (sim : Sim) (lp : Addr) (cs : List Addr) (i : Nat)
    (fl : Finset Addr) (ps : List Addr) :
    (filterLoop sim lp i cs fl ps).2 <:+ ps ++ accepted sim i cs fl := by
  induction cs generalizing i fl ps with
  | nil => simp [filterLoop, accepted]
  | cons c cs ih =>
    rw [filterLoop_cons]
    simp only [accepted]
    split
    · refine (ih _ _ _).trans ?_
      split
      · exact ⟨ps ++ [c], by simp⟩
      · exact ⟨[], by simp⟩
    · refine (ih _ _ _).trans ?_
      split
      · exact ⟨ps, by simp⟩
      · exact List.suffix_rfl

/-- Whether anything is accepted among the first candidates. -/
theorem accepted_eq_nil_iff (sim : Sim) (cs : List Addr) (i : Nat) (fl : Finset Addr) :
    accepted sim i cs fl = [] ↔ maxQueueSize ≤ fl.card ∨ freshBlocks sim fl i cs = ∅ := by
  rw [← List.length_eq_zero_iff, accepted_length, ← Finset.card_eq_zero]
  omega

/-- Splitting a list at an occurrence of `x`: at its head or further on. -/
theorem forall_split_cons {α : Type*} {c x : α} {cs : List α} {Q : List α → Prop} :
    (∀ pre post, c :: cs = pre ++ x :: post → Q pre) ↔
      (c = x → Q []) ∧ ∀ pre post, cs = pre ++ x :: post → Q (c :: pre) := by
  constructor
  · intro h
    exact ⟨fun hc => h [] cs (by rw [hc]; rfl), fun pre post hs => h (c :: pre) post (by rw [hs]; rfl)⟩
  · rintro ⟨h0, h⟩ pre post hs
    cases pre with
    | nil => exact h0 (List.cons.inj hs).1
    | cons d pre =>
      obtain ⟨rfl, hs'⟩ := List.cons.inj hs
      exact h pre post hs'

/-- Nothing accepted is lost in the filter exactly when every candidate equal to
`last_prefetch` comes before the first accepted one. -/
theorem filterLoop_length_iff (sim : Sim) (lp : Addr) (cs : List Addr) (i : Nat)
    (fl : Finset Addr) (ps : List Addr) :
    (filterLoop sim lp i cs fl ps).2.length = (ps ++ accepted sim i cs fl).length ↔
      ∀ pre post, cs = pre ++ lp :: post → ps ++ accepted sim i (pre ++ [lp]) fl = [] := by
  induction cs generalizing i fl ps with
  | nil => simp [filterLoop, accepted]
  | cons c cs ih =>
    have hlen (i : Nat) (fl : Finset Addr) (ps : List Addr) :=
      (filterLoop_suffix sim lp cs i fl ps).length_le
    rw [filterLoop_cons, forall_split_cons]
    by_cases h : Admissible sim fl i c ∧ fl.card < maxQueueSize
    · by_cases hc : c = lp
      · -- the list, with `c` in it, is cleared
        subst hc
        have := hlen (i + 1) (insert (toBlock c) fl) []
        simp [h, accepted] at this ⊢
        omega
      · simp only [h, and_self, if_true, hc, if_false, accepted, List.cons_append, false_implies,
          true_and]
        rw [show ps ++ c :: accepted sim (i + 1) cs (insert (toBlock c) fl) =
          (ps ++ [c]) ++ accepted sim (i + 1) cs (insert (toBlock c) fl) by simp, ih]
        simp
    · by_cases hc : c = lp
      · subst hc
        by_cases hps : ps = []
        · simpa [h, hps, accepted] using ih (i + 1) fl []
        · have h1 := hlen (i + 1) fl []
          have h2 := List.length_pos_of_ne_nil hps
          simp [h, hps, accepted] at h1 ⊢
          omega
      · simpa [h, hc, accepted] using ih (i + 1) fl ps

/-! ## The issue loop -/

theorem issueLoop_front (sim : Sim) (ps : List Addr) (k : Nat) : issueLoop sim k ps <+: ps := by
  induction ps generalizing k with
  | nil => exact List.prefix_rfl
  | cons p ps ih =>
    simp only [issueLoop]
    split
    · exact List.nil_prefix
    · exact List.prefix_cons_inj p |>.mpr (ih (k + 1))

theorem issueLoop_length_le (sim : Sim) (ps : List Addr) (k : Nat) :
    (issueLoop sim k ps).length ≤ maxDegree - k := by
  induction ps generalizing k with
  | nil => exact Nat.zero_le _
  | cons p ps ih =>
    rw [issueLoop]
    split
    · exact Nat.zero_le _
    · rename_i hroom
      have hrest := ih (k + 1)
      rw [List.length_cons]
      omega

/-- Everything is issued exactly when neither limit is met on the way. -/
theorem issueLoop_length_iff (sim : Sim) (ps : List Addr) (k : Nat) :
    (issueLoop sim k ps).length = ps.length ↔
      ∀ j, k ≤ j → j < k + ps.length → sim.currentQueueSize j < maxQueueSize ∧ j < maxDegree := by
  induction ps generalizing k with
  | nil => simp [issueLoop]; omega
  | cons p ps ih =>
    simp only [issueLoop]
    split
    · rename_i h
      simp only [List.length_nil, List.length_cons]
      constructor
      · intro he; omega
      · intro he
        have := he k (Nat.le_refl k) (by omega)
        omega
    · rename_i h
      simp only [List.length_cons, Nat.add_right_cancel_iff, ih]
      constructor
      · intro he j hj hj'
        rcases Nat.eq_or_lt_of_le hj with rfl | hj
        · omega
        · exact he j hj (by omega)
      · intro he j hj hj'
        exact he j (by omega) (by omega)

/-! ## In-flight bookkeeping of one call -/

/-- Whatever is accepted passed the tests, also against the blocks at the start. -/
theorem accepted_admissible (sim : Sim) (cs : List Addr) (i : Nat) (fl : Finset Addr) :
    ∀ c ∈ accepted sim i cs fl, ∃ j, Admissible sim fl j c := by
  induction cs generalizing i fl with
  | nil => simp [accepted]
  | cons c cs ih =>
    simp only [accepted]
    split
    · rename_i h
      intro d hd
      rcases List.mem_cons.1 hd with rfl | hd
      · exact ⟨i, h.1⟩
      · obtain ⟨j, hj⟩ := ih (i + 1) _ d hd
        exact ⟨j, (admissible_insert.1 hj).2⟩
    · exact ih (i + 1) fl

theorem accepted_sublist (sim : Sim) (cs : List Addr) (i : Nat) (fl : Finset Addr) :
    (accepted sim i cs fl).Sublist cs := by
  induction cs generalizing i fl with
  | nil => exact List.Sublist.slnil
  | cons c cs ih =>
    simp only [accepted]
    split
    · exact (ih _ _).cons_cons c
    · exact (ih _ _).cons c

/-- What is issued was accepted. -/
theorem issued_accepted (sim : Sim) (stat : AccessStat) (s : State) :
    (prefetchAccess sim stat s).2.Sublist (accepted sim 0 (candidates s stat) s.inFlight) := by
  rw [(prefetchAccess_effect sim stat s).2]
  exact (issueLoop_front sim _ 0).sublist.trans (filterLoop_suffix sim _ _ 0 s.inFlight []).sublist

/-- The blocks one access marks. -/
theorem prefetchAccess_inFlight (sim : Sim) (stat : AccessStat) (s : State) :
    (prefetchAccess sim stat s).1.inFlight =
      s.inFlight ∪ ((accepted sim 0 (candidates s stat) s.inFlight).map toBlock).toFinset :=
  (prefetchAccess_effect sim stat s).1.trans (filterLoop_inFlight sim _ _ 0 s.inFlight [])

/-- What one access marks and issues: the new blocks are distinct, were not in
flight and are now, and the bound on `in_flight` is kept. -/
theorem prefetchAccess_spec (sim : Sim) (stat : AccessStat) (s : State) :
    let r := prefetchAccess sim stat s
    s.inFlight ⊆ r.1.inFlight ∧ (s.inFlight.card ≤ maxQueueSize → r.1.inFlight.card ≤ maxQueueSize) ∧
      (r.2.map toBlock).Nodup ∧
      ∀ a ∈ r.2, a ≤ maxPhysMemAddr ∧ toBlock a ∉ s.inFlight ∧ toBlock a ∈ r.1.inFlight := by
  intro r
  have hmarks := prefetchAccess_inFlight sim stat s
  set cs := candidates s stat
  obtain ⟨hnodup, hfresh⟩ := accepted_blocks sim cs 0 s.inFlight
  have hissued := issued_accepted sim stat s
  refine ⟨?_, ?_, hnodup.sublist (hissued.map toBlock), ?_⟩
  · rw [hmarks]
    exact Finset.subset_union_left
  · intro hcard
    have hlen := accepted_length sim cs 0 s.inFlight
    have hunion := Finset.card_union_le s.inFlight ((accepted sim 0 cs s.inFlight).map toBlock).toFinset
    have himage := List.toFinset_card_le ((accepted sim 0 cs s.inFlight).map toBlock)
    rw [List.length_map] at himage
    rw [hmarks]
    omega
  · intro a ha
    have hacc := hissued.subset ha
    obtain ⟨j, hadm⟩ := accepted_admissible sim cs 0 s.inFlight a hacc
    refine ⟨hadm.1, hfresh a hacc, ?_⟩
    rw [hmarks]
    exact Finset.mem_union_right _ (List.mem_toFinset.2 (List.mem_map_of_mem hacc))

/-- All marks are blocks. -/
def State.Aligned (s : State) : Prop := ∀ b ∈ s.inFlight, toBlock b = b

theorem prefetchAccess_aligned (sim : Sim) (stat : AccessStat) {s : State} (hs : s.Aligned) :
    (prefetchAccess sim stat s).1.Aligned := by
  intro b hb
  rw [prefetchAccess_inFlight] at hb
  rcases Finset.mem_union.1 hb with hb | hb
  · exact hs b hb
  · obtain ⟨a, -, rfl⟩ := List.mem_map.1 (List.mem_toFinset.1 hb)
    exact toBlock_toBlock a

/-- The blocks a call adds to `in_flight` are the blocks it issues. -/
def InFlightExact (s : State) (sim : Sim) (stat : AccessStat) : Prop :=
  (prefetchAccess sim stat s).1.inFlight \ s.inFlight =
    ((prefetchAccess sim stat s).2.map toBlock).toFinset

instance (s : State) (sim : Sim) (stat : AccessStat) : Decidable (InFlightExact s sim stat) :=
  inferInstanceAs (Decidable (_ = _))

/-- How many blocks the call has to mark: the distinct blocks of the admissible
candidates, as far as `in_flight` has room. -/
def markable (s : State) (sim : Sim) (stat : AccessStat) : Nat :=
  min (freshBlocks sim s.inFlight 0 (candidates s stat)).card (maxQueueSize - s.inFlight.card)

/-- None of the three cuts drops an accepted candidate. -/
structure NothingDropped (s : State) (sim : Sim) (stat : AccessStat) : Prop where
  degree : markable s sim stat ≤ maxDegree
  queue : ∀ k < markable s sim stat, sim.currentQueueSize k < maxQueueSize
  clear : ∀ pre post,
    candidates s stat = pre ++ (s.table (slotOf stat.pc)).lastPrefetch :: post →
    maxQueueSize ≤ s.inFlight.card ∨
      freshBlocks sim s.inFlight 0 (pre ++ [(s.table (slotOf stat.pc)).lastPrefetch]) = ∅

/-- Against a list with distinct images, a sublist has the same images exactly
when it is as long. -/
theorem image_eq_iff_length {α β : Type*} [DecidableEq β] {f : α → β} {l₁ l₂ : List α}
    (hs : l₁.Sublist l₂) (hn : (l₂.map f).Nodup) :
    (l₂.map f).toFinset = (l₁.map f).toFinset ↔ l₁.length = l₂.length := by
  constructor
  · intro h
    have h1 := List.toFinset_card_of_nodup hn
    have h2 := List.toFinset_card_of_nodup (hn.sublist (hs.map f))
    rw [h, h2] at h1
    simpa using h1
  · intro h
    rw [hs.eq_of_length h]

/-- For every state, access and answers: the bookkeeping of the call is exact
exactly when none of the cuts drops anything. -/
theorem inFlight_exact_iff (s : State) (sim : Sim) (stat : AccessStat) :
    InFlightExact s sim stat ↔ NothingDropped s sim stat := by
  obtain ⟨h1, h2⟩ := prefetchAccess_effect sim stat s
  set lp := (s.table (slotOf stat.pc)).lastPrefetch with hlp
  set cs := candidates s stat with hcs
  set acc := accepted sim 0 cs s.inFlight with hacc
  set out := (filterLoop sim lp 0 cs s.inFlight []).2 with hout
  obtain ⟨hnodup, hfresh⟩ := accepted_blocks sim cs 0 s.inFlight
  have hlen : acc.length = markable s sim stat := accepted_length sim cs 0 s.inFlight
  have hadd : (prefetchAccess sim stat s).1.inFlight \ s.inFlight = (acc.map toBlock).toFinset := by
    rw [h1, prefetchFilter, filterLoop_inFlight, Finset.union_sdiff_left]
    refine Finset.sdiff_eq_self_of_disjoint (Finset.disjoint_left.mpr fun b hb => ?_)
    obtain ⟨c, hc, rfl⟩ := List.mem_map.mp (List.mem_toFinset.mp hb)
    exact hfresh c hc
  have hsuf : out <:+ acc := filterLoop_suffix sim lp cs 0 s.inFlight []
  have hpre : issueLoop sim 0 out <+: out := issueLoop_front sim out 0
  have hcut : out.length = acc.length ↔ _ := filterLoop_length_iff sim lp cs 0 s.inFlight []
  simp only [List.nil_append, accepted_eq_nil_iff] at hcut
  rw [InFlightExact, hadd, h2]
  change (acc.map toBlock).toFinset = ((issueLoop sim 0 out).map toBlock).toFinset ↔ _
  rw [image_eq_iff_length (hpre.sublist.trans hsuf.sublist) hnodup]
  constructor
  · intro h
    have hout_le := hsuf.length_le
    have hiss_le := hpre.length_le
    have hall := (issueLoop_length_iff sim out 0).mp (by omega)
    have houtlen : out.length = markable s sim stat := by omega
    refine ⟨?_, fun k hk => (hall k (by omega) (by omega)).1, hcut.mp (by omega)⟩
    by_contra hd
    have := hall maxDegree (by omega) (by omega)
    omega
  · intro h
    have houtlen := hcut.mpr h.clear
    have hdeg := h.degree
    rw [(issueLoop_length_iff sim out 0).mpr, houtlen]
    intro j _ hj
    exact ⟨h.queue j (by omega), by omega⟩

/-- A simulator with an empty cache, no outstanding miss and an empty queue. -/
def idleSim : Sim :=
  { inCache := fun _ _ => false, inMshrQueue := fun _ _ => false, currentQueueSize := fun _ => 0 }

/-- An access by the instruction at pc 1. -/
def accessAt (addr : Addr) : AccessStat := { pc := 1, memAddr := addr, time := 0, miss := true }

/-- One instruction walking down towards address 0 in steps of 256 bytes. -/
def walkDown : List Event :=
  [.access idleSim (accessAt 1024), .access idleSim (accessAt 768), .access idleSim (accessAt 512)]

/-- The next step of the walk predicts address 0, which is also the value of a
`last_prefetch` never set: block 0 is marked in flight and the list cleared. -/
theorem inFlight_not_exact :
    Reachable (run walkDown) ∧ ¬ InFlightExact (run walkDown) idleSim (accessAt 256) :=
  ⟨⟨walkDown, rfl⟩, by decide⟩

end PrefetchSim.Dcpt
