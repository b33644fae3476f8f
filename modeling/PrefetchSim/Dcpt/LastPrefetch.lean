import PrefetchSim.Dcpt.Filter

/- `last_prefetch`, the address `prefetch_filter` reads to leave out the part of
   the predicted stream that was issued before. The filter honours it
   (`filterLoop_afterLast`), but nothing ever writes it: it is 0 in every
   reachable row. So along a run the field is right exactly as long as nothing
   is issued (`last_prefetch_iff`). -/
namespace PrefetchSim.Dcpt

/-! ## The filter and the last occurrence -/

/-- The part of a list after the last occurrence of `x`, all of it if there is none. -/
def afterLast (x : Addr) : List Addr → List Addr
  | [] => []
  | c :: cs => if x ∈ cs then afterLast x cs else if c = x then cs else c :: cs

theorem afterLast_of_notMem {x : Addr} {cs : List Addr} (h : x ∉ cs) : afterLast x cs = cs := by
  cases cs with
  | nil => rfl
  | cons c cs =>
    simp only [List.mem_cons, not_or] at h
    simp [afterLast, h.2, Ne.symm h.1]

theorem notMem_afterLast (x : Addr) (cs : List Addr) : x ∉ afterLast x cs := by
  induction cs with
  | nil => simp [afterLast]
  | cons c cs ih =>
    simp only [afterLast]
    split
    · exact ih
    · rename_i h
      split
      · exact h
      · rename_i hc
        simp only [List.mem_cons, not_or]
        exact ⟨Ne.symm hc, h⟩

/-- What the filter returns comes after the last candidate equal to `last_prefetch`. -/
theorem filterLoop_afterLast (sim : Sim) (lp : Addr) (cs : List Addr) (i : Nat)
    (fl : Finset Addr) (ps : List Addr) :
    ((filterLoop sim lp i cs fl ps).2).Sublist ((if lp ∈ cs then [] else ps) ++ afterLast lp cs) := by
  induction cs generalizing i fl ps with
  | nil => simp [filterLoop, afterLast]
  | cons c cs ih =>
    rw [filterLoop_cons]
    by_cases hm : lp ∈ cs
    · have hih (i : Nat) (fl : Finset Addr) (ps : List Addr) := ih i fl ps
      simp only [hm, if_true, List.nil_append] at hih
      simp only [afterLast, hm, List.mem_cons, or_true, if_true, List.nil_append]
      split <;> exact hih _ _ _
    · have hih (i : Nat) (fl : Finset Addr) (ps : List Addr) := ih i fl ps
      simp only [hm, if_false, afterLast_of_notMem hm] at hih
      by_cases hc : c = lp
      · subst hc
        simp only [afterLast, hm, if_true, if_false, List.mem_cons, true_or, List.nil_append]
        split <;> simpa using hih _ _ []
      · simp only [afterLast, hm, hc, if_false, List.mem_cons, Ne.symm hc, or_self]
        split
        · simpa using hih _ _ (ps ++ [c])
        · exact (hih _ _ ps).trans (List.Sublist.append_left (List.sublist_cons_self c cs) ps)

/-! ## When the filter offers anything -/

/-- Some candidate is accepted and not cleared afterwards: it is admissible, its
block is not one of the earlier ones, `in_flight` still has room for it, and
neither it nor a later candidate equals `last_prefetch`. -/
def Offers (sim : Sim) (lp : Addr) (fl : Finset Addr) (i : Nat) (cs : List Addr) : Prop :=
  ∃ pre c post, cs = pre ++ c :: post ∧ lp ∉ c :: post ∧ Admissible sim fl (i + pre.length) c ∧
    toBlock c ∉ freshBlocks sim fl i pre ∧ fl.card + (freshBlocks sim fl i pre).card < maxQueueSize

theorem not_offers_of_full {sim : Sim} {lp : Addr} {fl : Finset Addr} {i : Nat} {cs : List Addr}
    (h : maxQueueSize ≤ fl.card) : ¬ Offers sim lp fl i cs := by
  rintro ⟨pre, c, post, -, -, -, -, hroom⟩
  omega

theorem offers_cons_of_not_admissible {sim : Sim} {lp : Addr} {fl : Finset Addr} {i : Nat} {c : Addr}
    (h : ¬ Admissible sim fl i c) (cs : List Addr) :
    Offers sim lp fl i (c :: cs) ↔ Offers sim lp fl (i + 1) cs := by
  constructor
  · rintro ⟨pre, d, post, hs, hlp, ha, hb, hroom⟩
    cases pre with
    | nil =>
      obtain ⟨rfl, -⟩ := List.cons.inj hs
      exact absurd ha h
    | cons e pre =>
      obtain ⟨rfl, hs'⟩ := List.cons.inj hs
      simp only [freshBlocks, h, if_false] at hb hroom
      exact ⟨pre, d, post, hs', hlp, by simpa [Nat.add_assoc, Nat.add_comm 1] using ha, hb, hroom⟩
  · rintro ⟨pre, d, post, hs, hlp, ha, hb, hroom⟩
    refine ⟨c :: pre, d, post, by rw [hs]; rfl, hlp, ?_, ?_, ?_⟩
    · simpa [Nat.add_assoc, Nat.add_comm 1] using ha
    · simpa [freshBlocks, h] using hb
    · simpa [freshBlocks, h] using hroom

theorem offers_cons_of_accepted {sim : Sim} {lp : Addr} {fl : Finset Addr} {i : Nat} {c : Addr}
    (h : Admissible sim fl i c) (hroom : fl.card < maxQueueSize) (cs : List Addr) :
    Offers sim lp fl i (c :: cs) ↔
      lp ∉ c :: cs ∨ Offers sim lp (insert (toBlock c) fl) (i + 1) cs := by
  have hcard : (insert (toBlock c) fl).card = fl.card + 1 := Finset.card_insert_of_notMem h.2.1
  -- a candidate is fresh after `c` exactly when it is fresh against the larger set
  have hiff (pre : List Addr) (d : Addr) :
      (Admissible sim fl (i + (c :: pre).length) d ∧ toBlock d ∉ freshBlocks sim fl i (c :: pre) ∧
        fl.card + (freshBlocks sim fl i (c :: pre)).card < maxQueueSize) ↔
      (Admissible sim (insert (toBlock c) fl) (i + 1 + pre.length) d ∧
        toBlock d ∉ freshBlocks sim (insert (toBlock c) fl) (i + 1) pre ∧
        (insert (toBlock c) fl).card + (freshBlocks sim (insert (toBlock c) fl) (i + 1) pre).card <
          maxQueueSize) := by
    rw [freshBlocks_cons_card h, hcard, admissible_insert, freshBlocks_insert, freshBlocks, if_pos h,
      List.length_cons, show i + (pre.length + 1) = i + 1 + pre.length by omega]
    simp only [Finset.mem_insert, Finset.mem_erase, not_or, not_and, ne_eq]
    constructor
    · rintro ⟨ha, ⟨hne, hb⟩, hr⟩
      exact ⟨⟨hne, ha⟩, fun _ => hb, by omega⟩
    · rintro ⟨⟨hne, ha⟩, hb, hr⟩
      exact ⟨ha, ⟨hne, hb hne⟩, by omega⟩
  constructor
  · rintro ⟨pre, d, post, hs, hlp, hrest⟩
    cases pre with
    | nil =>
      left
      rw [hs]
      exact hlp
    | cons e pre =>
      obtain ⟨rfl, hs'⟩ := List.cons.inj hs
      exact Or.inr ⟨pre, d, post, hs', hlp, (hiff pre d).mp hrest⟩
  · rintro (hlp | ⟨pre, d, post, hs, hlp, hrest⟩)
    · exact ⟨[], c, cs, rfl, hlp, h, by simp [freshBlocks], by simpa [freshBlocks] using hroom⟩
    · exact ⟨c :: pre, d, post, by rw [hs]; rfl, hlp, (hiff pre d).mpr hrest⟩

theorem filterLoop_ne_nil_iff (sim : Sim) (lp : Addr) (cs : List Addr) (i : Nat)
    (fl : Finset Addr) (ps : List Addr) :
    (filterLoop sim lp i cs fl ps).2 ≠ [] ↔ (ps ≠ [] ∧ lp ∉ cs) ∨ Offers sim lp fl i cs := by
  induction cs generalizing i fl ps with
  | nil => simp [filterLoop, Offers]
  | cons c cs ih =>
    rw [filterLoop_cons]
    by_cases ha : Admissible sim fl i c
    · by_cases hr : fl.card < maxQueueSize
      · rw [if_pos ⟨ha, hr⟩, ih, offers_cons_of_accepted ha hr]
        by_cases hc : c = lp
        · simp [hc]
        · simp [hc, Ne.symm hc]
          tauto
      · have hfull : ¬ (Admissible sim fl i c ∧ fl.card < maxQueueSize) := fun h => hr h.2
        rw [if_neg hfull, ih]
        have h0 (i : Nat) (cs : List Addr) : ¬ Offers sim lp fl i cs :=
          not_offers_of_full (Nat.le_of_not_lt hr)
        by_cases hc : c = lp
        · simp [hc, h0]
        · simp [hc, Ne.symm hc, h0]
    · rw [if_neg (fun h => ha h.1), ih, offers_cons_of_not_admissible ha]
      by_cases hc : c = lp
      · simp [hc]
      · simp [hc, Ne.symm hc]

/-! ## The field along a run -/

/-- A run's state with, for each row, the last address issued on its behalf since
it was allocated (0 if there is none). -/
structure Traced where
  state : State
  lastIssued : Fin tableSize → Addr

def Traced.initial : Traced := { state := Dcpt.initial, lastIssued := fun _ => 0 }

def Traced.step (t : Traced) (ev : Event) : Traced :=
  { state := Dcpt.step t.state ev
    lastIssued := match ev with
      | .access sim stat =>
        if (t.state.table (slotOf stat.pc)).pc ≠ stat.pc then
          Function.update t.lastIssued (slotOf stat.pc) 0
        else match (prefetchAccess sim stat t.state).2.getLast? with
          | some addr => Function.update t.lastIssued (slotOf stat.pc) addr
          | none => t.lastIssued
      | .complete _ => t.lastIssued }

/-- Every row's `last_prefetch` is the last address issued on its behalf. -/
def Traced.Right (t : Traced) : Prop :=
  ∀ slot, (t.state.table slot).lastPrefetch = t.lastIssued slot

/-- The access finds nothing to issue: no candidate survives the filter, or the
queue is full at the first question. -/
def Traced.Quiet (t : Traced) : Event → Prop
  | .access sim stat =>
    maxQueueSize ≤ sim.currentQueueSize 0 ∨
      ¬ Offers sim (t.state.table (slotOf stat.pc)).lastPrefetch t.state.inFlight 0
        (candidates t.state stat)
  | .complete _ => True

/-- The field has never been written. -/
def Traced.Unset (t : Traced) : Prop := ∀ slot, (t.state.table slot).lastPrefetch = 0

@[simp] theorem access_lastPrefetch {e : Entry} (h : e.lastPrefetch = 0) (pc addr : Addr) :
    (e.access pc addr).lastPrefetch = 0 := by
  unfold Entry.access
  split
  · rfl
  · split
    · simpa using h
    · exact h

theorem unset_step {t : Traced} (h : t.Unset) (ev : Event) : (t.step ev).Unset := by
  intro slot
  cases ev with
  | complete addr => exact h slot
  | access sim stat =>
    simp only [Traced.step, Dcpt.step, prefetchAccess_table, Function.update_apply]
    split
    · exact access_lastPrefetch (h _) _ _
    · exact h slot

theorem issued_eq_nil_iff (t : Traced) (sim : Sim) (stat : AccessStat) :
    (prefetchAccess sim stat t.state).2 = [] ↔ t.Quiet (.access sim stat) := by
  obtain ⟨-, h2⟩ := prefetchAccess_effect sim stat t.state
  have hf := filterLoop_ne_nil_iff sim (t.state.table (slotOf stat.pc)).lastPrefetch
    (candidates t.state stat) 0 t.state.inFlight []
  simp only [ne_eq, not_true_eq_false, false_and, false_or] at hf
  rw [h2, issuePrefetches, prefetchFilter, Traced.Quiet, ← hf, not_not]
  generalize (filterLoop sim _ 0 (candidates t.state stat) t.state.inFlight []).2 = out
  cases out with
  | nil => simp [issueLoop]
  | cons p ps =>
    simp only [issueLoop]
    split
    · rename_i h
      simpa [maxDegree, numDeltas] using h
    · rename_i h
      simp only [reduceCtorEq, or_false, false_iff]
      omega

/-- What is issued comes after the last candidate equal to `last_prefetch`. -/
theorem issued_ne_lastPrefetch (sim : Sim) (stat : AccessStat) (s : State) {addr : Addr}
    (h : addr ∈ (prefetchAccess sim stat s).2) :
    addr ≠ (s.table (slotOf stat.pc)).lastPrefetch := by
  obtain ⟨-, h2⟩ := prefetchAccess_effect sim stat s
  rw [h2] at h
  have h := (issueLoop_front sim _ 0).subset h
  have h := (filterLoop_afterLast sim _ _ 0 s.inFlight []).subset h
  rintro rfl
  simp only [ite_self, List.nil_append] at h
  exact notMem_afterLast _ _ h

/-- A step from a right state leads to a right state exactly when it is quiet:
an issued address is never 0, the value the field keeps. -/
theorem right_step_iff {t : Traced} (hu : t.Unset) (hr : t.Right) (ev : Event) :
    (t.step ev).Right ↔ t.Quiet ev := by
  have hz (slot) : t.lastIssued slot = 0 := by rw [← hr slot, hu slot]
  have hu' := unset_step hu ev
  cases ev with
  | complete addr => exact ⟨fun _ => trivial, fun _ => hr⟩
  | access sim stat =>
    rw [← issued_eq_nil_iff]
    by_cases hpc : (t.state.table (slotOf stat.pc)).pc = stat.pc
    · cases hl : (prefetchAccess sim stat t.state).2.getLast? with
      | none =>
        refine ⟨fun _ => List.getLast?_eq_none_iff.mp hl, fun _ slot => ?_⟩
        rw [hu' slot]
        simp [Traced.step, hpc, hl, hz]
      | some addr =>
        have hmem := List.mem_of_getLast? hl
        have hne := issued_ne_lastPrefetch sim stat t.state hmem
        rw [hu] at hne
        refine ⟨fun h => absurd (h (slotOf stat.pc)) ?_, fun h => ?_⟩
        · rw [hu']
          simpa [Traced.step, hpc, hl] using Ne.symm hne
        · rw [h] at hl
          simp at hl
    · -- the row changes owner: nothing is issued
      refine ⟨fun _ => by simp [prefetchAccess, hpc], fun _ slot => ?_⟩
      rw [hu' slot]
      simp only [Traced.step, ne_eq, hpc, not_false_iff, if_true, Function.update_apply]
      split
      · rfl
      · exact (hz slot).symm

/-- Along every run, `last_prefetch` is right in all the states exactly when every
access of the run is quiet; and what the filter returns always comes after the
last occurrence of `last_prefetch` among the candidates. -/
theorem last_prefetch_iff (evs : List Event) :
    (Runs.Along Traced.step Traced.Right Traced.initial evs ↔
      Runs.Guarded Traced.step Traced.Quiet Traced.initial evs) ∧
    ∀ (sim : Sim) (e : Entry) (cs : List Addr) (inFlight : Finset Addr),
      ((prefetchFilter sim e cs inFlight).2).Sublist (afterLast e.lastPrefetch cs) := by
  refine ⟨?_, fun sim e cs inFlight => ?_⟩
  · have free : Runs.Guarded Traced.step (fun _ _ => True) Traced.initial evs :=
      Runs.guarded_of_forall (fun _ _ => trivial) evs _
    exact Runs.along_iff_guarded
      (fun t ev (hu : t.Unset) hr _ hq => ⟨unset_step hu ev, (right_step_iff hu hr ev).mpr hq⟩)
      (fun t ev hu hr _ hr' => (right_step_iff hu hr ev).mp hr') evs _ (fun _ => rfl) (fun _ => rfl) free
  · have h := filterLoop_afterLast sim e.lastPrefetch cs 0 inFlight []
    rwa [ite_self, List.nil_append] at h

/-- The instruction at pc 1 walking up block by block. -/
def walkUp : List Event :=
  [.access idleSim (accessAt 4096), .access idleSim (accessAt 4160), .access idleSim (accessAt 4224),
    .access idleSim (accessAt 4288)]

/-- Its fourth access issues a prefetch of 4352; the row still says 0. -/
theorem last_prefetch_wrong : ¬ Runs.Along Traced.step Traced.Right Traced.initial walkUp := by
  intro h
  exact absurd (Runs.along_exec walkUp _ h (slotOf 1)) (by decide)

end PrefetchSim.Dcpt
