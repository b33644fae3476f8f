import Mathlib.Data.BitVec
import PrefetchSim.Dcpt.Filter
import PrefetchSim.Lib.Sums

/- The candidates of `delta_correlation`.

   The report says what they are to be: the two newest deltas are looked for further back, and
   the deltas that followed the earliest occurrence are added to the current address
   (`Predicts`). The loops do something else. They go from the newest delta to the oldest, and
   from each occurrence on they add the deltas before it, newest first, without going back to
   the current address in between (`deltaCorrelation_eq`, `replayed_eq`).

   Proved here: the two agree exactly if there is no occurrence, or one, in the middle of a list
   that reads the same in both directions (`predicts_iff`); and on a constant stride, where the
   direction does not show, the candidates are the next multiples of the stride
   (`constant_stride`). -/
namespace PrefetchSim.Dcpt

open Sums

/-! ## What is replayed -/

/-- The deltas the two loops add to the address, in order; the list is newest first. -/
def replay (d1 d2 : Int) : List Int → List Int
  | u :: v :: rest =>
    if u = d1 ∧ v = d2 then (v :: rest) ++ replay d1 d2 (v :: rest) else replay d1 d2 (v :: rest)
  | _ => []

/-- The same from the deltas of an entry. -/
def replayed (ds : List Int) : List Int :=
  match ds.reverse with
  | d1 :: d2 :: rest => replay d1 d2 (d2 :: rest)
  | _ => []

theorem addDeltas_eq (address : Addr) (ws : List Int) :
    addDeltas address ws =
      (sums address (ws.map (BitVec.ofInt 64)), address + (ws.map (BitVec.ofInt 64)).sum) := by
  induction ws generalizing address with
  | nil => simp [addDeltas, sums]
  | cons w ws ih => simp [addDeltas, sums, ih, add_assoc]

theorem scan_eq (d1 d2 : Int) (l : List Int) (address : Addr) :
    scan d1 d2 l address = sums address ((replay d1 d2 l).map (BitVec.ofInt 64)) := by
  induction l generalizing address with
  | nil => rfl
  | cons u l ih =>
    cases l with
    | nil => rfl
    | cons v rest =>
      rw [scan, replay]
      split
      · dsimp only
        rw [List.map_append, sums_append, addDeltas_eq, ih]
      · exact ih address

theorem deltaCorrelation_eq (e : Entry) :
    deltaCorrelation e = sums e.lastAddress ((replayed e.deltas).map (BitVec.ofInt 64)) := by
  unfold deltaCorrelation replayed
  rcases e.deltas.reverse with _ | ⟨d1, _ | ⟨d2, rest⟩⟩
  · rfl
  · rfl
  · exact scan_eq ..

/-! ## Occurrences of the newest pair -/

/-- The two newest deltas also stand at the positions `k` and `k + 1`, counted from the oldest. -/
def Occurs (ds : List Int) (k : Nat) : Prop :=
  k + 3 ≤ ds.length ∧ ds[k]? = ds[ds.length - 2]? ∧ ds[k + 1]? = ds[ds.length - 1]?

instance (ds : List Int) (k : Nat) : Decidable (Occurs ds k) := inferInstanceAs (Decidable (_ ∧ _))

/-- All of them, the newest first. -/
def occurrences (ds : List Int) : List Nat :=
  (List.range (ds.length - 2)).reverse.filter fun k => decide (Occurs ds k)

theorem mem_occurrences {ds : List Int} {k : Nat} : k ∈ occurrences ds ↔ Occurs ds k := by
  rw [occurrences, List.mem_filter, List.mem_reverse, List.mem_range, decide_eq_true_iff]
  constructor
  · exact And.right
  · intro h
    have hle := h.1
    exact ⟨by omega, h⟩

theorem occurrences_sorted (ds : List Int) : (occurrences ds).Pairwise (· > ·) := by
  refine List.Pairwise.filter _ ?_
  rw [List.pairwise_reverse]
  exact List.pairwise_lt_range

/-- The inner loop from the occurrence at `k`. -/
def before (ds : List Int) (k : Nat) : List Int := (ds.take (k + 1)).reverse

theorem replay_eq (d1 d2 : Int) (l : List Int) : replay d1 d2 l =
    ((List.range (l.length - 1)).reverse.filter fun k =>
      decide (l.reverse[k]? = some d2 ∧ l.reverse[k + 1]? = some d1)).flatMap (before l.reverse) := by
  induction l with
  | nil => rfl
  | cons u l ih =>
    cases l with
    | nil => rfl
    | cons v rest =>
      have hlast : (u :: v :: rest).length - 1 = rest.length + 1 := rfl
      have hrev : (u :: v :: rest).reverse = (v :: rest).reverse ++ [u] := List.reverse_cons
      have hlen : (v :: rest).reverse.length = rest.length + 1 := by simp
      -- the positions further back are those of the shorter list
      have hold : ∀ k < rest.length, (u :: v :: rest).reverse[k]? = (v :: rest).reverse[k]? ∧
          (u :: v :: rest).reverse[k + 1]? = (v :: rest).reverse[k + 1]? ∧
          before (u :: v :: rest).reverse k = before (v :: rest).reverse k := by
        intro k hk
        rw [hrev]
        refine ⟨List.getElem?_append_left (by omega), List.getElem?_append_left (by omega), ?_⟩
        rw [before, before, List.take_append_of_le_length (by omega)]
      have hrest : (((List.range rest.length).reverse.filter fun k =>
          decide ((u :: v :: rest).reverse[k]? = some d2 ∧ (u :: v :: rest).reverse[k + 1]? = some d1)).flatMap
            (before (u :: v :: rest).reverse)) = replay d1 d2 (v :: rest) := by
        rw [ih]
        have hfilter : ((List.range rest.length).reverse.filter fun k =>
            decide ((u :: v :: rest).reverse[k]? = some d2 ∧ (u :: v :: rest).reverse[k + 1]? = some d1)) =
            (List.range rest.length).reverse.filter fun k =>
              decide ((v :: rest).reverse[k]? = some d2 ∧ (v :: rest).reverse[k + 1]? = some d1) := by
          apply List.filter_congr
          intro k hk
          obtain ⟨h0, h1, -⟩ := hold k (List.mem_range.1 (List.mem_reverse.1 hk))
          rw [h0, h1]
        rw [hfilter]
        apply List.flatMap_congr
        intro k hk
        exact (hold k (List.mem_range.1 (List.mem_reverse.1 (List.mem_filter.1 hk).1))).2.2
      have hv : (u :: v :: rest).reverse[rest.length]? = some v := by simp
      have hu : (u :: v :: rest).reverse[rest.length + 1]? = some u := by simp
      have hbefore : before (u :: v :: rest).reverse rest.length = v :: rest := by
        rw [before, hrev, List.take_left' hlen, List.reverse_reverse]
      rw [replay, hlast, List.range_succ, List.reverse_append, List.reverse_singleton, List.singleton_append,
        List.filter_cons, hv, hu]
      simp only [Option.some.injEq]
      by_cases h : u = d1 ∧ v = d2
      · rw [if_pos h, if_pos (decide_eq_true h.symm), List.flatMap_cons, hbefore, hrest]
      · rw [if_neg h, if_neg (fun hd => h (of_decide_eq_true hd).symm), hrest]

/-- From each occurrence on, the newest first, the deltas up to it are added, the newest first. -/
theorem replayed_eq (ds : List Int) : replayed ds = (occurrences ds).flatMap (before ds) := by
  unfold replayed
  split
  · rename_i d1 d2 rest hrev
    have hds : ds = (d2 :: rest).reverse ++ [d1] := by
      rw [← List.reverse_cons, ← hrev, List.reverse_reverse]
    have hlen : ds.length = rest.length + 2 := by simp [hds]
    have h1 : ds[ds.length - 1]? = some d1 := by simp [hds]
    have h2 : ds[ds.length - 2]? = some d2 := by simp [hds]
    have hold : ∀ k < rest.length, ds[k]? = (d2 :: rest).reverse[k]? ∧ ds[k + 1]? = (d2 :: rest).reverse[k + 1]? ∧
        before ds k = before (d2 :: rest).reverse k := by
      intro k hk
      have hshort : (d2 :: rest).reverse.length = rest.length + 1 := by simp
      rw [hds]
      refine ⟨List.getElem?_append_left (by omega), List.getElem?_append_left (by omega), ?_⟩
      rw [before, before, List.take_append_of_le_length (by omega)]
    have hfilter : occurrences ds = (List.range rest.length).reverse.filter fun k =>
        decide ((d2 :: rest).reverse[k]? = some d2 ∧ (d2 :: rest).reverse[k + 1]? = some d1) := by
      rw [occurrences, hlen]
      apply List.filter_congr
      intro k hk
      have hk := List.mem_range.1 (List.mem_reverse.1 hk)
      obtain ⟨h0, h0', -⟩ := hold k hk
      rw [decide_eq_decide, Occurs, h1, h2, h0, h0']
      constructor
      · exact And.right
      · exact fun h => ⟨by omega, h⟩
    rw [hfilter, replay_eq]
    apply List.flatMap_congr
    intro k hk
    exact (hold k (List.mem_range.1 (List.mem_reverse.1 (List.mem_filter.1 hk).1))).2.2.symm
  · rename_i hshort
    have hlen : ds.length - 2 = 0 := by
      rw [← List.length_reverse]
      rcases h : ds.reverse with _ | ⟨d1, _ | ⟨d2, rest⟩⟩
      · rfl
      · rfl
      · exact absurd h (hshort d1 d2 rest)
    rw [occurrences, hlen]
    rfl

/-! ## The prediction -/

/-- The address and the sums of the first, the first two, ... of the deltas added to it. -/
def runningSums (last : Addr) (ds : List Int) : List Addr :=
  (List.range ds.length).map fun i => last + BitVec.ofInt 64 (ds.take (i + 1)).sum

theorem ofInt_sum (ds : List Int) : BitVec.ofInt 64 ds.sum = (ds.map (BitVec.ofInt 64)).sum := by
  induction ds with
  | nil => rfl
  | cons d ds ih => rw [List.sum_cons, BitVec.ofInt_add, ih, List.map_cons, List.sum_cons]

theorem runningSums_eq (last : Addr) (ds : List Int) :
    runningSums last ds = sums last (ds.map (BitVec.ofInt 64)) := by
  rw [runningSums, sums_eq_map, List.length_map]
  apply List.map_congr_left
  intro i _
  rw [ofInt_sum, List.map_take]

/-- The candidates are what the report says: if the newest pair occurs further back, the deltas
that followed its earliest occurrence are added to the last address; otherwise there are none. -/
def Predicts (e : Entry) : Prop :=
  (∀ k, Occurs e.deltas k → (∀ j < k, ¬Occurs e.deltas j) →
    deltaCorrelation e = runningSums e.lastAddress (e.deltas.drop (k + 2))) ∧
  ((∀ k, ¬Occurs e.deltas k) → deltaCorrelation e = [])

/-- The deltas are values of `int`. -/
def Entry.Ints (e : Entry) : Prop := ∀ d ∈ e.deltas, -2 ^ 31 ≤ d ∧ d < 2 ^ 31

/-- Small integers are told apart in 64 bits. -/
theorem ofInt_inj {x y : Int} (hx : -2 ^ 31 ≤ x ∧ x < 2 ^ 31) (hy : -2 ^ 31 ≤ y ∧ y < 2 ^ 31)
    (h : BitVec.ofInt 64 x = BitVec.ofInt 64 y) : x = y := by
  have hint := congrArg BitVec.toInt h
  rw [BitVec.toInt_ofInt, BitVec.toInt_ofInt, Int.bmod_eq_of_le (by omega) (by omega),
    Int.bmod_eq_of_le (by omega) (by omega)] at hint
  exact hint

theorem map_ofInt_inj {us vs : List Int} (hus : ∀ d ∈ us, -2 ^ 31 ≤ d ∧ d < 2 ^ 31)
    (hvs : ∀ d ∈ vs, -2 ^ 31 ≤ d ∧ d < 2 ^ 31)
    (h : us.map (BitVec.ofInt 64) = vs.map (BitVec.ofInt 64)) : us = vs := by
  induction us generalizing vs with
  | nil =>
    cases vs with
    | nil => rfl
    | cons v vs => cases h
  | cons u us ih =>
    cases vs with
    | nil => cases h
    | cons v vs =>
      obtain ⟨hu, hus⟩ := List.forall_mem_cons.1 hus
      obtain ⟨hv, hvs⟩ := List.forall_mem_cons.1 hvs
      obtain ⟨huv, hrest⟩ := List.cons.inj h
      rw [ofInt_inj hu hv huv, ih hus hvs hrest]

theorem mem_replayed {ds : List Int} {d : Int} (h : d ∈ replayed ds) : d ∈ ds := by
  rw [replayed_eq] at h
  obtain ⟨k, -, hd⟩ := List.mem_flatMap.1 h
  exact List.mem_of_mem_take (List.mem_reverse.1 hd)

/-- So the question is one of two lists of deltas. -/
theorem Entry.Ints.candidates_iff {e : Entry} (h : e.Ints) (n : Nat) :
    deltaCorrelation e = runningSums e.lastAddress (e.deltas.drop n) ↔ replayed e.deltas = e.deltas.drop n := by
  rw [deltaCorrelation_eq, runningSums_eq, sums_inj]
  constructor
  · exact map_ofInt_inj (fun d hd => h d (mem_replayed hd)) fun d hd => h d (List.mem_of_mem_drop hd)
  · exact congrArg _

/-! ## When it is met -/

section

variable {ds : List Int} {k : Nat}

theorem length_before (h : Occurs ds k) : (before ds k).length = k + 1 := by
  have hle := h.1
  rw [before, List.length_reverse, List.length_take]
  omega

theorem getElem?_before (h : Occurs ds k) {j : Nat} (hj : j ≤ k) : (before ds k)[j]? = ds[k - j]? := by
  have hle := h.1
  have hlen : (ds.take (k + 1)).length = k + 1 := by
    rw [List.length_take]
    omega
  rw [before, List.getElem?_reverse (by omega), hlen, List.getElem?_take_of_lt (by omega)]
  rfl

/-- With two occurrences there is one more that is newer than both: what is replayed first would
have to be what followed, and it ends in the oldest deltas, which would have to be the newest. -/
theorem replayed_ne_of_two {k₁ k₂ : Nat} (h₁ : Occurs ds k₁) (h₂ : Occurs ds k₂) (hlt : k₂ < k₁)
    (hnewest : ∀ j, Occurs ds j → j ≤ k₁) {mid : List Int} :
    before ds k₁ ++ mid ++ before ds k₂ ≠ ds.drop (k₂ + 2) := by
  intro heq
  have hle := h₁.1
  have hlen := congrArg List.length heq
  rw [List.length_append, List.length_append, length_before h₁, length_before h₂, List.length_drop] at hlen
  -- the first part, read from position `k₂ + 2` on
  have hfirst : ∀ j ≤ k₁, ds[k₂ + 2 + j]? = ds[k₁ - j]? := by
    intro j hj
    have hj' : j < (before ds k₁).length := by
      rw [length_before h₁]
      omega
    rw [← List.getElem?_drop, ← heq, List.append_assoc, List.getElem?_append_left hj', getElem?_before h₁ hj]
  -- the last part, read from the end
  have hlast : ∀ j ≤ k₂, ds[ds.length - 1 - j]? = ds[j]? := by
    intro j hj
    have hpos : ds.length - 1 - j = k₂ + 2 + ((before ds k₁ ++ mid).length + (k₂ - j)) := by
      rw [List.length_append, length_before h₁]
      omega
    rw [hpos, ← List.getElem?_drop, ← heq, List.getElem?_append_right (by omega), Nat.add_sub_cancel_left,
      getElem?_before h₂ (by omega)]
    congr 1
    omega
  have hzero : ds[0]? = ds[ds.length - 1]? := (hlast 0 (Nat.zero_le _)).symm
  have hone : ds[1]? = ds[ds.length - 2]? := by
    rcases Nat.eq_zero_or_pos k₂ with hk | hk
    · subst hk
      exact h₂.2.2.trans (hzero.symm.trans h₂.2.1)
    · have hsnd := hlast 1 hk
      rw [Nat.sub_sub] at hsnd
      exact hsnd.symm
  have hnew : Occurs ds (k₁ + k₂ + 1) := by
    refine ⟨by omega, ?_, ?_⟩
    · have hprev := hfirst (k₁ - 1) (by omega)
      rw [show k₂ + 2 + (k₁ - 1) = k₁ + k₂ + 1 by omega, show k₁ - (k₁ - 1) = 1 by omega] at hprev
      exact hprev.trans hone
    · have hprev := hfirst k₁ (Nat.le_refl _)
      rw [show k₂ + 2 + k₁ = k₁ + k₂ + 1 + 1 by omega, Nat.sub_self] at hprev
      exact hprev.trans hzero
  have hmax := hnewest _ hnew
  omega

/-- With one occurrence, what followed must be what came before, backwards. -/
theorem before_eq_drop_iff (h : Occurs ds k) :
    before ds k = ds.drop (k + 2) ↔ ds.length = 2 * k + 3 ∧ ds.reverse = ds := by
  have hle := h.1
  have hsplit : ds = ds.take (k + 1) ++ (ds.drop (k + 1)).take 1 ++ ds.drop (k + 2) := by
    have hdrop : ds.drop (k + 2) = (ds.drop (k + 1)).drop 1 := by rw [List.drop_drop]
    rw [List.append_assoc, hdrop, List.take_append_drop, List.take_append_drop]
  have hmid : ((ds.drop (k + 1)).take 1).reverse = (ds.drop (k + 1)).take 1 := by
    cases ds.drop (k + 1) with
    | nil => rfl
    | cons d rest => rfl
  constructor
  · intro heq
    constructor
    · have hlen := congrArg List.length heq
      rw [length_before h, List.length_drop] at hlen
      omega
    · have hback : ds.take (k + 1) = (ds.drop (k + 2)).reverse := by
        rw [← heq, before, List.reverse_reverse]
      calc ds.reverse
          = (ds.drop (k + 2)).reverse ++ (((ds.drop (k + 1)).take 1).reverse ++ (ds.take (k + 1)).reverse) := by
            conv_lhs => rw [hsplit]
            rw [List.reverse_append, List.reverse_append]
        _ = ds.take (k + 1) ++ ((ds.drop (k + 1)).take 1 ++ ds.drop (k + 2)) := by
            rw [← hback, hmid, ← before, heq]
        _ = ds := by rw [← List.append_assoc, ← hsplit]
  · intro hpal
    obtain ⟨hlen, hrev⟩ := hpal
    have htake : ds.reverse.drop (k + 2) = (ds.take (k + 1)).reverse := by
      rw [List.drop_reverse, hlen]
      congr 2
      omega
    rw [before, ← htake, hrev]

end

/-- The newest pair of deltas does not occur further back; or it occurs there once, in the middle
of a list that reads the same in both directions. -/
def Mirrored (ds : List Int) : Prop :=
  (∀ k, ¬Occurs ds k) ∨ ∃ k, (∀ j, Occurs ds j ↔ j = k) ∧ ds.length = 2 * k + 3 ∧ ds.reverse = ds

/-- For every entry whose deltas are values of `int`. -/
theorem predicts_iff (e : Entry) (hint : e.Ints) : Predicts e ↔ Mirrored e.deltas := by
  have hsorted := occurrences_sorted e.deltas
  have hmem : ∀ {j}, j ∈ occurrences e.deltas ↔ Occurs e.deltas j := mem_occurrences
  rcases hocc : occurrences e.deltas with _ | ⟨k₁, rest⟩
  · have hnone : ∀ k, ¬Occurs e.deltas k := by
      intro k hk
      rw [← hmem, hocc] at hk
      cases hk
    have hnil : deltaCorrelation e = [] := by
      rw [deltaCorrelation_eq, replayed_eq, hocc]
      rfl
    exact ⟨fun _ => Or.inl hnone, fun _ => ⟨fun k hk => absurd hk (hnone k), fun _ => hnil⟩⟩
  · have h₁ : Occurs e.deltas k₁ := by
      rw [← hmem, hocc]
      exact List.mem_cons_self ..
    rw [hocc, List.pairwise_cons] at hsorted
    have hnewest : ∀ j, Occurs e.deltas j → j ≤ k₁ := by
      intro j hj
      rw [← hmem, hocc] at hj
      rcases List.mem_cons.1 hj with rfl | hj
      · exact Nat.le_refl _
      · exact Nat.le_of_lt (hsorted.1 j hj)
    have hreplay : replayed e.deltas = before e.deltas k₁ ++ rest.flatMap (before e.deltas) := by
      rw [replayed_eq, hocc, List.flatMap_cons]
    rcases List.eq_nil_or_concat' rest with rfl | ⟨mid, k₂, rfl⟩
    · -- one occurrence
      have honly : ∀ j, Occurs e.deltas j ↔ j = k₁ := by
        intro j
        rw [← hmem, hocc, List.mem_singleton]
      rw [List.flatMap_nil, List.append_nil] at hreplay
      constructor
      · intro hp
        have hfollow := hp.1 k₁ h₁ fun j hj hoj => Nat.ne_of_lt hj ((honly j).1 hoj)
        rw [hint.candidates_iff, hreplay, before_eq_drop_iff h₁] at hfollow
        exact Or.inr ⟨k₁, honly, hfollow⟩
      · intro hm
        rcases hm with hnone | ⟨k, hk, hpal⟩
        · exact absurd h₁ (hnone k₁)
        · obtain rfl := (hk k₁).1 h₁
          refine ⟨fun j hj _ => ?_, fun hnone => absurd h₁ (hnone k₁)⟩
          rw [(honly j).1 hj, hint.candidates_iff, hreplay, before_eq_drop_iff h₁]
          exact hpal
    · -- several: the prediction is missed
      have h₂mem : k₂ ∈ occurrences e.deltas := by
        rw [hocc]
        simp
      have h₂ := hmem.1 h₂mem
      have hlt : k₂ < k₁ := hsorted.1 k₂ (by simp)
      have hearliest : ∀ j < k₂, ¬Occurs e.deltas j := by
        intro j hj hoj
        rw [← hmem, hocc, List.mem_cons, List.mem_append, List.mem_singleton] at hoj
        have hmid := List.pairwise_append.1 hsorted.2
        rcases hoj with rfl | hoj | rfl
        · omega
        · have hgt := hmid.2.2 j hoj k₂ (List.mem_singleton_self _)
          omega
        · exact Nat.lt_irrefl _ hj
      rw [List.flatMap_append, List.flatMap_singleton, ← List.append_assoc] at hreplay
      constructor
      · intro hp
        have hfollow := hp.1 k₂ h₂ hearliest
        rw [hint.candidates_iff, hreplay] at hfollow
        exact absurd hfollow (replayed_ne_of_two h₁ h₂ hlt hnewest)
      · intro hm
        rcases hm with hnone | ⟨k, hk, -⟩
        · exact absurd h₁ (hnone k₁)
        · have heq := ((hk k₁).1 h₁).trans ((hk k₂).1 h₂).symm
          omega

/-- A load stream that goes back and forth. -/
def backAndForth : Entry := { pc := 1, lastAddress := 4096, deltas := [64, -128, 64, -128, 64] }

theorem predicts_backAndForth : backAndForth.Ints ∧ Predicts backAndForth := by
  have hint : backAndForth.Ints := by
    unfold Entry.Ints
    decide
  refine ⟨hint, (predicts_iff backAndForth hint).2 (Or.inr ⟨1, fun j => ?_, by decide, by decide⟩)⟩
  constructor
  · intro hj
    have hle : j + 3 ≤ 5 := hj.1
    have hcases : j = 0 ∨ j = 1 ∨ j = 2 := by omega
    rcases hcases with rfl | rfl | rfl
    · exact absurd hj (by decide)
    · rfl
    · exact absurd hj (by decide)
  · rintro rfl
    decide

/-- Rows of a matrix: the pair `64, 128` was followed by `192`, but what is added is the `64`
before it. -/
def rows : Entry := { pc := 1, lastAddress := 4096, deltas := [64, 128, 192, 64, 128] }

theorem rows_mispredicted : rows.Ints ∧ ¬Predicts rows := by
  constructor
  · unfold Entry.Ints
    decide
  · intro hp
    have hfollow := hp.1 0 (by decide) (by omega)
    revert hfollow
    decide

/-! ## Constant strides -/

theorem replay_replicate (s : Int) (m : Nat) :
    replay s s (List.replicate m s) = List.replicate (m * (m - 1) / 2) s := by
  induction m with
  | zero => rfl
  | succ m ih =>
    cases m with
    | zero => rfl
    | succ m =>
      have htriangle : m + 1 + (m + 1) * m / 2 = (m + 2) * (m + 1) / 2 := by
        have hstep : (m + 2) * (m + 1) = (m + 1) * m + (m + 1) * 2 := by rw [Nat.mul_comm, Nat.mul_add]
        rw [hstep, Nat.add_mul_div_right _ _ (by decide), Nat.add_comm]
      rw [List.replicate_succ, List.replicate_succ, replay, if_pos ⟨rfl, rfl⟩, ← List.replicate_succ, ih,
        List.replicate_append_replicate]
      exact congrArg (fun k => List.replicate k s) htriangle

theorem replayed_replicate (s : Int) (n : Nat) :
    replayed (List.replicate n s) = List.replicate ((n - 1) * (n - 2) / 2) s := by
  unfold replayed
  rw [List.reverse_replicate]
  match n with
  | 0 => rfl
  | 1 => rfl
  | m + 2 => exact replay_replicate s (m + 1)

/-- `n` deltas `s`: the candidates are the next multiples of the stride, one after the other; a
full buffer has 153 of them, far more than one call issues. -/
theorem constant_stride (n : Nat) (s : Int) (e : Entry) (h : e.deltas = List.replicate n s) :
    deltaCorrelation e = (List.range ((n - 1) * (n - 2) / 2)).map
        (fun i => e.lastAddress + BitVec.ofInt 64 ((i + 1 : Nat) * s)) ∧
      (n ≤ 2 → deltaCorrelation e = []) ∧
      (n = numDeltas → (deltaCorrelation e).length = 153) ∧
      ∀ sim stat state, (prefetchAccess sim stat state).2.length ≤ maxDegree := by
  have hsums : deltaCorrelation e = (List.range ((n - 1) * (n - 2) / 2)).map
      fun i => e.lastAddress + BitVec.ofInt 64 ((i + 1 : Nat) * s) := by
    have hreplay : replayed e.deltas = List.replicate ((n - 1) * (n - 2) / 2) s := by
      rw [h, replayed_replicate]
    rw [deltaCorrelation_eq, ← runningSums_eq, hreplay, runningSums, List.length_replicate]
    apply List.map_congr_left
    intro i hi
    have hle : min (i + 1) ((n - 1) * (n - 2) / 2) = i + 1 := Nat.min_eq_left (List.mem_range.1 hi)
    rw [List.take_replicate, hle, List.sum_replicate, nsmul_eq_mul]
  refine ⟨hsums, fun hn => ?_, fun hn => ?_, fun sim stat state => ?_⟩
  · have hzero : (n - 1) * (n - 2) / 2 = 0 := by
      rw [Nat.sub_eq_zero_of_le hn, Nat.mul_zero, Nat.zero_div]
    rw [hsums, hzero]
    rfl
  · rw [hsums, List.length_map, List.length_range, hn]
    rfl
  · rw [(prefetchAccess_effect sim stat state).2]
    exact issueLoop_length_le sim _ 0

/-- A full buffer of one-block strides. -/
theorem constant_stride_blocks :
    let e : Entry := { pc := 1, lastAddress := 4096, deltas := List.replicate 19 64 }
    deltaCorrelation e = (List.range 153).map fun i => 4096 + BitVec.ofInt 64 ((i + 1 : Nat) * 64) :=
  (constant_stride 19 64 { pc := 1, lastAddress := 4096, deltas := List.replicate 19 64 } rfl).1

end PrefetchSim.Dcpt
