import Mathlib.Data.List.Nodup
import Mathlib.Data.List.Sort
import Mathlib.Logic.Function.Basic

/- Pools of registers. A pool is a function from indices to registers together
   with lists of indices; here are the two things its proofs need. `enqueue`
   puts an index into a list kept in the order of a key, behind the entries
   whose key is not larger, so that equal keys stay in order of arrival. The
   `filter_update` lemmas say how the list of indices whose register satisfies
   a predicate changes when one register is written. -/
namespace Pool

variable {α : Type*}

/-! ## Lists ordered by a key -/

/-- Put `x` behind the last entry whose key is not larger. The common case,
that this is the end of the list, is tested first. -/
def enqueue (key : α → Nat) (x : α) (l : List α) : List α :=
  if l.getLast?.all fun y => key y ≤ key x then l ++ [x]
  else l.orderedInsert (fun a b => key a < key b) x

variable {key : α → Nat} {x : α} {l : List α}

theorem enqueue_perm (key : α → Nat) (x : α) (l : List α) : (enqueue key x l).Perm (x :: l) := by
  unfold enqueue
  split
  · exact List.perm_append_singleton x l
  · exact List.perm_orderedInsert _ x l

@[simp] theorem mem_enqueue {y : α} : y ∈ enqueue key x l ↔ y = x ∨ y ∈ l := by
  rw [(enqueue_perm key x l).mem_iff, List.mem_cons]

/-- An entry with a key no smaller than the others goes to the end. -/
theorem enqueue_of_le (h : ∀ y ∈ l, key y ≤ key x) : enqueue key x l = l ++ [x] := by
  unfold enqueue
  rw [if_pos]
  cases hl : l.getLast? with
  | none => rfl
  | some y => simpa using h y (List.mem_of_getLast? hl)

theorem pairwise_orderedInsert (h : l.Pairwise fun a b => key a ≤ key b) :
    (l.orderedInsert (fun a b => key a < key b) x).Pairwise fun a b => key a ≤ key b := by
  induction l with
  | nil => simp
  | cons y l ih =>
    obtain ⟨hy, hl⟩ := List.pairwise_cons.1 h
    rw [List.orderedInsert_cons]
    split
    · rename_i hxy
      refine List.pairwise_cons.2 ⟨?_, h⟩
      intro z hz
      rcases List.mem_cons.1 hz with rfl | hz
      · omega
      · have := hy z hz
        omega
    · refine List.pairwise_cons.2 ⟨?_, ih hl⟩
      intro z hz
      rw [List.mem_orderedInsert] at hz
      rcases hz with rfl | hz
      · omega
      · exact hy z hz

theorem le_getLast (h : l.Pairwise fun a b => key a ≤ key b) (hne : l ≠ []) {y : α} (hy : y ∈ l) :
    key y ≤ key (l.getLast hne) := by
  have hsplit := List.dropLast_append_getLast hne
  rw [← hsplit] at h hy
  rcases List.mem_append.1 hy with hy | hy
  · exact (List.pairwise_append.1 h).2.2 y hy _ (List.mem_singleton_self _)
  · rw [List.mem_singleton.1 hy]

theorem enqueue_pairwise (h : l.Pairwise fun a b => key a ≤ key b) :
    (enqueue key x l).Pairwise fun a b => key a ≤ key b := by
  unfold enqueue
  split
  · rename_i hlast
    refine List.pairwise_append.2 ⟨h, List.pairwise_singleton _ x, ?_⟩
    intro a ha b hb
    obtain rfl := List.mem_singleton.1 hb
    -- everything is at most the last entry, and that is at most the new one
    have hne := List.ne_nil_of_mem ha
    rw [List.getLast?_eq_some_getLast hne, Option.all_some, decide_eq_true_eq] at hlast
    exact Nat.le_trans (le_getLast h hne ha) hlast
  · exact pairwise_orderedInsert h

theorem orderedInsert_of_le (h : ∀ y ∈ l, key y ≤ key x) :
    l.orderedInsert (fun a b => key a < key b) x = l ++ [x] := by
  induction l with
  | nil => rfl
  | cons y l ih =>
    obtain ⟨hy, hl⟩ := List.forall_mem_cons.1 h
    rw [List.orderedInsert_cons, if_neg (Nat.not_lt.2 hy), ih hl, List.cons_append]

/-- Among the entries of one key, an insertion is an addition at the end. -/
theorem filter_orderedInsert (h : l.Pairwise fun a b => key a ≤ key b) (t : Nat) :
    (l.orderedInsert (fun a b => key a < key b) x).filter (fun y => key y = t) =
      l.filter (fun y => key y = t) ++ [x].filter (fun y => key y = t) := by
  induction l with
  | nil => rfl
  | cons y l ih =>
    obtain ⟨hy, hl⟩ := List.pairwise_cons.1 h
    rw [List.orderedInsert_cons]
    split
    · rename_i hxy
      by_cases hx : key x = t
      · -- whatever comes behind has a larger key
        have hlate : (y :: l).filter (fun z => key z = t) = [] := by
          rw [List.filter_eq_nil_iff]
          intro z hz
          rcases List.mem_cons.1 hz with rfl | hz
          · simp only [decide_eq_true_eq]
            omega
          · have hyz := hy z hz
            simp only [decide_eq_true_eq]
            omega
        rw [List.filter_cons, hlate]
        simp [hx]
      · simp [List.filter_cons, hx]
    · rw [List.filter_cons, List.filter_cons, ih hl]
      split <;> rfl

/-- Lists that agree on the entries of every key have the same entries. -/
theorem perm_of_filter {l' : List α} (h : ∀ t, l.filter (fun y => key y = t) = l'.filter (fun y => key y = t)) :
    l.Perm l' := by
  classical
  rw [List.perm_iff_count]
  intro a
  have hcount : ∀ m : List α, m.count a = (m.filter fun y => key y = key a).count a := by
    intro m
    rw [List.count_filter]
    simp
  rw [hcount l, hcount l', h]

/-! ## One register written -/

section

variable {β : Type*} (regs : Nat → β) (i : Nat) (r : β) (is : List Nat) (p : β → Bool)

theorem filter_update_same (h : p r = p (regs i)) :
    (is.filter fun j => p (Function.update regs i r j)) = is.filter fun j => p (regs j) := by
  apply List.filter_congr
  intro j _
  by_cases hj : j = i
  · subst hj; simp [h]
  · simp [hj]

theorem filter_update_notMem (h : i ∉ is) :
    (is.filter fun j => p (Function.update regs i r j)) = is.filter fun j => p (regs j) := by
  apply List.filter_congr
  intro j hj
  have : j ≠ i := fun e => h (e ▸ hj)
  simp [this]

theorem filter_update_false (hd : is.Nodup) (h : p r = false) :
    (is.filter fun j => p (Function.update regs i r j)) = (is.filter fun j => p (regs j)).erase i := by
  rw [(hd.filter _).erase_eq_filter, List.filter_filter]
  apply List.filter_congr
  intro j _
  by_cases hj : j = i
  · subst hj; simp [h]
  · simp [hj]

theorem filter_update_true (hd : is.Nodup) (hi : i ∈ is) (h : p r = true)
    (hold : p (regs i) = false) :
    (is.filter fun j => p (Function.update regs i r j)).Perm (i :: is.filter fun j => p (regs j)) := by
  have hmem : i ∈ is.filter fun j => p (Function.update regs i r j) := by simp [hi, h]
  have herase : (is.filter fun j => p (Function.update regs i r j)).erase i =
      is.filter fun j => p (regs j) := by
    rw [(hd.filter _).erase_eq_filter, List.filter_filter]
    apply List.filter_congr
    intro j _
    by_cases hj : j = i
    · subst hj; simp [hold]
    · simp [hj]
  rw [← herase]
  exact List.perm_cons_erase hmem

/-- Taking an index out of the list before or after filtering. -/
theorem filter_erase (hd : is.Nodup) :
    ((is.erase i).filter fun j => p (regs j)) = (is.filter fun j => p (regs j)).erase i := by
  rw [hd.erase_eq_filter, (hd.filter _).erase_eq_filter, List.filter_filter, List.filter_filter]
  apply List.filter_congr
  intro j _
  rw [Bool.and_comm]

variable {γ : Type*} (f : β → List γ)

/-- What the registers of a list hold, with one register taken out first. -/
theorem flatMap_split (hi : i ∈ is) : (is.flatMap fun j => f (regs j)).Perm
    (f (regs i) ++ (is.erase i).flatMap fun j => f (regs j)) :=
  (List.perm_cons_erase hi).flatMap_right _

theorem flatMap_erase_update (hd : is.Nodup) :
    ((is.erase i).flatMap fun j => f (Function.update regs i r j)) =
      (is.erase i).flatMap fun j => f (regs j) := by
  apply List.flatMap_congr
  intro j hj
  have : j ≠ i := fun e => hd.not_mem_erase (e ▸ hj)
  simp [this]

end

end Pool
