import Mathlib.Algebra.Group.Hom.Defs
import Mathlib.Algebra.BigOperators.Group.List.Basic

/- Running sums: what an accumulator passes through when the elements of a list are added to it
   one by one. -/
namespace Sums

variable {M N : Type*}

/-- The values of the accumulator after each element. -/
def sums [Add M] (a : M) : List M → List M
  | [] => []
  | w :: ws => (a + w) :: sums (a + w) ws

theorem sums_append [AddMonoid M] (a : M) (us vs : List M) :
    sums a (us ++ vs) = sums a us ++ sums (a + us.sum) vs := by
  induction us generalizing a with
  | nil => simp [sums]
  | cons u us ih => rw [List.cons_append, sums, sums, ih, List.cons_append, List.sum_cons, add_assoc]

/-- Each value is the start and a front part of the list. -/
theorem sums_eq_map [AddMonoid M] (a : M) (ws : List M) :
    sums a ws = (List.range ws.length).map fun i => a + (ws.take (i + 1)).sum := by
  induction ws generalizing a with
  | nil => rfl
  | cons w ws ih =>
    rw [sums, ih, List.length_cons, List.range_succ_eq_map, List.map_cons, List.map_map]
    simp [Function.comp_def, add_assoc]

theorem exists_of_mem_sums [AddMonoid M] {a z : M} {ws : List M} (h : z ∈ sums a ws) :
    ∃ i < ws.length, z = a + (ws.take (i + 1)).sum := by
  rw [sums_eq_map] at h
  obtain ⟨i, hi, rfl⟩ := List.mem_map.1 h
  exact ⟨i, List.mem_range.1 hi, rfl⟩

/-- In a group the values determine the list. -/
theorem sums_inj [AddGroup M] {a : M} {us vs : List M} : sums a us = sums a vs ↔ us = vs := by
  constructor
  · intro h
    induction us generalizing a vs with
    | nil =>
      cases vs with
      | nil => rfl
      | cons v vs => cases h
    | cons u us ih =>
      cases vs with
      | nil => cases h
      | cons v vs =>
        obtain ⟨huv, hrest⟩ := List.cons.inj h
        obtain rfl := add_left_cancel huv
        rw [ih hrest]
  · exact fun h => h ▸ rfl

/-- A map that respects addition takes running sums to running sums. -/
theorem map_sums [Add M] [Add N] {f : M → N} (hf : ∀ x y, f (x + y) = f x + f y) (a : M) (ws : List M) :
    (sums a ws).map f = sums (f a) (ws.map f) := by
  induction ws generalizing a with
  | nil => rfl
  | cons w ws ih => rw [sums, List.map_cons, ih, hf, List.map_cons, sums]

end Sums
