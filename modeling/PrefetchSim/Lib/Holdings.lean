import Mathlib.Data.Finset.Card
import Mathlib.Data.List.Nodup
import Mathlib.Logic.Equiv.Basic

/- Slots that hold units of a store. A slot that is in use holds `w` units, no two of them the
   same one; a reference count says of each unit whether it is held. Units that no slot holds
   are on a free list, or in transit from it to a slot. Then the slots in use, the free units
   and those in transit fit into the store (`room`), so a full store leaves no slot that could
   still be filled. Slots may be exchanged, emptied and filled. -/
namespace Holdings

/-- `n` slots with `w` units each, from a store of `cap` units. -/
structure Sound (n w cap : Nat) (used : Nat → Bool) (units : Nat → List Nat) (count : Nat → Int)
    (free transit : List Nat) : Prop where
  whole : ∀ k < n, used k = true → (units k).length = w ∧ (units k).Nodup ∧ ∀ d ∈ units k, count d = 1
  apart : ∀ j < n, ∀ k < n, j ≠ k → used j = true → used k = true → ∀ d ∈ units j, d ∉ units k
  nodup : (free ++ transit).Nodup
  unheld : ∀ d ∈ free ++ transit, count d = 0
  room : ((Finset.range n).filter fun k => used k = true).card * w + (free ++ transit).length ≤ cap

variable {n w cap : Nat} {used : Nat → Bool} {units : Nat → List Nat} {count : Nat → Int} {free transit : List Nat}

/-! ## How many slots are in use -/

theorem swap_lt {i j k : Nat} (hi : i < n) (hj : j < n) (hk : k < n) : Equiv.swap i j k < n := by
  by_cases hki : k = i
  · rwa [hki, Equiv.swap_apply_left]
  · by_cases hkj : k = j
    · rwa [hkj, Equiv.swap_apply_right]
    · rwa [Equiv.swap_apply_of_ne_of_ne hki hkj]

theorem card_swap {i j : Nat} (hi : i < n) (hj : j < n) :
    ((Finset.range n).filter fun k => used (Equiv.swap i j k) = true).card =
      ((Finset.range n).filter fun k => used k = true).card := by
  apply Finset.card_bij' (fun k _ => Equiv.swap i j k) (fun k _ => Equiv.swap i j k)
  · intro k hk
    rw [Finset.mem_filter, Finset.mem_range] at hk ⊢
    exact ⟨swap_lt hi hj hk.1, hk.2⟩
  · intro k hk
    rw [Finset.mem_filter, Finset.mem_range] at hk ⊢
    exact ⟨swap_lt hi hj hk.1, by rw [Equiv.swap_apply_self]; exact hk.2⟩
  · intro k _
    exact Equiv.swap_apply_self ..
  · intro k _
    exact Equiv.swap_apply_self ..

theorem card_fill {k : Nat} (hk : k < n) (hempty : used k = false) :
    ((Finset.range n).filter fun j => Function.update used k true j = true).card =
      ((Finset.range n).filter fun j => used j = true).card + 1 := by
  have hinsert : ((Finset.range n).filter fun j => Function.update used k true j = true) =
      insert k ((Finset.range n).filter fun j => used j = true) := by
    ext j
    by_cases hj : j = k
    · subst hj
      simp [hk]
    · simp [hj]
  rw [hinsert, Finset.card_insert_of_notMem]
  simp [hempty]

theorem card_empty {k : Nat} (hk : k < n) (hused : used k = true) :
    ((Finset.range n).filter fun j => Function.update used k false j = true).card + 1 =
      ((Finset.range n).filter fun j => used j = true).card := by
  have hfill := @card_fill n (Function.update used k false) k hk (Function.update_self ..)
  rw [Function.update_idem, ← hused, Function.update_eq_self] at hfill
  rw [hused] at hfill
  exact hfill.symm

/-! ## The operations -/

/-- Two slots are exchanged. -/
theorem Sound.swap (h : Sound n w cap used units count free transit) {i j : Nat} (hi : i < n) (hj : j < n) :
    Sound n w cap (fun k => used (Equiv.swap i j k)) (fun k => units (Equiv.swap i j k)) count free transit := by
  refine ⟨fun k hk => h.whole _ (swap_lt hi hj hk), fun a ha b hb hab => ?_, h.nodup, h.unheld, ?_⟩
  · exact h.apart _ (swap_lt hi hj ha) _ (swap_lt hi hj hb) fun heq => hab ((Equiv.swap i j).injective heq)
  · rw [card_swap hi hj]
    exact h.room

/-- A slot is emptied; its units go to the free list. -/
theorem Sound.release (h : Sound n w cap used units count free transit) {k : Nat} (hk : k < n) (hused : used k = true) :
    Sound n w cap (Function.update used k false) units (fun d => if d ∈ units k then 0 else count d)
      ((units k).reverse ++ free) transit := by
  obtain ⟨hlen, hnodup, hone⟩ := h.whole k hk hused
  have hused' : ∀ {j}, Function.update used k false j = true → j ≠ k ∧ used j = true := by
    intro j hj
    by_cases hjk : j = k
    · rw [hjk, Function.update_self] at hj
      cases hj
    · rw [Function.update_of_ne hjk] at hj
      exact ⟨hjk, hj⟩
  have hdisjoint : ∀ d ∈ units k, d ∉ free ++ transit := by
    intro d hd hmem
    have hheld := hone d hd
    rw [h.unheld d hmem] at hheld
    exact absurd hheld (by decide)
  refine ⟨fun j hj hu => ?_, fun a ha b hb hab hua hub => ?_, ?_, fun d hd => ?_, ?_⟩
  · obtain ⟨hjk, hu⟩ := hused' hu
    obtain ⟨hl, hn, ho⟩ := h.whole j hj hu
    refine ⟨hl, hn, fun d hd => ?_⟩
    rw [if_neg (h.apart j hj k hk hjk hu hused d hd)]
    exact ho d hd
  · exact h.apart a ha b hb hab (hused' hua).2 (hused' hub).2
  · rw [List.append_assoc, List.nodup_append]
    refine ⟨List.nodup_reverse.2 hnodup, h.nodup, fun a ha b hb hab => ?_⟩
    exact hdisjoint a (List.mem_reverse.1 ha) (hab ▸ hb)
  · split
    · rfl
    · rename_i hnot
      rw [List.append_assoc, List.mem_append, List.mem_reverse] at hd
      exact h.unheld d (hd.resolve_left hnot)
  · have hroom := h.room
    rw [← card_empty hk hused, Nat.add_mul] at hroom
    rw [List.append_assoc, List.length_append, List.length_reverse, hlen]
    omega

/-- A unit is taken from the free list. -/
theorem Sound.take {d : Nat} (h : Sound n w cap used units count (d :: free) transit) :
    Sound n w cap used units count free (transit ++ [d]) := by
  have hperm : (free ++ (transit ++ [d])).Perm (d :: free ++ transit) := by
    rw [← List.append_assoc]
    exact List.perm_append_singleton d (free ++ transit)
  refine ⟨h.whole, h.apart, hperm.nodup_iff.2 h.nodup, fun e he => h.unheld e (hperm.mem_iff.1 he), ?_⟩
  rw [hperm.length_eq]
  exact h.room

/-- An empty slot is filled with the units in transit. -/
theorem Sound.fill (h : Sound n w cap used units count free transit) {k : Nat} (hk : k < n) (hempty : used k = false)
    (hlen : transit.length = w) :
    Sound n w cap (Function.update used k true) (Function.update units k transit)
      (fun d => if d ∈ transit then count d + 1 else count d) free [] := by
  obtain ⟨hfree, htransit, hapart⟩ := List.nodup_append.1 h.nodup
  have hzero : ∀ d ∈ transit, count d = 0 := fun d hd => h.unheld d (List.mem_append_right _ hd)
  -- what the other slots hold is not in transit
  have hother : ∀ j < n, used j = true → ∀ d ∈ units j, d ∉ transit := by
    intro j hj hu d hd hmem
    have hone := (h.whole j hj hu).2.2 d hd
    rw [hzero d hmem] at hone
    exact absurd hone (by decide)
  have hused' : ∀ {j}, j ≠ k → Function.update used k true j = true → used j = true := by
    intro j hjk hj
    rwa [Function.update_of_ne hjk] at hj
  refine ⟨fun j hj hu => ?_, fun a ha b hb hab hua hub => ?_, ?_, fun d hd => ?_, ?_⟩
  · by_cases hjk : j = k
    · rw [hjk, Function.update_self]
      refine ⟨hlen, htransit, fun d hd => ?_⟩
      rw [if_pos hd, hzero d hd]
      rfl
    · rw [Function.update_of_ne hjk]
      obtain ⟨hl, hn, ho⟩ := h.whole j hj (hused' hjk hu)
      refine ⟨hl, hn, fun d hd => ?_⟩
      rw [if_neg (hother j hj (hused' hjk hu) d hd)]
      exact ho d hd
  · intro d hd
    by_cases hak : a = k
    · have hbk : b ≠ k := fun hbk => hab (hak.trans hbk.symm)
      rw [hak, Function.update_self] at hd
      rw [Function.update_of_ne hbk]
      exact fun hmem => hother b hb (hused' hbk hub) d hmem hd
    · rw [Function.update_of_ne hak] at hd
      by_cases hbk : b = k
      · rw [hbk, Function.update_self]
        exact hother a ha (hused' hak hua) d hd
      · rw [Function.update_of_ne hbk]
        exact h.apart a ha b hb hab (hused' hak hua) (hused' hbk hub) d hd
  · rw [List.append_nil]
    exact hfree
  · rw [List.append_nil] at hd
    rw [if_neg fun hmem => hapart d hd d hmem rfl]
    exact h.unheld d (List.mem_append_left _ hd)
  · have hroom := h.room
    rw [List.length_append, hlen] at hroom
    rw [card_fill hk hempty, Nat.add_mul, List.append_nil]
    omega

/-- Only the units of the slots in use matter. -/
theorem Sound.congr {used' : Nat → Bool} {units' : Nat → List Nat} (h : Sound n w cap used units count free transit)
    (hused : ∀ k < n, used' k = used k) (hunits : ∀ k < n, used k = true → units' k = units k) :
    Sound n w cap used' units' count free transit := by
  refine ⟨fun k hk hu => ?_, fun a ha b hb hab hua hub => ?_, h.nodup, h.unheld, ?_⟩
  · rw [hused k hk] at hu
    rw [hunits k hk hu]
    exact h.whole k hk hu
  · rw [hused a ha] at hua
    rw [hused b hb] at hub
    rw [hunits a ha hua, hunits b hb hub]
    exact h.apart a ha b hb hab hua hub
  · have hsame : ((Finset.range n).filter fun k => used' k = true) =
        (Finset.range n).filter fun k => used k = true := by
      apply Finset.filter_congr
      intro k hk
      rw [hused k (Finset.mem_range.1 hk)]
    rw [hsame]
    exact h.room

end Holdings
