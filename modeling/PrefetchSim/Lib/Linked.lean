import Mathlib.Data.List.Chain
import Mathlib.Data.List.Nodup
import Mathlib.Data.List.Perm.Basic
import Mathlib.Logic.Function.Basic

/- Doubly linked lists that are kept as a stack: a node that is used is unlinked and goes to the
   front.

   `Spells` ties the links of the nodes to a list. The lemmas say what list the links spell after
   a node is unlinked (`Spells.unlink`, `Spells.unlink_last`) and after one is linked in front
   (`Spells.push`).

   The rest is about positions in such a stack. When a node goes to the front, the nodes before it
   move back by one and the others stay (`idxOf_front`). So which node is at a position, and
   whether a node is within it, can be kept up to date from what was there (`at_front`,
   `within_front`). -/
namespace Linked

variable {ι : Type*}

/-! ## Links -/

/-- The links lead along the list in both directions, and end with it. The node before the first
one is not spelled. -/
structure Spells (next prev : ι → Option ι) (l : List ι) : Prop where
  chain : l.IsChain fun a b => next a = some b ∧ prev b = some a
  last : ∀ a ∈ l.getLast?, next a = none

variable {next prev next' prev' : ι → Option ι} {l xs ys : List ι} {a b x : ι}

theorem Spells.congr (h : Spells next prev l) (hnext : ∀ a ∈ l, next' a = next a)
    (hprev : ∀ a ∈ l.tail, prev' a = prev a) : Spells next' prev' l where
  chain := by
    refine h.chain.imp_of_mem_tail_imp ?_
    intro a b ha hb hab
    rw [hnext a ha, hprev b hb]
    exact hab
  last a ha := (hnext a (List.mem_of_getLast? ha)).trans (h.last a ha)

theorem Spells.pair (h : Spells next prev (xs ++ a :: b :: ys)) : next a = some b ∧ prev b = some a :=
  (List.isChain_append.1 h.chain).2.1.rel_head? rfl

theorem Spells.next_eq (h : Spells next prev (xs ++ a :: ys)) : next a = ys.head? := by
  cases ys with
  | nil => exact h.last a (by simp)
  | cons b ys => exact h.pair.1

theorem isChain_concat {R S : ι → ι → Prop} (h : (xs ++ [a]).IsChain R)
    (hRS : ∀ c ∈ xs, ∀ d ∈ xs ++ [a], R c d → S c d) : (xs ++ [a]).IsChain S := by
  rw [List.isChain_append] at h ⊢
  obtain ⟨hxs, -, hlast⟩ := h
  refine ⟨?_, .singleton a, ?_⟩
  · exact hxs.imp_of_mem_imp fun c d hc hd => hRS c hc d (List.mem_append_left _ hd)
  · intro c hc d hd
    refine hRS c (List.mem_of_getLast? hc) d ?_ (hlast c hc d hd)
    exact List.mem_append_right _ (List.mem_of_mem_head? hd)

section

variable [DecidableEq ι]

/-- A node is taken out between two others. -/
theorem Spells.unlink (h : Spells next prev (xs ++ a :: x :: b :: ys)) (hl : (xs ++ a :: x :: b :: ys).Nodup) :
    Spells (Function.update next a (some b)) (Function.update prev b (some a)) (xs ++ a :: b :: ys) where
  chain := by
    have hchain := h.chain
    rw [List.isChain_append_cons_cons, List.isChain_cons_cons] at hchain
    obtain ⟨hxs, -, -, hys⟩ := hchain
    rw [List.isChain_append_cons_cons]
    refine ⟨isChain_concat hxs ?_, ⟨Function.update_self .., Function.update_self ..⟩, ?_⟩
    · intro c hc d hd hcd
      have hca : c ≠ a := by
        rintro rfl
        grind
      have hdb : d ≠ b := by
        rintro rfl
        grind
      rwa [Function.update_of_ne hca, Function.update_of_ne hdb]
    · refine hys.imp_of_mem_tail_imp ?_
      intro c d hc hd hcd
      have hca : c ≠ a := by
        rintro rfl
        grind
      have hdb : d ≠ b := by
        rintro rfl
        grind
      rwa [Function.update_of_ne hca, Function.update_of_ne hdb]
  last c hc := by
    have hmem : c ∈ (b :: ys).getLast? := by simpa [List.getLast?_append] using hc
    have hca : c ≠ a := by
      rintro rfl
      have := List.mem_of_getLast? hmem
      grind
    rw [Function.update_of_ne hca]
    apply h.last c
    simpa [List.getLast?_append] using hc

/-- The last node is taken out. -/
theorem Spells.unlink_last (h : Spells next prev (xs ++ [a, x])) (hl : (xs ++ [a, x]).Nodup) :
    Spells (Function.update next a none) prev (xs ++ [a]) where
  chain := by
    have hchain := h.chain
    rw [List.isChain_append_cons_cons] at hchain
    refine isChain_concat hchain.1 ?_
    intro c hc d _ hcd
    have hca : c ≠ a := by
      rintro rfl
      grind
    rwa [Function.update_of_ne hca]
  last c hc := by
    obtain rfl : c = a := by simpa using hc.symm
    exact Function.update_self ..

/-- A node is linked in front. -/
theorem Spells.push (h : Spells next prev (a :: ys)) (hx : x ∉ a :: ys) (ha : a ∉ ys) (p : Option ι) :
    Spells (Function.update next x (some a)) (Function.update (Function.update prev x p) a (some x))
      (x :: a :: ys) where
  chain := by
    rw [List.isChain_cons_cons]
    refine ⟨⟨Function.update_self .., Function.update_self ..⟩, ?_⟩
    refine h.chain.imp_of_mem_tail_imp ?_
    intro c d hc hd hcd
    have hcx : c ≠ x := ne_of_mem_of_not_mem hc hx
    have hdx : d ≠ x := ne_of_mem_of_not_mem (List.mem_of_mem_tail hd) hx
    have hda : d ≠ a := ne_of_mem_of_not_mem hd ha
    rwa [Function.update_of_ne hcx, Function.update_of_ne hda, Function.update_of_ne hdx]
  last c hc := by
    have hc' : c ∈ (a :: ys).getLast? := by simpa using hc
    have hcx : c ≠ x := ne_of_mem_of_not_mem (List.mem_of_getLast? hc') hx
    rw [Function.update_of_ne hcx]
    exact h.last c hc'

/-! ## Positions -/

theorem idxOf_append_cons (hl : (xs ++ a :: ys).Nodup) : (xs ++ a :: ys).idxOf a = xs.length := by
  have hnotin : a ∉ xs := by grind
  rw [List.idxOf_append_of_notMem hnotin, List.idxOf_cons_self, Nat.add_zero]

omit [DecidableEq ι] in
theorem getLast?_eq_iff (hl : (xs ++ a :: ys).Nodup) : (xs ++ a :: ys).getLast? = some a ↔ ys = [] := by
  constructor
  · intro hlast
    cases ys with
    | nil => rfl
    | cons b ys =>
      have hmem : a ∈ b :: ys := List.mem_of_getLast? (by simpa [List.getLast?_append] using hlast)
      grind
  · rintro rfl
    simp

theorem cons_erase_of_head? (hx : l.head? = some x) : x :: l.erase x = l := by
  cases l with
  | nil => cases hx
  | cons a l =>
    obtain rfl := Option.some.inj hx
    rw [List.erase_cons_head]

/-- Where the others are once `x` is in front. -/
theorem idxOf_front (hx : x ∈ l) (ha : a ≠ x) :
    (x :: l.erase x).idxOf a = if l.idxOf a < l.idxOf x then l.idxOf a + 1 else l.idxOf a := by
  rw [List.idxOf_cons_ne _ ha.symm]
  induction l with
  | nil => cases hx
  | cons y l ih =>
    by_cases hy : y = x
    · subst hy
      rw [List.erase_cons_head, List.idxOf_cons_self, List.idxOf_cons_ne _ ha.symm]
      simp
    · rw [List.erase_cons_tail (by simpa using hy), List.idxOf_cons_ne _ hy]
      by_cases hya : y = a
      · subst hya
        simp
      · have hmem := (List.mem_cons.1 hx).resolve_left (Ne.symm hy)
        rw [List.idxOf_cons_ne _ hya, List.idxOf_cons_ne _ hya, ih hmem]
        split <;> split <;> omega

/-- `a` is the node at position `k`. -/
def At (l : List ι) (k : Nat) (a : ι) : Prop := a ∈ l ∧ l.idxOf a = k

theorem At.unique {k : Nat} (ha : At l k a) (hb : At l k b) : a = b :=
  (List.idxOf_inj ha.1).1 (ha.2.trans hb.2.symm)

theorem at_range {n k : Nat} (hk : k < n) : At (List.range n) k k := by
  refine ⟨List.mem_range.2 hk, ?_⟩
  have hlen : k < (List.range n).length := by rwa [List.length_range]
  have hidx := List.nodup_range.idxOf_getElem k hlen
  rwa [List.getElem_range] at hidx

/-- Which node is at a position once `x` is in front: the one before the one that was there, if `x`
comes from behind it or from the position itself. -/
theorem at_front {k : Nat} (hx : x ∈ l) (ha : At l (k + 1) a) (hbefore : k + 1 ≤ l.idxOf x → At l k b)
    (hsame : l.idxOf x < k + 1 → b = a) : At (x :: l.erase x) (k + 1) b := by
  have hb : b ∈ l ∧ l.idxOf b ≠ l.idxOf x ∧
      (if l.idxOf b < l.idxOf x then l.idxOf b + 1 else l.idxOf b) = k + 1 := by
    by_cases hle : k + 1 ≤ l.idxOf x
    · obtain ⟨hmem, hidx⟩ := hbefore hle
      refine ⟨hmem, by omega, ?_⟩
      rw [hidx, if_pos (by omega)]
    · obtain rfl := hsame (by omega)
      obtain ⟨hmem, hidx⟩ := ha
      refine ⟨hmem, by omega, ?_⟩
      rw [hidx, if_neg (by omega)]
  obtain ⟨hmem, hne, hidx⟩ := hb
  have hbx : b ≠ x := fun heq => hne (by rw [heq])
  refine ⟨(List.perm_cons_erase hx).mem_iff.1 hmem, ?_⟩
  rw [idxOf_front hx hbx, hidx]

/-- The nodes up to position `k` are the same ones, but that `x` is among them, and the one at the
position is not if `x` was not. -/
theorem within_front {k : Nat} (hx : x ∈ l) (ha : a ∈ l) (hne : a ≠ x) :
    (x :: l.erase x).idxOf a ≤ k ↔ l.idxOf a ≤ k ∧ ¬(k < l.idxOf x ∧ l.idxOf a = k) := by
  have hplace : l.idxOf a ≠ l.idxOf x := fun heq => hne ((List.idxOf_inj ha).1 heq)
  rw [idxOf_front hx hne]
  split <;> omega

/-- The link back leads to the position before. -/
theorem Spells.prev_at (h : Spells next prev l) (hl : l.Nodup) {k : Nat} (ha : At l (k + 1) a) :
    ∃ b, prev a = some b ∧ At l k b := by
  obtain ⟨hmem, hidx⟩ := ha
  have hlt : k + 1 < l.length := by
    rw [← hidx]
    exact List.idxOf_lt_length_iff.2 hmem
  have hget : l[k + 1] = a := by
    have := List.getElem_idxOf (List.idxOf_lt_length_iff.2 hmem)
    simpa only [hidx] using this
  have hpair := List.isChain_iff_getElem.1 h.chain k hlt
  rw [hget] at hpair
  exact ⟨l[k], hpair.2, List.getElem_mem _, hl.idxOf_getElem k (by omega)⟩

end

end Linked
