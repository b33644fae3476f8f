import Mathlib.Algebra.BigOperators.Ring.Finset
import Mathlib.Algebra.BigOperators.Group.Finset.Piecewise
import Mathlib.Algebra.Order.BigOperators.Group.Finset
import Mathlib.Tactic.Ring

/- Counters kept next to a finite family of items. An item is in one class or in none, and the
   counter of a class is meant to say how many items are in it. The tally is exact as long as a
   counter moves only when an item does. A counter that is taken down while no item leaves
   makes the tally short: the counters together say less than there is. Taking another one
   down, for an item that leaves or for none, does not make up for it. -/
namespace Tally

variable {ι β : Type*} {items : Finset ι} {bins : Finset β} {cls cls' : ι → Option β}
  {c : β → ℤ} {i : ι} {b : β}

/-- The items that are in a class. -/
def placed (items : Finset ι) (cls : ι → Option β) : Finset ι := items.filter fun i => (cls i).isSome

/-- The counters say less than there is. -/
def Short (items : Finset ι) (bins : Finset β) (cls : ι → Option β) (c : β → ℤ) : Prop :=
  ∑ b ∈ bins, c b < (placed items cls).card

@[simp] theorem mem_placed : i ∈ placed items cls ↔ i ∈ items ∧ (cls i).isSome := Finset.mem_filter

theorem placed_congr (h : ∀ i ∈ items, (cls' i).isSome = (cls i).isSome) : placed items cls' = placed items cls := by
  apply Finset.filter_congr
  intro i hi
  rw [h i hi]

theorem Short.congr (h : Short items bins cls c) (hcls : ∀ i ∈ items, cls' i = cls i) : Short items bins cls' c := by
  rwa [Short, placed_congr fun i hi => by rw [hcls i hi]]

variable [DecidableEq β]

/-- The items of a class. -/
def members (items : Finset ι) (cls : ι → Option β) (b : β) : Finset ι := items.filter fun i => cls i = some b

/-- Every counter is the number of items in its class. -/
def Exact (items : Finset ι) (cls : ι → Option β) (c : β → ℤ) : Prop := ∀ b, c b = (members items cls b).card

/-- A counter is moved. -/
def bump (c : β → ℤ) (b : β) (d : ℤ) : β → ℤ := Function.update c b (c b + d)

@[simp] theorem mem_members : i ∈ members items cls b ↔ i ∈ items ∧ cls i = some b := Finset.mem_filter

theorem sum_bump (hb : b ∈ bins) (c : β → ℤ) (d : ℤ) : ∑ x ∈ bins, bump c b d x = ∑ x ∈ bins, c x + d := by
  rw [bump, Finset.sum_update_of_mem hb, Finset.sdiff_singleton_eq_erase, ← Finset.add_sum_erase bins c hb]
  ring

/-- A single counter is a tally with one class. -/
@[simp] theorem bump_unit (n d : ℤ) : bump (fun _ : Unit => n) () d = fun _ => n + d := by
  funext _
  exact Function.update_self ..

theorem Exact.congr (h : Exact items cls c) (hcls : ∀ i ∈ items, cls' i = cls i) : Exact items cls' c := by
  intro b
  have hmembers : members items cls' b = members items cls b := by
    apply Finset.filter_congr
    intro i hi
    rw [hcls i hi]
  rw [h b, hmembers]

variable [DecidableEq ι]

/-- Together the counters say how many items are in a class. -/
theorem Exact.sum (h : Exact items cls c) (hbins : ∀ i ∈ items, ∀ b, cls i = some b → b ∈ bins) :
    ∑ b ∈ bins, c b = (placed items cls).card := by
  have hcover : placed items cls = bins.biUnion (members items cls) := by
    ext i
    simp only [mem_placed, Finset.mem_biUnion, mem_members, Option.isSome_iff_exists]
    constructor
    · rintro ⟨hi, b, hb⟩
      exact ⟨b, hbins i hi b hb, hi, hb⟩
    · rintro ⟨b, -, hi, hb⟩
      exact ⟨hi, b, hb⟩
  have hdisjoint : (bins : Set β).PairwiseDisjoint (members items cls) := by
    intro b _ b' _ hne
    rw [Function.onFun, Finset.disjoint_left]
    intro i hi hi'
    rw [mem_members] at hi hi'
    exact hne (Option.some.inj (hi.2.symm.trans hi'.2))
  rw [hcover, Finset.card_biUnion hdisjoint, Nat.cast_sum]
  exact Finset.sum_congr rfl fun b _ => h b

/-- An item leaves its class, and the counter goes down with it. -/
theorem Exact.leave (h : Exact items cls c) (hi : i ∈ items) (hb : cls i = some b) :
    Exact items (Function.update cls i none) (bump c b (-1)) := by
  intro x
  have hmembers : members items (Function.update cls i none) x = (members items cls x).erase i := by
    ext j
    by_cases hj : j = i <;> simp [hj]
  rw [hmembers]
  by_cases hx : x = b
  · subst hx
    have hmem : i ∈ members items cls x := mem_members.2 ⟨hi, hb⟩
    have hpos := Finset.card_pos.2 ⟨i, hmem⟩
    rw [Finset.card_erase_of_mem hmem, bump, Function.update_self, h x]
    omega
  · have hmem : i ∉ members items cls x := by
      rw [mem_members, hb, Option.some.injEq]
      exact fun hc => hx hc.2.symm
    rw [Finset.erase_eq_of_notMem hmem, bump, Function.update_of_ne hx, h x]

/-- An item enters a class, and the counter goes up with it. -/
theorem Exact.enter (h : Exact items cls c) (hi : i ∈ items) (hnone : cls i = none) (b : β) :
    Exact items (Function.update cls i (some b)) (bump c b 1) := by
  intro x
  by_cases hx : x = b
  · subst hx
    have hmembers : members items (Function.update cls i (some x)) x = insert i (members items cls x) := by
      ext j
      by_cases hj : j = i
      · simp [hj, hi]
      · simp [hj]
    rw [hmembers, Finset.card_insert_of_notMem (by simp [hnone]), bump, Function.update_self, h x]
    push_cast
    rfl
  · have hmembers : members items (Function.update cls i (some b)) x = members items cls x := by
      ext j
      by_cases hj : j = i
      · simp [hj, hnone, Ne.symm hx]
      · simp [hj]
    rw [hmembers, bump, Function.update_of_ne hx, h x]

/-- A counter goes down, and no item leaves. -/
theorem Exact.short (h : Exact items cls c) (hbins : ∀ i ∈ items, ∀ b, cls i = some b → b ∈ bins)
    (hplaced : ∀ i ∈ items, (cls' i).isSome = (cls i).isSome) (hb : b ∈ bins) :
    Short items bins cls' (bump c b (-1)) := by
  rw [Short, sum_bump hb, h.sum hbins, placed_congr hplaced]
  omega

/-- A counter goes down and one item leaves, if any. -/
theorem Short.down (h : Short items bins cls c) (i : ι) (hcls : ∀ j ∈ items, j ≠ i → cls' j = cls j) (hb : b ∈ bins) :
    Short items bins cls' (bump c b (-1)) := by
  have hsub : placed items cls ⊆ insert i (placed items cls') := by
    intro j hj
    rw [Finset.mem_insert]
    by_cases hji : j = i
    · exact .inl hji
    · rw [mem_placed] at hj
      rw [mem_placed, hcls j hj.1 hji]
      exact .inr hj
  have hcard := (Finset.card_le_card hsub).trans (Finset.card_insert_le i _)
  rw [Short] at h ⊢
  rw [sum_bump hb]
  omega

end Tally
