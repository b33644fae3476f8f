import Mathlib

/- Ranges of addresses and the map with ranges for keys, `base/range.hh` and
   `base/range_map.hh`, over any linear order.

   Correspondence (C++ ↔ Lean):
     Range<T>{start, end}                `Range`, both ends included
     range == pos                        `Range.Has`
     RangeSize(a, 1)                     `Range.single`
     std::map<Range<T>, V> tree          `RangeMap`, in the order of `start`
     --tree.upper_bound(r)               `RangeMap.before`
     range_map::find                     `RangeMap.find`
     range_map::insert                   `RangeMap.insert`, `none` for `end()`

   `find` looks at one entry only: the last one that starts at or before `r`,
   or the first of all if there is none. For one address that is enough as long
   as no two entries meet (`Sound.find_single`). For a whole range it is not:
   an entry that starts inside of `r` is not looked at if another one starts
   before `r`, so `insert` takes ranges it is there to refuse
   (`Sound.insert_missed_iff`). -/
namespace PrefetchSim

structure Range (α : Type*) where
  start : α
  stop : α
deriving Repr, DecidableEq

namespace Range

variable {α : Type*} [LinearOrder α]

/-- `range == pos`. -/
def Has (r : Range α) (a : α) : Prop := r.start ≤ a ∧ a ≤ r.stop

/-- The test both branches of `range_map::find` make. -/
def Meets (e r : Range α) : Prop := e.start ≤ r.stop ∧ r.start ≤ e.stop

instance (r : Range α) (a : α) : Decidable (r.Has a) := inferInstanceAs (Decidable (_ ∧ _))
instance (e r : Range α) : Decidable (e.Meets r) := inferInstanceAs (Decidable (_ ∧ _))

omit [LinearOrder α] in
/-- `RangeSize(a, 1)`. -/
def single (a : α) : Range α := ⟨a, a⟩

theorem meets_single {e : Range α} {a : α} : e.Meets (single a) ↔ e.Has a := Iff.rfl

end Range

/-- The tree of a `range_map`: `std::map` keeps it in the order of the keys,
    and two ranges are one key if they start at the same place. -/
structure RangeMap (α β : Type*) [LinearOrder α] where
  tree : List (Range α × β)
  sorted : tree.Pairwise fun x y => x.1.start < y.1.start

namespace RangeMap

variable {α β : Type*} [LinearOrder α]

instance : EmptyCollection (RangeMap α β) := ⟨⟨[], List.Pairwise.nil⟩⟩

@[simp] theorem tree_empty : (∅ : RangeMap α β).tree = [] := rfl

/-- The entry before `upper_bound(r)`, the first one that starts after `r`
    starts. -/
def before (r : Range α) : List (Range α × β) → Option (Range α × β)
  | [] => none
  | e :: l => if r.start < e.1.start then none else (before r l).or (some e)

/-- `tree.insert`: an entry with the same key stays as it is. -/
def place (r : Range α) (d : β) : List (Range α × β) → List (Range α × β)
  | [] => [(r, d)]
  | e :: l =>
    if r.start < e.1.start then (r, d) :: e :: l
    else if e.1.start < r.start then e :: place r d l
    else e :: l

theorem mem_place {r : Range α} {d : β} {e : Range α × β} :
    ∀ {l : List (Range α × β)}, e ∈ place r d l → e = (r, d) ∨ e ∈ l
  | [], h => by simpa [place] using h
  | x :: l, h => by
    simp only [place] at h
    split_ifs at h with h₁ h₂
    · simpa using h
    · obtain rfl | h := List.mem_cons.1 h
      · exact .inr List.mem_cons_self
      · exact (mem_place h).imp_right (List.mem_cons_of_mem _)
    · exact .inr h

theorem place_sorted (r : Range α) (d : β) {l : List (Range α × β)}
    (h : l.Pairwise fun x y => x.1.start < y.1.start) :
    (place r d l).Pairwise fun x y => x.1.start < y.1.start := by
  induction l with
  | nil => exact List.pairwise_singleton _ _
  | cons x l ih =>
    obtain ⟨hx, hl⟩ := List.pairwise_cons.1 h
    simp only [place]
    split_ifs with h₁ h₂
    · refine List.pairwise_cons.2 ⟨fun y hy => ?_, h⟩
      obtain rfl | hy := List.mem_cons.1 hy
      · exact h₁
      · exact h₁.trans (hx y hy)
    · refine List.pairwise_cons.2 ⟨fun y hy => ?_, ih hl⟩
      obtain rfl | hy := mem_place hy
      · exact h₂
      · exact hx y hy
    · exact h

def find (m : RangeMap α β) (r : Range α) : Option (Range α × β) :=
  ((before r m.tree).or m.tree.head?).filter fun e => e.1.Meets r

def insert (m : RangeMap α β) (r : Range α) (d : β) : Option (RangeMap α β) :=
  if (m.find r).isSome then none else some ⟨place r d m.tree, place_sorted r d m.sorted⟩

/-- The loops over the tree that erase the entries of one value. -/
def eraseIf (m : RangeMap α β) (p : β → Bool) : RangeMap α β :=
  ⟨m.tree.filter fun e => !p e.2, m.sorted.filter _⟩

theorem before_mem {r : Range α} {x : Range α × β} :
    ∀ {l : List (Range α × β)}, before r l = some x → x ∈ l
  | [], h => by simp [before] at h
  | e :: l, h => by
    simp only [before] at h
    split_ifs at h
    rcases Option.or_eq_some_iff.1 h with h | ⟨-, h⟩
    · exact List.mem_cons_of_mem _ (before_mem h)
    · exact Option.some.inj h ▸ List.mem_cons_self

theorem find_mem {m : RangeMap α β} {r : Range α} {e : Range α × β} (h : m.find r = some e) :
    e ∈ m.tree ∧ e.1.Meets r := by
  obtain ⟨h, hm⟩ := Option.filter_eq_some_iff.1 h
  refine ⟨?_, of_decide_eq_true hm⟩
  rcases Option.or_eq_some_iff.1 h with h | ⟨-, h⟩
  · exact before_mem h
  · exact List.mem_of_mem_head? h

/-- Nothing before `r`: the tree is empty or starts after it. -/
theorem before_eq_none {r : Range α} {l : List (Range α × β)} (h : before r l = none) :
    ∀ y ∈ l.head?, r.start < y.1.start := by
  intro y hy
  cases l with
  | nil => cases hy
  | cons e l =>
    obtain rfl : e = y := by simpa using hy
    simp only [before] at h
    split_ifs at h with h₁
    · exact h₁
    · simp at h

/-- What `before` finds stands at the last place that is not past the start of `r`. -/
theorem before_eq_some {r : Range α} {x : Range α × β} :
    ∀ {l : List (Range α × β)}, before r l = some x →
      ∃ l₁ l₂, l = l₁ ++ x :: l₂ ∧ x.1.start ≤ r.start ∧ ∀ y ∈ l₂.head?, r.start < y.1.start
  | [], h => by simp [before] at h
  | e :: l, h => by
    simp only [before] at h
    split_ifs at h with h₁
    rcases Option.or_eq_some_iff.1 h with h | ⟨hn, h⟩
    · obtain ⟨l₁, l₂, rfl, hx, hy⟩ := before_eq_some h
      exact ⟨e :: l₁, l₂, rfl, hx, hy⟩
    · obtain rfl := Option.some.inj h
      exact ⟨[], l, rfl, not_lt.1 h₁, before_eq_none hn⟩

theorem before_append {r : Range α} {x : Range α × β} {l₂ : List (Range α × β)}
    (hx : x.1.start ≤ r.start) (hy : ∀ y ∈ l₂.head?, r.start < y.1.start) :
    ∀ {l₁ : List (Range α × β)}, (∀ e ∈ l₁, e.1.start < x.1.start) →
      before r (l₁ ++ x :: l₂) = some x
  | [], _ => by
    have hn : before r l₂ = none := by
      cases l₂ with
      | nil => rfl
      | cons y l₂ => simp [before, hy y rfl]
    simp [before, hn, hx]
  | e :: l₁, h => by
    have he : ¬ r.start < e.1.start :=
      not_lt.2 ((h e List.mem_cons_self).le.trans hx)
    have ih := before_append hx hy fun e' he' => h e' (List.mem_cons_of_mem _ he')
    simp [before, he, ih]

/-- No address lies in two entries, and every entry has one. -/
structure Sound (m : RangeMap α β) : Prop where
  proper : ∀ e ∈ m.tree, e.1.start ≤ e.1.stop
  apart : m.tree.Pairwise fun x y => x.1.stop < y.1.start

theorem sound_empty : (∅ : RangeMap α β).Sound :=
  ⟨fun _ h => absurd h List.not_mem_nil, List.Pairwise.nil⟩

theorem Sound.eraseIf {m : RangeMap α β} (h : m.Sound) (p : β → Bool) : (m.eraseIf p).Sound :=
  ⟨fun e he => h.proper e ((List.mem_filter.1 he).1), h.apart.filter _⟩

/-- Two entries with an address in common are one. -/
theorem Sound.eq_of_has {m : RangeMap α β} (h : m.Sound) {x y : Range α × β} {a : α}
    (hx : x ∈ m.tree) (hy : y ∈ m.tree) (hxa : x.1.Has a) (hya : y.1.Has a) : x = y := by
  by_contra hne
  have hsymm : Std.Symm fun x y : Range α × β => x.1.stop < y.1.start ∨ y.1.stop < x.1.start :=
    ⟨fun _ _ => Or.symm⟩
  have hap : m.tree.Pairwise fun x y => x.1.stop < y.1.start ∨ y.1.stop < x.1.start :=
    h.apart.imp Or.inl
  rcases hap.forall hx hy hne with hlt | hlt
  · exact absurd (hlt.trans_le hya.1) (not_lt.2 hxa.2)
  · exact absurd (hlt.trans_le hxa.1) (not_lt.2 hya.2)

section split
variable {m : RangeMap α β} {l₁ l₂ : List (Range α × β)} {x : Range α × β}

theorem starts_lt (h : m.tree = l₁ ++ x :: l₂) : ∀ e ∈ l₁, e.1.start < x.1.start := by
  intro e he
  have hs := h ▸ m.sorted
  exact (List.pairwise_append.1 hs).2.2 e he x List.mem_cons_self

/-- Past an entry that starts after `a`, all do. -/
theorem lt_starts {a : α} (h : m.tree = l₁ ++ l₂) (hy : ∀ y ∈ l₂.head?, a < y.1.start) :
    ∀ e ∈ l₂, a < e.1.start := by
  intro e he
  have hs := (List.pairwise_append.1 (h ▸ m.sorted)).2.1
  cases l₂ with
  | nil => cases he
  | cons y l₂ =>
    have hya := hy y rfl
    obtain rfl | he := List.mem_cons.1 he
    · exact hya
    · exact hya.trans ((List.pairwise_cons.1 hs).1 e he)

end split

/-- One address: `find` tests the last entry that starts at or before it. -/
theorem find_single_last {m : RangeMap α β} {a : α} {e : Range α × β} (he : e ∈ m.tree)
    (ha : e.1.start ≤ a) (hlast : ∀ y ∈ m.tree, e.1.start < y.1.start → a < y.1.start) :
    m.find (.single a) = if e.1.Has a then some e else none := by
  obtain ⟨l₁, l₂, hl⟩ := List.append_of_mem he
  have hl₂ : ∀ y ∈ l₂.head?, a < y.1.start := by
    intro y hy
    have hy := List.mem_of_mem_head? hy
    have hs := (List.pairwise_append.1 (hl ▸ m.sorted)).2.1
    exact hlast y (by simp [hl, hy]) ((List.pairwise_cons.1 hs).1 y hy)
  have hb : before (.single a) m.tree = some e := by
    rw [hl]
    exact before_append ha hl₂ (starts_lt hl)
  simp only [find, hb, Option.some_or, Option.filter_some, Range.meets_single, decide_eq_true_eq]

/-- The other way round: behind the entry found nothing starts up to the address. -/
theorem lt_start_of_find_single {m : RangeMap α β} {a : α} {e : Range α × β}
    (h : m.find (.single a) = some e) : ∀ y ∈ m.tree, e.1.start < y.1.start → a < y.1.start := by
  intro y hy hlt
  have hm := (find_mem h).2
  rcases Option.or_eq_some_iff.1 (Option.filter_eq_some_iff.1 h).1 with hb | ⟨hb, hh⟩
  · obtain ⟨l₁, l₂, hl, -, hnext⟩ := before_eq_some hb
    rcases List.mem_append.1 (hl ▸ hy) with hy₁ | hy₂
    · exact absurd hlt (starts_lt hl y hy₁).not_gt
    · obtain rfl | hy₂ := List.mem_cons.1 hy₂
      · exact absurd hlt (lt_irrefl _)
      · have hl' : m.tree = (l₁ ++ [e]) ++ l₂ := by simp [hl]
        exact lt_starts hl' hnext y hy₂
  · exact absurd hm.1 (before_eq_none hb e hh).not_ge

/-- Looking up one address: `find` gives the entry that has it. -/
theorem Sound.find_single {m : RangeMap α β} (h : m.Sound) {a : α} {e : Range α × β} :
    m.find (.single a) = some e ↔ e ∈ m.tree ∧ e.1.Has a := by
  refine ⟨find_mem, fun ⟨hm, ha⟩ => ?_⟩
  rw [find_single_last hm ha.1, if_pos ha]
  intro y hy hlt
  by_contra hn
  have hya : y = e := h.eq_of_has hy hm (a := y.1.start) ⟨le_rfl, h.proper y hy⟩
    ⟨hlt.le, (not_lt.1 hn).trans ha.2⟩
  exact lt_irrefl _ (hya ▸ hlt)

theorem Sound.find_single_none {m : RangeMap α β} (h : m.Sound) {a : α} :
    m.find (.single a) = none ↔ ∀ e ∈ m.tree, ¬ e.1.Has a := by
  simp only [Option.eq_none_iff_forall_ne_some, ne_eq, h.find_single, not_and]

/-- What `find` says of a range that meets none of the entries. -/
theorem find_eq_none_of_free {m : RangeMap α β} {r : Range α} (h : ∀ e ∈ m.tree, ¬ e.1.Meets r) :
    m.find r = none := by
  refine Option.eq_none_iff_forall_ne_some.2 fun e he => ?_
  exact h e (find_mem he).1 (find_mem he).2

theorem mem_place_iff {r : Range α} {d : β} {e : Range α × β} :
    ∀ {l : List (Range α × β)}, (∀ x ∈ l, x.1.start ≠ r.start) →
      (e ∈ place r d l ↔ e = (r, d) ∨ e ∈ l)
  | [], _ => by simp [place]
  | x :: l, h => by
    have ih := mem_place_iff (e := e) (d := d) fun y hy => h y (List.mem_cons_of_mem _ hy)
    simp only [place]
    split_ifs with h₁ h₂
    · simp
    · rw [List.mem_cons, ih, List.mem_cons]
      exact or_left_comm
    · exact absurd (le_antisymm (not_lt.1 h₁) (not_lt.1 h₂)) (h x List.mem_cons_self)

/-- A range that meets no entry goes in, and the map stays sound. -/
theorem Sound.insert_free {m : RangeMap α β} (h : m.Sound) {r : Range α} {d : β}
    (hr : r.start ≤ r.stop) (hfree : ∀ e ∈ m.tree, ¬ e.1.Meets r) :
    ∃ m', m.insert r d = some m' ∧ m'.Sound ∧ ∀ e, e ∈ m'.tree ↔ e = (r, d) ∨ e ∈ m.tree := by
  have hne : ∀ x ∈ m.tree, x.1.start ≠ r.start := fun x hx hxr =>
    hfree x hx ⟨hxr.trans_le hr, hxr.symm.trans_le (h.proper x hx)⟩
  refine ⟨⟨place r d m.tree, place_sorted r d m.sorted⟩, ?_, ⟨?_, ?_⟩, fun e => mem_place_iff hne⟩
  · simp [insert, find_eq_none_of_free hfree]
  · intro e he
    obtain rfl | he := mem_place he
    · exact hr
    · exact h.proper e he
  · have hall : ∀ x ∈ place r d m.tree, ∀ y ∈ place r d m.tree, x.1.start < y.1.start →
        x.1.stop < y.1.start := by
      intro x hx y hy hxy
      by_contra hn
      have hn := not_lt.1 hn
      obtain rfl | hx := mem_place hx <;> obtain rfl | hy := mem_place hy
      · exact lt_irrefl _ hxy
      · exact hfree y hy ⟨hn, hxy.le.trans (h.proper y hy)⟩
      · exact hfree x hx ⟨hxy.le.trans hr, hn⟩
      · have : x = y := h.eq_of_has hx hy ⟨hxy.le, hn⟩ ⟨le_rfl, h.proper y hy⟩
        exact lt_irrefl _ (this ▸ hxy)
    exact (place_sorted r d m.sorted).imp_of_mem fun hx hy hxy => hall _ hx _ hy hxy

/-- What `find` misses starts after `r` does. -/
theorem Sound.lt_start_of_missed {m : RangeMap α β} (h : m.Sound) {r : Range α}
    (hf : m.find r = none) {e : Range α × β} (he : e ∈ m.tree)
    (hme : e.1.Meets r) : r.start < e.1.start := by
  by_contra hn
  have hn := not_lt.1 hn
  obtain ⟨l₁, l₂, hl⟩ := List.append_of_mem he
  have hl₂ : ∀ y ∈ l₂.head?, r.start < y.1.start := by
    intro y hy
    have hs := (List.pairwise_append.1 (hl ▸ h.apart)).2.1
    exact hme.2.trans_lt ((List.pairwise_cons.1 hs).1 y (List.mem_of_mem_head? hy))
  have hb : before r m.tree = some e := hl ▸ before_append hn hl₂ (starts_lt hl)
  simp [find, hb, hme] at hf

/-- The entries `x` and `y` stand next to one another. -/
def Adjacent (m : RangeMap α β) (x y : Range α × β) : Prop :=
  ∃ l₁ l₂, m.tree = l₁ ++ x :: y :: l₂

/-- `insert` takes a range that meets an entry exactly when the range starts in
    the gap between two neighbours and reaches the second one. -/
theorem Sound.insert_missed_iff {m : RangeMap α β} (h : m.Sound) {r : Range α} (d : β)
    (hr : r.start ≤ r.stop) :
    ((m.insert r d).isSome ∧ ∃ e ∈ m.tree, e.1.Meets r) ↔
      ∃ x y, m.Adjacent x y ∧ x.1.stop < r.start ∧ r.start < y.1.start ∧ y.1.start ≤ r.stop := by
  have hins : (m.insert r d).isSome ↔ m.find r = none := by
    cases hf : m.find r <;> simp [insert, hf]
  rw [hins]
  constructor
  · rintro ⟨hf, e, he, hme⟩
    cases hb : before r m.tree with
    | none =>
      -- only the first entry counts, and the one that meets `r` is behind it
      exfalso
      have hl : m.tree = [] ++ m.tree := rfl
      have hlt := lt_starts hl (before_eq_none hb)
      cases hm : m.tree with
      | nil => simp [hm] at he
      | cons y l =>
        have hy : y ∈ m.tree := hm ▸ List.mem_cons_self
        have hye : y.1.start ≤ e.1.start := by
          obtain rfl | hel := List.mem_cons.1 (hm ▸ he)
          · exact le_rfl
          · exact ((List.pairwise_cons.1 (hm ▸ m.sorted)).1 e hel).le
        have : y.1.Meets r := ⟨hye.trans hme.1, (hlt y hy).le.trans (h.proper y hy)⟩
        simp only [find, hb, Option.none_or] at hf
        simp [hm, this] at hf
    | some x =>
      obtain ⟨l₁, l₂, hl, hx, hy⟩ := before_eq_some hb
      have hxm : x ∈ m.tree := before_mem hb
      have hxr : x.1.stop < r.start := by
        by_contra hn
        exact absurd (h.lt_start_of_missed hf hxm ⟨hx.trans hr, not_lt.1 hn⟩) (not_lt.2 hx)
      have hl' : m.tree = (l₁ ++ [x]) ++ l₂ := by simp [hl]
      have hel₂ : e ∈ l₂ := by
        have hap := List.pairwise_append.1 (hl ▸ h.apart)
        rcases List.mem_append.1 (hl ▸ he) with hel | hel
        · have : e.1.stop < x.1.start := hap.2.2 e hel x List.mem_cons_self
          exact absurd (this.trans_le hx) (not_lt.2 hme.2)
        · obtain rfl | hel := List.mem_cons.1 hel
          · exact absurd hxr (not_lt.2 hme.2)
          · exact hel
      cases l₂ with
      | nil => cases hel₂
      | cons y l₂ =>
        refine ⟨x, y, ⟨l₁, l₂, hl⟩, hxr, hy y rfl, ?_⟩
        obtain rfl | hel := List.mem_cons.1 hel₂
        · exact hme.1
        · have hs := (List.pairwise_append.1 (hl' ▸ m.sorted)).2.1
          exact ((List.pairwise_cons.1 hs).1 e hel).le.trans hme.1
  · rintro ⟨x, y, ⟨l₁, l₂, hl⟩, hxr, hry, hyr⟩
    have hym : y ∈ m.tree := by simp [hl]
    have hxm : x ∈ m.tree := by simp [hl]
    refine ⟨?_, y, hym, hyr, hry.le.trans (h.proper y hym)⟩
    have hb : before r m.tree = some x := by
      rw [hl]
      refine before_append ((h.proper x hxm).trans hxr.le) (fun z hz => ?_) (starts_lt hl)
      obtain rfl : y = z := by simpa using hz
      exact hry
    have : ¬ x.1.Meets r := fun hm => absurd hxr (not_lt.2 hm.2)
    simp [find, hb, this]

end RangeMap
end PrefetchSim
