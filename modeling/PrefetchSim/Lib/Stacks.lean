import Mathlib.Data.List.Sort
import Mathlib.Data.List.Nodup
import Mathlib.Logic.Function.Basic

/- Queues kept as a list of stacks. The nodes of one key are a stack, a bin; the bins are in
   order of their keys. So the newest node of the least key is in front.

   Three levels. `next` and lists in order of arrival, the newest first, say what such a queue
   is for; insertion sort, which leaves equal keys in that order, is the way it is listed
   (`filter_sorted`, `next_eq_head`). `push` and `pull` are the operations on bins, and what
   they do to the nodes listed is `contents_push` and `contents_pull`. `Spells` ties the bins to
   links: `right` leads from the top of a bin to the top of the next one, `down` from a node to
   the one below it in its bin. The `right` link of a node that is not on top says nothing. -/
namespace Stacks

variable {ν κ : Type*} [LinearOrder κ]

/-! ## What the queue is for -/

/-- In order of the keys, and in the given order where they are equal. -/
def sorted (key : ν → κ) (l : List ν) : List ν := l.insertionSort fun a b => key a ≤ key b

/-- The first node among those with the least key. -/
def next (key : ν → κ) : List ν → Option ν
  | [] => none
  | a :: l => match next key l with
    | none => some a
    | some b => if key a ≤ key b then some a else some b

section

variable {key : ν → κ} {x : ν} {l l' : List ν}

theorem orderedInsert_of_forall (h : ∀ y ∈ l, key x ≤ key y) :
    l.orderedInsert (fun a b => key a ≤ key b) x = x :: l := by
  cases l with
  | nil => rfl
  | cons y l => rw [List.orderedInsert_cons, if_pos (h y List.mem_cons_self)]

theorem orderedInsert_append (h : ∀ y ∈ l, key y < key x) :
    (l ++ l').orderedInsert (fun a b => key a ≤ key b) x =
      l ++ l'.orderedInsert (fun a b => key a ≤ key b) x := by
  induction l with
  | nil => rfl
  | cons y l ih =>
    obtain ⟨hy, hl⟩ := List.forall_mem_cons.1 h
    rw [List.cons_append, List.orderedInsert_cons, if_neg (not_le_of_gt hy), ih hl, List.cons_append]

theorem filter_orderedInsert (hl : l.Pairwise fun a b => key a ≤ key b) (p : ν → Bool) :
    (l.orderedInsert (fun a b => key a ≤ key b) x).filter p =
      if p x then (l.filter p).orderedInsert (fun a b => key a ≤ key b) x else l.filter p := by
  induction l with
  | nil => cases hp : p x <;> simp [hp]
  | cons y l ih =>
    obtain ⟨hy, hl⟩ := List.pairwise_cons.1 hl
    rw [List.orderedInsert_cons]
    by_cases hxy : key x ≤ key y
    · -- the rest has keys no smaller, so what is left of it does too
      have hall : ∀ z ∈ (y :: l).filter p, key x ≤ key z := by
        intro z hz
        rcases List.mem_cons.1 (List.mem_filter.1 hz).1 with rfl | hz
        · exact hxy
        · exact hxy.trans (hy z hz)
      rw [if_pos hxy, orderedInsert_of_forall hall, List.filter_cons]
    · rw [if_neg hxy, List.filter_cons, List.filter_cons, ih hl]
      cases p y <;> cases p x <;> simp [hxy]

theorem sorted_pairwise (key : ν → κ) (l : List ν) : (sorted key l).Pairwise fun a b => key a ≤ key b := by
  have : Std.Total fun a b : ν => key a ≤ key b := ⟨fun a b => le_total _ _⟩
  have : IsTrans ν fun a b => key a ≤ key b := ⟨fun a b c => le_trans⟩
  exact List.pairwise_insertionSort _ l

theorem filter_sorted (key : ν → κ) (p : ν → Bool) (l : List ν) :
    sorted key (l.filter p) = (sorted key l).filter p := by
  induction l with
  | nil => rfl
  | cons x l ih =>
    have hcons : sorted key (x :: l) = (sorted key l).orderedInsert (fun a b => key a ≤ key b) x := rfl
    rw [hcons, filter_orderedInsert (sorted_pairwise key l), List.filter_cons, ← ih]
    cases p x <;> rfl

theorem next_eq_head (key : ν → κ) (l : List ν) : next key l = (sorted key l).head? := by
  induction l with
  | nil => rfl
  | cons x l ih =>
    have hcons : sorted key (x :: l) = (sorted key l).orderedInsert (fun a b => key a ≤ key b) x := rfl
    rw [next, ih, hcons]
    cases sorted key l with
    | nil => rfl
    | cons y ys =>
      rw [List.head?_cons, List.orderedInsert_cons]
      dsimp only
      split <;> rfl

/-- The least key, and of the nodes before it none has it. -/
theorem next_spec {a : ν} (h : next key l = some a) : ∃ l₁ l₂, l = l₁ ++ a :: l₂ ∧
    (∀ b ∈ l₁, key a < key b) ∧ ∀ b ∈ l₂, key a ≤ key b := by
  induction l generalizing a with
  | nil => cases h
  | cons x l ih =>
    rw [next] at h
    cases hl : next key l with
    | none =>
      cases l with
      | nil =>
        rw [hl] at h
        cases h
        exact ⟨[], [], rfl, by simp, by simp⟩
      | cons y ys =>
        rw [next_eq_head, List.head?_eq_none_iff] at hl
        have hmem : y ∈ sorted key (y :: ys) := (List.mem_insertionSort _).2 List.mem_cons_self
        rw [hl] at hmem
        cases hmem
    | some b =>
      rw [hl] at h
      dsimp only at h
      obtain ⟨l₁, l₂, hsplit, hbefore, hafter⟩ := ih hl
      by_cases hx : key x ≤ key b
      · rw [if_pos hx] at h
        cases h
        refine ⟨[], l, rfl, by simp, ?_⟩
        intro c hc
        rw [hsplit, List.mem_append, List.mem_cons] at hc
        rcases hc with hc | rfl | hc
        · exact hx.trans (hbefore c hc).le
        · exact hx
        · exact hx.trans (hafter c hc)
      · rw [if_neg hx] at h
        cases h
        refine ⟨x :: l₁, l₂, by rw [hsplit, List.cons_append], ?_, hafter⟩
        intro c hc
        rcases List.mem_cons.1 hc with rfl | hc
        · exact lt_of_not_ge hx
        · exact hbefore c hc

end

/-! ## Bins -/

/-- A stack with at least one node. -/
structure Bin (ν : Type*) where
  top : ν
  rest : List ν

def Bin.toList (b : Bin ν) : List ν := b.top :: b.rest

/-- The nodes of the bins in order. -/
def contents (bins : List (Bin ν)) : List ν := bins.flatMap Bin.toList

/-- Put a node on top of the bin of its key, or into a new bin. -/
def push (key : ν → κ) (x : ν) : List (Bin ν) → List (Bin ν)
  | [] => [⟨x, []⟩]
  | b :: bs =>
    if key b.top < key x then b :: push key x bs
    else if key x < key b.top then ⟨x, []⟩ :: b :: bs
    else ⟨x, b.toList⟩ :: bs

/-- A bin without a node of it; without its only node, no bin. -/
def Bin.drop [DecidableEq ν] (b : Bin ν) (x : ν) : List (Bin ν) :=
  if x = b.top then
    match b.rest with
    | [] => []
    | y :: ys => [⟨y, ys⟩]
  else [⟨b.top, b.rest.erase x⟩]

/-- Take a node out of the bin of its key. -/
def pull [DecidableEq ν] (key : ν → κ) (x : ν) : List (Bin ν) → List (Bin ν)
  | [] => []
  | b :: bs => if key b.top < key x then b :: pull key x bs else b.drop x ++ bs

/-- The nodes of a bin have one key, and these keys increase from bin to bin. -/
structure Ordered (key : ν → κ) (bins : List (Bin ν)) : Prop where
  same : ∀ b ∈ bins, ∀ x ∈ b.rest, key x = key b.top
  increasing : bins.Pairwise fun b c => key b.top < key c.top

variable {key : ν → κ} {x : ν} {b : Bin ν} {bins pre post : List (Bin ν)}

@[simp] theorem contents_nil : contents ([] : List (Bin ν)) = [] := rfl

@[simp] theorem contents_cons : contents (b :: bins) = b.toList ++ contents bins := rfl

@[simp] theorem contents_append : contents (pre ++ post) = contents pre ++ contents post :=
  List.flatMap_append

theorem mem_contents : x ∈ contents bins ↔ ∃ b ∈ bins, x ∈ b.toList := List.mem_flatMap

theorem top_mem_contents (h : b ∈ bins) : b.top ∈ contents bins :=
  mem_contents.2 ⟨b, h, List.mem_cons_self⟩

theorem length_le_contents (bins : List (Bin ν)) : bins.length ≤ (contents bins).length := by
  induction bins with
  | nil => exact Nat.le_refl 0
  | cons b bs ih =>
    rw [contents_cons, List.length_append, List.length_cons, Bin.toList, List.length_cons]
    omega

theorem ordered_cons : Ordered key (b :: bins) ↔
    (∀ y ∈ b.rest, key y = key b.top) ∧ (∀ c ∈ bins, key b.top < key c.top) ∧ Ordered key bins := by
  constructor
  · intro h
    obtain ⟨hb, hbins⟩ := List.pairwise_cons.1 h.increasing
    exact ⟨h.same b List.mem_cons_self, hb, fun c hc => h.same c (List.mem_cons_of_mem _ hc), hbins⟩
  · intro ⟨hb, hlt, h⟩
    exact ⟨List.forall_mem_cons.2 ⟨hb, h.same⟩, List.pairwise_cons.2 ⟨hlt, h.increasing⟩⟩

theorem Ordered.key_of_mem (h : Ordered key bins) (hb : b ∈ bins) (hx : x ∈ b.toList) :
    key x = key b.top := by
  rcases List.mem_cons.1 hx with rfl | hx
  · rfl
  · exact h.same b hb x hx

/-- A node is in the bin of its key. -/
theorem Ordered.mem_bin (h : Ordered key (b :: bins)) (hx : x ∈ contents (b :: bins))
    (hge : ¬ key b.top < key x) : x ∈ b.toList := by
  obtain ⟨-, hlt, hbs⟩ := ordered_cons.1 h
  rw [contents_cons, List.mem_append] at hx
  refine hx.resolve_right fun hx => ?_
  obtain ⟨c, hc, hxc⟩ := mem_contents.1 hx
  apply hge
  rw [hbs.key_of_mem hc hxc]
  exact hlt c hc

theorem Ordered.append_right (h : Ordered key (pre ++ post)) : Ordered key post :=
  ⟨fun c hc => h.same c (List.mem_append_right _ hc), (List.pairwise_append.1 h.increasing).2.1⟩

theorem Ordered.tail (h : Ordered key (b :: bins)) : Ordered key bins := (ordered_cons.1 h).2.2

/-- Only the keys of the nodes in the bins matter. -/
theorem Ordered.congr {key' : ν → κ} (h : Ordered key bins) (hkey : ∀ y ∈ contents bins, key' y = key y) :
    Ordered key' bins := by
  have htop : ∀ c ∈ bins, key' c.top = key c.top := fun c hc => hkey _ (top_mem_contents hc)
  constructor
  · intro c hc y hy
    rw [hkey y (mem_contents.2 ⟨c, hc, List.mem_cons_of_mem _ hy⟩), htop c hc, h.same c hc y hy]
  · refine h.increasing.imp_of_mem ?_
    intro c d hc hd hlt
    rwa [htop c hc, htop d hd]

/-! ### A node more -/

theorem push_append (h : ∀ c ∈ pre, key c.top < key x) : push key x (pre ++ post) = pre ++ push key x post := by
  induction pre with
  | nil => rfl
  | cons b pre ih =>
    obtain ⟨hb, hpre⟩ := List.forall_mem_cons.1 h
    rw [List.cons_append, push, if_pos hb, ih hpre, List.cons_append]

theorem contents_push (h : Ordered key bins) :
    contents (push key x bins) = (contents bins).orderedInsert (fun a b => key a ≤ key b) x := by
  induction bins with
  | nil => rfl
  | cons b bs ih =>
    rw [push]
    by_cases hlt : key b.top < key x
    · have hbin : ∀ y ∈ b.toList, key y < key x := by
        intro y hy
        rwa [h.key_of_mem List.mem_cons_self hy]
      rw [if_pos hlt, contents_cons, contents_cons, ih h.tail, orderedInsert_append hbin]
    · have hfront : (contents (b :: bs)).orderedInsert (fun a b => key a ≤ key b) x = x :: contents (b :: bs) := by
        rw [contents_cons, Bin.toList, List.cons_append, List.orderedInsert_cons, if_pos (le_of_not_gt hlt)]
      rw [if_neg hlt, hfront]
      split <;> rfl

theorem mem_push {c : Bin ν} (h : c ∈ push key x bins) : key c.top = key x ∨ c ∈ bins := by
  induction bins with
  | nil =>
    obtain rfl := List.mem_singleton.1 h
    exact .inl rfl
  | cons b bs ih =>
    rw [push] at h
    split at h
    · rcases List.mem_cons.1 h with rfl | h
      · exact .inr List.mem_cons_self
      · exact (ih h).imp_right (List.mem_cons_of_mem _)
    · split at h
      · exact (List.mem_cons.1 h).imp_left fun hc => by rw [hc]
      · exact (List.mem_cons.1 h).imp (fun hc => by rw [hc]) (List.mem_cons_of_mem _)

theorem Ordered.push (h : Ordered key bins) : Ordered key (push key x bins) := by
  induction bins with
  | nil => exact ⟨by simp [Stacks.push], List.pairwise_singleton _ _⟩
  | cons b bs ih =>
    obtain ⟨hsame, hlt, hbs⟩ := ordered_cons.1 h
    rw [Stacks.push]
    split
    · rename_i hx
      refine ordered_cons.2 ⟨hsame, fun c hc => ?_, ih hbs⟩
      rcases mem_push hc with hc | hc
      · rwa [hc]
      · exact hlt c hc
    · rename_i hge
      split
      · rename_i hx
        refine ordered_cons.2 ⟨by simp, List.forall_mem_cons.2 ⟨hx, fun c hc => ?_⟩, h⟩
        exact hx.trans (hlt c hc)
      · rename_i hle
        have hkey : key x = key b.top := le_antisymm (le_of_not_gt hge) (le_of_not_gt hle)
        refine ordered_cons.2 ⟨fun y hy => ?_, fun c hc => ?_, hbs⟩
        · rw [hkey]
          exact h.key_of_mem List.mem_cons_self hy
        · rw [hkey]
          exact hlt c hc

/-! ### A node less -/

section

variable [DecidableEq ν]

theorem contents_drop (b : Bin ν) (x : ν) : contents (b.drop x) = b.toList.erase x := by
  unfold Bin.drop
  split
  · rename_i hx
    rw [hx, Bin.toList, List.erase_cons_head]
    cases b.rest <;> simp [Bin.toList]
  · rename_i hx
    rw [Bin.toList, List.erase_cons_tail (by simpa using Ne.symm hx)]
    simp [Bin.toList]

theorem mem_drop {c : Bin ν} (h : c ∈ b.drop x) : c.top ∈ b.toList ∧ c.rest ⊆ b.rest := by
  unfold Bin.drop at h
  split at h
  · cases hr : b.rest with
    | nil =>
      rw [hr] at h
      cases h
    | cons y ys =>
      rw [hr] at h
      obtain rfl := List.mem_singleton.1 h
      exact ⟨by simp [Bin.toList, hr], List.subset_cons_self _ _⟩
  · obtain rfl := List.mem_singleton.1 h
    exact ⟨List.mem_cons_self, List.erase_subset⟩

theorem pull_append (h : ∀ c ∈ pre, key c.top < key x) : pull key x (pre ++ post) = pre ++ pull key x post := by
  induction pre with
  | nil => rfl
  | cons b pre ih =>
    obtain ⟨hb, hpre⟩ := List.forall_mem_cons.1 h
    rw [List.cons_append, pull, if_pos hb, ih hpre, List.cons_append]

theorem contents_pull (h : Ordered key bins) (hx : x ∈ contents bins) :
    contents (pull key x bins) = (contents bins).erase x := by
  induction bins with
  | nil => cases hx
  | cons b bs ih =>
    rw [pull]
    by_cases hlt : key b.top < key x
    · have hnot : x ∉ b.toList := by
        intro hmem
        rw [h.key_of_mem List.mem_cons_self hmem] at hlt
        exact lt_irrefl _ hlt
      have hx' := (List.mem_append.1 hx).resolve_left hnot
      rw [if_pos hlt, contents_cons, contents_cons, ih h.tail hx', List.erase_append_right _ hnot]
    · rw [if_neg hlt, contents_append, contents_drop, contents_cons,
        List.erase_append_left _ (h.mem_bin hx hlt)]

theorem mem_pull {c : Bin ν} (h : c ∈ pull key x bins) : ∃ d ∈ bins, c.top ∈ d.toList := by
  induction bins with
  | nil => cases h
  | cons d ds ih =>
    rw [pull] at h
    split at h
    · rcases List.mem_cons.1 h with rfl | h
      · exact ⟨c, List.mem_cons_self, List.mem_cons_self⟩
      · obtain ⟨e, he, hce⟩ := ih h
        exact ⟨e, List.mem_cons_of_mem _ he, hce⟩
    · rcases List.mem_append.1 h with h | h
      · exact ⟨d, List.mem_cons_self, (mem_drop h).1⟩
      · exact ⟨c, List.mem_cons_of_mem _ h, List.mem_cons_self⟩

theorem Ordered.pull (h : Ordered key bins) : Ordered key (pull key x bins) := by
  induction bins with
  | nil => exact h
  | cons b bs ih =>
    obtain ⟨hsame, hlt, hbs⟩ := ordered_cons.1 h
    rw [Stacks.pull]
    split
    · refine ordered_cons.2 ⟨hsame, fun c hc => ?_, ih hbs⟩
      obtain ⟨d, hd, hcd⟩ := mem_pull hc
      rw [hbs.key_of_mem hd hcd]
      exact hlt d hd
    · have hdrop : ∀ c ∈ b.drop x, key c.top = key b.top := by
        intro c hc
        exact h.key_of_mem List.mem_cons_self (mem_drop hc).1
      constructor
      · intro c hc y hy
        rcases List.mem_append.1 hc with hc | hc
        · rw [hdrop c hc, hsame y ((mem_drop hc).2 hy)]
        · exact hbs.same c hc y hy
      · refine List.pairwise_append.2 ⟨?_, hbs.increasing, fun c hc d hd => ?_⟩
        · unfold Bin.drop
          split
          · cases b.rest <;> simp
          · exact List.pairwise_singleton _ _
        · rw [hdrop c hc]
          exact hlt d hd

end

/-! ## Links -/

/-- Following `down` from a link, one finds these nodes. -/
def InStack (down : ν → Option ν) : Option ν → List ν → Prop
  | p, [] => p = none
  | p, x :: xs => p = some x ∧ InStack down (down x) xs

/-- Following `right` from a link, one finds the tops of these bins, and below them the rest. -/
def Spells (down right : ν → Option ν) : Option ν → List (Bin ν) → Prop
  | p, [] => p = none
  | p, b :: bs => p = some b.top ∧ InStack down (down b.top) b.rest ∧ Spells down right (right b.top) bs

variable {down down' right right' : ν → Option ν} {p : Option ν}

theorem InStack.congr {xs : List ν} (h : InStack down p xs) (hdown : ∀ y ∈ xs, down' y = down y) :
    InStack down' p xs := by
  induction xs generalizing p with
  | nil => exact h
  | cons x xs ih =>
    obtain ⟨hx, hxs⟩ := List.forall_mem_cons.1 hdown
    refine ⟨h.1, ?_⟩
    rw [hx]
    exact ih h.2 hxs

/-- A change of `right` behind the bin `b` replaces what comes after it. -/
theorem Spells.splice {post' : List (Bin ν)} (h : Spells down right p (pre ++ b :: post))
    (hdown : ∀ y ∈ contents (pre ++ [b]), down' y = down y) (hright : ∀ c ∈ pre, right' c.top = right c.top)
    (hpost : Spells down' right' (right' b.top) post') : Spells down' right' p (pre ++ b :: post') := by
  induction pre generalizing p with
  | nil =>
    refine ⟨h.1, ?_, hpost⟩
    have hb : ∀ y ∈ b.toList, down' y = down y := by simpa using hdown
    rw [hb b.top List.mem_cons_self]
    exact h.2.1.congr fun y hy => hb y (List.mem_cons_of_mem _ hy)
  | cons c pre ih =>
    obtain ⟨hc, hpre⟩ := List.forall_mem_cons.1 hright
    rw [List.cons_append, contents_cons] at hdown
    have hbin : ∀ y ∈ c.toList, down' y = down y := fun y hy => hdown y (List.mem_append_left _ hy)
    refine ⟨h.1, ?_, ?_⟩
    · rw [hbin c.top List.mem_cons_self]
      exact h.2.1.congr fun y hy => hbin y (List.mem_cons_of_mem _ hy)
    · rw [hc]
      exact ih h.2.2 (fun y hy => hdown y (List.mem_append_right _ hy)) hpre

theorem Spells.congr (h : Spells down right p bins) (hdown : ∀ y ∈ contents bins, down' y = down y)
    (hright : ∀ b ∈ bins, right' b.top = right b.top) : Spells down' right' p bins := by
  induction bins generalizing p with
  | nil => exact h
  | cons b bs ih =>
    obtain ⟨hb, hbs⟩ := List.forall_mem_cons.1 hright
    have hbin : ∀ y ∈ b.toList, down' y = down y := fun y hy => hdown y (List.mem_append_left _ hy)
    refine ⟨h.1, ?_, ?_⟩
    · rw [hbin b.top List.mem_cons_self]
      exact h.2.1.congr fun y hy => hbin y (List.mem_cons_of_mem _ hy)
    · rw [hb]
      exact ih h.2.2 (fun y hy => hdown y (List.mem_append_right _ hy)) hbs

theorem InStack.eq_nil {xs : List ν} (h : InStack down none xs) : xs = [] := by
  cases xs with
  | nil => rfl
  | cons x xs => cases h.1

theorem InStack.eq_cons {xs : List ν} (h : InStack down (some x) xs) : ∃ ys, xs = x :: ys := by
  cases xs with
  | nil => cases h
  | cons y ys => exact ⟨ys, by rw [Option.some.inj h.1]⟩

/-- A node that leads nowhere is the last. -/
theorem InStack.eq_singleton {xs : List ν} (h : InStack down (some x) xs) (hlast : down x = none) : xs = [x] := by
  obtain ⟨ys, rfl⟩ := h.eq_cons
  have hys := h.2
  rw [hlast] at hys
  rw [hys.eq_nil]

theorem InStack.behind {xs ys : List ν} (h : InStack down p (xs ++ x :: ys)) : InStack down (down x) ys := by
  induction xs generalizing p with
  | nil => exact h.2
  | cons y xs ih => exact ih h.2

/-- The link of `v` now leads past the node after it. -/
theorem InStack.skip [DecidableEq ν] {v w : ν} {xs ys : List ν} (h : InStack down p (xs ++ v :: w :: ys))
    (hnodup : (xs ++ v :: w :: ys).Nodup) : InStack (Function.update down v (down w)) p (xs ++ v :: ys) := by
  induction xs generalizing p with
  | nil =>
    obtain ⟨hv, hnodup⟩ := List.nodup_cons.1 hnodup
    refine ⟨h.1, ?_⟩
    rw [Function.update_self]
    refine h.2.2.congr fun y hy => Function.update_of_ne ?_ _ _
    intro hyv
    exact hv (hyv ▸ List.mem_cons_of_mem _ hy)
  | cons x xs ih =>
    obtain ⟨hx, hnodup⟩ := List.nodup_cons.1 hnodup
    have hne : x ≠ v := by
      intro heq
      exact hx (heq ▸ List.mem_append_right _ List.mem_cons_self)
    refine ⟨h.1, ?_⟩
    rw [Function.update_of_ne hne]
    exact ih h.2 hnodup

/-- The link of the node before `x` now leads past it. -/
theorem InStack.unlink [DecidableEq ν] {t : ν} {xs ys : List ν} (h : InStack down (down t) (xs ++ x :: ys))
    (hnodup : (t :: (xs ++ x :: ys)).Nodup) :
    let down' := Function.update down ((t :: xs).getLast (List.cons_ne_nil _ _)) (down x)
    InStack down' (down' t) (xs ++ ys) := by
  induction xs generalizing t with
  | nil =>
    obtain ⟨ht, hnodup⟩ := List.nodup_cons.1 hnodup
    rw [List.getLast_singleton]
    dsimp only
    rw [Function.update_self]
    refine h.2.congr fun y hy => Function.update_of_ne ?_ _ _
    intro hyt
    apply ht
    rw [← hyt]
    exact List.mem_cons_of_mem _ hy
  | cons y xs ih =>
    obtain ⟨ht, hnodup⟩ := List.nodup_cons.1 hnodup
    rw [List.getLast_cons (List.cons_ne_nil _ _)]
    have hne : t ≠ (y :: xs).getLast (List.cons_ne_nil _ _) := by
      intro heq
      apply ht
      rw [heq]
      exact List.mem_append_left _ (List.getLast_mem _)
    refine ⟨?_, ih h.2 hnodup⟩
    rw [Function.update_of_ne hne]
    exact h.1

end Stacks
