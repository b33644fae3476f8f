import Mathlib.Data.List.Nodup
import Mathlib.Data.List.Perm.Basic
import Mathlib.Logic.Function.Basic

/- A finite map with least-recently-used replacement, as a specification. Keys are
   put into slots; a slot has one key at most, and the map knows when each slot was
   used last. Time 0 is before all uses, so that `lastUse i = 0` says that slot `i`
   has not been used. Which slots a key may go to is up to `room`; a fill takes one
   of them that has been used least recently.

   An implementation keeps its slots in a list instead. `Ordered` is what that list
   must be, and the lemmas say how to keep it so: a used slot goes to the front, and
   the last one is the one to replace. -/
namespace Recency

variable {κ ι : Type*}

structure Map (κ ι : Type*) where
  slot : κ → Option ι
  lastUse : ι → Nat
  clock : Nat

/-- What a user of the map does. -/
inductive Op (κ : Type*) where
  | access (k : κ)
  | fill (k : κ)
  | drop (k : κ)

namespace Map

def empty : Map κ ι where
  slot _ := none
  lastUse _ := 0
  clock := 1

/-- `i` may not have been used at all, or every other slot in `p` has been used since. -/
def LeastRecent (m : Map κ ι) (p : ι → Prop) (i : ι) : Prop :=
  p i ∧ ∀ j, p j → j ≠ i → m.lastUse i < m.lastUse j ∨ m.lastUse i = 0 ∧ m.lastUse j = 0

/-- From most to least recently used, with what has not been used at the end. -/
def Ordered (m : Map κ ι) (l : List ι) : Prop :=
  l.Pairwise fun i j => m.lastUse j < m.lastUse i ∨ m.lastUse i = 0 ∧ m.lastUse j = 0

section

variable [DecidableEq ι]

def use (m : Map κ ι) (i : ι) : Map κ ι :=
  { m with lastUse := Function.update m.lastUse i m.clock, clock := m.clock + 1 }

/-- The key takes the slot, and what was there is gone. -/
def put [DecidableEq κ] (m : Map κ ι) (k : κ) (i : ι) : Map κ ι :=
  { m.use i with slot := fun k' =>
      if k' = k then some i else if m.slot k' = some i then none else m.slot k' }

def drop [DecidableEq κ] (m : Map κ ι) (k : κ) : Map κ ι :=
  { m with slot := Function.update m.slot k none }

inductive Step [DecidableEq κ] (room : κ → ι → Prop) (m : Map κ ι) : Op κ → Map κ ι → Prop where
  | hit {k : κ} {i : ι} (found : m.slot k = some i) : Step room m (.access k) (m.use i)
  | miss {k : κ} (absent : m.slot k = none) : Step room m (.access k) m
  | fill {k : κ} {i : ι} (absent : m.slot k = none) (victim : m.LeastRecent (room k) i) :
      Step room m (.fill k) (m.put k i)
  | drop (k : κ) : Step room m (.drop k) (m.drop k)

/-- A run of the map. -/
inductive Reaches [DecidableEq κ] (room : κ → ι → Prop) : Map κ ι → List (Op κ) → Map κ ι → Prop where
  | nil (m : Map κ ι) : Reaches room m [] m
  | cons {m m' m'' : Map κ ι} {op : Op κ} {ops : List (Op κ)} (step : Step room m op m')
      (rest : Reaches room m' ops m'') : Reaches room m (op :: ops) m''

/-! ## Slots in a list -/

variable {m : Map κ ι} {l : List ι} {i : ι}

theorem lastUse_use_lt (h : ∀ j, m.lastUse j < m.clock) (j : ι) : (m.use i).lastUse j < (m.use i).clock := by
  show Function.update m.lastUse i m.clock j < m.clock + 1
  by_cases hj : j = i
  · rw [hj, Function.update_self]
    omega
  · rw [Function.update_of_ne hj]
    exact Nat.lt_succ_of_lt (h j)

theorem Ordered.use_other (h : m.Ordered l) (hi : i ∉ l) : (m.use i).Ordered l := by
  refine List.Pairwise.imp_of_mem (fun {a b} ha hb hab => ?_) h
  have hne : ∀ c ∈ l, (m.use i).lastUse c = m.lastUse c := by
    intro c hc
    exact Function.update_of_ne (ne_of_mem_of_not_mem hc hi) ..
  rwa [hne a ha, hne b hb]

/-- The slot that is used goes to the front. -/
theorem Ordered.use (h : m.Ordered l) (hl : l.Nodup) (hlt : ∀ j, m.lastUse j < m.clock) :
    (m.use i).Ordered (i :: l.erase i) := by
  have hrest : i ∉ l.erase i := fun hmem => (hl.mem_erase_iff.1 hmem).1 rfl
  refine List.pairwise_cons.2 ⟨fun j hj => ?_, Ordered.use_other (h.sublist List.erase_sublist) hrest⟩
  have hji : j ≠ i := (hl.mem_erase_iff.1 hj).1
  left
  show Function.update m.lastUse i m.clock j < Function.update m.lastUse i m.clock i
  rw [Function.update_of_ne hji, Function.update_self]
  exact hlt j

omit [DecidableEq ι] in
/-- The last slot is the one to replace. -/
theorem Ordered.last (h : m.Ordered l) (hne : l ≠ []) : m.LeastRecent (· ∈ l) (l.getLast hne) := by
  refine ⟨List.getLast_mem hne, fun j hj hji => ?_⟩
  have hsplit := List.dropLast_append_getLast hne
  have hfront : j ∈ l.dropLast := by
    rw [← hsplit, List.mem_append, List.mem_singleton] at hj
    exact hj.resolve_right hji
  rw [Ordered, ← hsplit, List.pairwise_append] at h
  exact (h.2.2 j hfront _ (List.mem_singleton_self _)).imp_right And.symm

end

end Map
end Recency
