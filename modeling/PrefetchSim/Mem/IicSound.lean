import PrefetchSim.Lib.Holdings
import PrefetchSim.Lib.Stacks
import PrefetchSim.Mem.Iic

/- What every indirect-index tag store satisfies that the cache gets to.

   The secondary tags are on the free list or on the chain of one set (`loc` says on which),
   and they are valid exactly if they are on a chain; the tags of a set are those the
   constructor gave it; set 0 has a chain only if all its tags are valid (`Shape`). The valid
   tags hold their data blocks, the others are free (`Holdings.Sound`). All tags are zero,
   since nothing writes one.

   That last fact decides which set `freeTag` takes a tag to belong to: always set 0. Where
   this is wrong the source fails an assertion, so what is proved here holds of the calls that
   return. -/
namespace PrefetchSim

open Stacks

namespace IicConfig

variable {cfg : IicConfig}

/-- A pointer into a chain. -/
def ptr (cfg : IicConfig) (p : Nat) : Option Nat := if p = cfg.tagNull then none else some p

def Secondary (cfg : IicConfig) (i : Nat) : Prop := cfg.primaryBound ≤ i ∧ i < cfg.tagNull

theorem ptr_null : cfg.ptr cfg.tagNull = none := if_pos rfl

theorem ptr_eq_none {p : Nat} : cfg.ptr p = none ↔ p = cfg.tagNull := by
  unfold ptr
  split <;> simp_all

theorem ptr_eq_some {p i : Nat} : cfg.ptr p = some i ↔ p ≠ cfg.tagNull ∧ p = i := by
  unfold ptr
  split <;> simp_all

theorem numSecondary_pos (cfg : IicConfig) : 0 < cfg.numSecondary :=
  Nat.div_pos cfg.fits cfg.numSub_pos

theorem tagNull_eq (cfg : IicConfig) : cfg.tagNull = cfg.primaryBound + (cfg.numSecondary - 1) := by
  have hpos := cfg.numSecondary_pos
  unfold tagNull numTags
  omega

theorem hash_of_tag {addr : Addr} (h : cfg.extractTag addr = 0) : cfg.hash addr = 0 := by
  simp [hash, h]

theorem hash_lt (cfg : IicConfig) (addr : Addr) : cfg.hash addr < cfg.hashSets := by
  have hmask : (BitVec.ofNat 64 cfg.hashSets - 1).toNat = cfg.hashSets - 1 := by
    have hlt : cfg.hashSets < 2 ^ 64 := Nat.pow_lt_pow_right (by decide) cfg.setBits_lt
    have hpos : 0 < cfg.hashSets := Nat.two_pow_pos _
    have hone : (1 : BitVec 64) ≤ BitVec.ofNat 64 cfg.hashSets := by
      rw [BitVec.le_def, BitVec.toNat_ofNat, Nat.mod_eq_of_lt hlt]
      exact hpos
    rw [BitVec.toNat_sub_of_le hone, BitVec.toNat_ofNat, Nat.mod_eq_of_lt hlt]
    rfl
  have hand : ∀ x : Addr, (x &&& (BitVec.ofNat 64 cfg.hashSets - 1)).toNat < cfg.hashSets := by
    intro x
    have hpos : 0 < cfg.hashSets := Nat.two_pow_pos _
    rw [BitVec.toNat_and, hmask]
    have hle : x.toNat &&& (cfg.hashSets - 1) ≤ cfg.hashSets - 1 := Nat.and_le_right
    omega
  unfold hash
  rw [BitVec.toNat_xor]
  exact Nat.xor_lt_two_pow (hand _) (hand _)

end IicConfig

namespace Iic

variable {σ ρ : Type} {cfg : IicConfig} {R : Repl σ ρ} {t t' : Iic σ ρ}

def valid (t : Iic σ ρ) (i : Nat) : Bool := (t.tagStore i).isValid

/-- The pointer to the next tag on the chain. -/
def next (cfg : IicConfig) (t : Iic σ ρ) (i : Nat) : Option Nat := cfg.ptr (t.tagStore i).chainPtr

/-- What the invariants read of a tag. -/
def view (t : Iic σ ρ) (i : Nat) : Addr × Bool × Nat × List Nat :=
  ((t.tagStore i).tag, t.valid i, (t.tagStore i).chainPtr, t.dataOf i)

theorem setTag_self (i : Nat) (e : IicTag ρ) (t : Iic σ ρ) : (t.setTag i e).tagStore i = e :=
  Function.update_self ..

theorem setTag_of_ne {i k : Nat} (h : k ≠ i) (e : IicTag ρ) (t : Iic σ ρ) :
    (t.setTag i e).tagStore k = t.tagStore k :=
  Function.update_of_ne h _ _

theorem setSet_self (r : Nat) (e : IicSet) (t : Iic σ ρ) : (t.setSet r e).sets r = e :=
  Function.update_self ..

theorem setSet_of_ne {r k : Nat} (h : k ≠ r) (e : IicSet) (t : Iic σ ρ) : (t.setSet r e).sets k = t.sets k :=
  Function.update_of_ne h _ _

theorem moveToHead_eq_some {r i : Nat} : t.moveToHead r i = some t' ↔ i ∈ (t.sets r).tags ∧
    t.setSet r { t.sets r with tags := PrefetchSim.moveToHead i (t.sets r).tags } = t' := by
  unfold moveToHead assert
  by_cases h : i ∈ (t.sets r).tags <;> simp [h]

theorem moveToTail_eq_some {r i : Nat} : t.moveToTail r i = some t' ↔ i ∈ (t.sets r).tags ∧
    t.setSet r { t.sets r with tags := (PrefetchSim.moveToHead i (t.sets r).tags.reverse).reverse } = t' := by
  unfold moveToTail assert
  by_cases h : i ∈ (t.sets r).tags <;> simp [h]

theorem setTag_valid (i : Nat) (e : IicTag ρ) (t : Iic σ ρ) :
    (t.setTag i e).valid = Function.update t.valid i e.isValid := by
  funext k
  by_cases hk : k = i
  · rw [hk, valid, setTag_self, Function.update_self]
  · rw [valid, setTag_of_ne hk, Function.update_of_ne hk, valid]

theorem setTag_next (i : Nat) (e : IicTag ρ) (t : Iic σ ρ) :
    (t.setTag i e).next cfg = Function.update (t.next cfg) i (cfg.ptr e.chainPtr) := by
  funext k
  by_cases hk : k = i
  · rw [hk, next, setTag_self, Function.update_self]
  · rw [next, setTag_of_ne hk, Function.update_of_ne hk, next]

theorem setTag_dataOf (i : Nat) (e : IicTag ρ) (t : Iic σ ρ) :
    (t.setTag i e).dataOf = Function.update t.dataOf i (e.dataPtr.take e.numData) := by
  funext k
  by_cases hk : k = i
  · rw [hk, dataOf, setTag_self, Function.update_self]
  · rw [dataOf, setTag_of_ne hk, Function.update_of_ne hk, dataOf]

theorem setTag_zero {i : Nat} {e : IicTag ρ} (h : ∀ k, (t.tagStore k).tag = 0) (he : e.tag = 0) (k : Nat) :
    ((t.setTag i e).tagStore k).tag = 0 := by
  by_cases hk : k = i
  · rw [hk, setTag_self, he]
  · rw [setTag_of_ne hk, h k]

theorem view_eq_of_tagStore {k : Nat} (h : t'.tagStore k = t.tagStore k) : t'.view k = t.view k := by
  simp only [view, valid, dataOf, h]

/-- Two tags are exchanged. -/
theorem tagSwap_view (R : Repl σ ρ) (i j : Nat) (t : Iic σ ρ) (k : Nat) :
    (t.tagSwap R i j).view k = t.view (Equiv.swap i j k) := by
  have hstore : (t.tagSwap R i j).tagStore =
      ((t.setTag i ((t.tagStore i).assign (t.tagStore j))).setTag j
        (((t.setTag i ((t.tagStore i).assign (t.tagStore j))).tagStore j).assign
          (IicTag.assign { chainPtr := 0 } (t.tagStore i)))).tagStore := by
    unfold tagSwap
    dsimp only
    split <;> split <;> rfl
  have hassign : ∀ dst src : IicTag ρ, (dst.assign src).dataPtr.take (dst.assign src).numData =
      src.dataPtr.take src.numData := by
    intro dst src
    simp [IicTag.assign]
  by_cases hkj : k = j
  · subst hkj
    rw [Equiv.swap_apply_right]
    simp only [view, valid, dataOf, hstore, setTag_self, hassign]
    rfl
  · by_cases hki : k = i
    · subst hki
      rw [Equiv.swap_apply_left]
      simp only [view, valid, dataOf, hstore, setTag_of_ne hkj, setTag_self, hassign]
      rfl
    · rw [Equiv.swap_apply_of_ne_of_ne hki hkj]
      apply view_eq_of_tagStore
      rw [hstore, setTag_of_ne hkj, setTag_of_ne hki]

theorem tagSwap_tag (R : Repl σ ρ) (i j : Nat) (t : Iic σ ρ) (k : Nat) :
    ((t.tagSwap R i j).tagStore k).tag = (t.tagStore (Equiv.swap i j k)).tag :=
  congrArg Prod.fst (tagSwap_view R i j t k)

theorem tagSwap_valid (R : Repl σ ρ) (i j : Nat) (t : Iic σ ρ) (k : Nat) :
    (t.tagSwap R i j).valid k = t.valid (Equiv.swap i j k) :=
  congrArg (fun v => v.2.1) (tagSwap_view R i j t k)

theorem tagSwap_next (R : Repl σ ρ) (i j : Nat) (t : Iic σ ρ) (k : Nat) :
    (t.tagSwap R i j).next cfg k = t.next cfg (Equiv.swap i j k) :=
  congrArg (fun v : Addr × Bool × Nat × List Nat => cfg.ptr v.2.2.1) (tagSwap_view R i j t k)

theorem tagSwap_dataOf (R : Repl σ ρ) (i j : Nat) (t : Iic σ ρ) (k : Nat) :
    (t.tagSwap R i j).dataOf k = t.dataOf (Equiv.swap i j k) :=
  congrArg (fun v => v.2.2.2) (tagSwap_view R i j t k)

/-- The rest of the store is as it was. -/
structure SameRest (t t' : Iic σ ρ) : Prop where
  sets : t'.sets = t.sets
  freelist : t'.freelist = t.freelist
  blkFreelist : t'.blkFreelist = t.blkFreelist
  dataReferenceCount : t'.dataReferenceCount = t.dataReferenceCount

theorem tagSwap_rest (R : Repl σ ρ) (i j : Nat) (t : Iic σ ρ) : SameRest t (t.tagSwap R i j) := by
  unfold tagSwap
  dsimp only
  split <;> split <;> exact ⟨rfl, rfl, rfl, rfl⟩

/-! ## The invariant -/

/-- Where the tags are. A tag that is being filled is in `hole`. -/
structure Shape (cfg : IicConfig) (t : Iic σ ρ) (hole : Option Nat) (loc : Nat → Option Nat) (free : List Nat)
    (chain : Nat → List Nat) : Prop where
  tags : ∀ s < cfg.hashSets, (t.sets s).tags.Perm (List.range' (s * cfg.assoc) cfg.assoc)
  freeLinks : InStack (t.next cfg) (cfg.ptr t.freelist) free
  links : ∀ s < cfg.hashSets, InStack (t.next cfg) (cfg.ptr (t.sets s).chainPtr) (chain s)
  mem_free : ∀ i, i ∈ free ↔ cfg.Secondary i ∧ loc i = none
  mem_chain : ∀ s < cfg.hashSets, ∀ i, i ∈ chain s ↔ cfg.Secondary i ∧ loc i = some s
  freeNodup : free.Nodup
  chainNodup : ∀ s < cfg.hashSets, (chain s).Nodup
  loc_lt : ∀ i s, cfg.Secondary i → loc i = some s → s < cfg.hashSets
  valid : ∀ i, cfg.Secondary i → (t.valid i = true ↔ loc i ≠ none)
  full : chain 0 ≠ [] → ∀ i ∈ (t.sets 0).tags, some i ≠ hole → t.valid i = true

/-- What every store has that the cache gets to; `transit` are data blocks on their way to a tag. -/
structure Sound (cfg : IicConfig) (t : Iic σ ρ) (transit : List Nat) : Prop where
  zero : ∀ i, (t.tagStore i).tag = 0
  shape : ∃ loc free chain, t.Shape cfg none loc free chain
  data : Holdings.Sound cfg.numTags cfg.numSub cfg.numBlocks t.valid t.dataOf t.dataReferenceCount t.blkFreelist transit

variable {hole : Option Nat} {loc : Nat → Option Nat} {free : List Nat} {chain : Nat → List Nat}

theorem Shape.mem_tags (h : t.Shape cfg hole loc free chain) {s i : Nat} (hs : s < cfg.hashSets) :
    i ∈ (t.sets s).tags ↔ s * cfg.assoc ≤ i ∧ i < s * cfg.assoc + cfg.assoc := by
  rw [(h.tags s hs).mem_iff, List.mem_range'_1]

theorem Shape.primary (h : t.Shape cfg hole loc free chain) {s i : Nat} (hs : s < cfg.hashSets)
    (hi : i ∈ (t.sets s).tags) : i < cfg.primaryBound := by
  have hlt := ((h.mem_tags hs).1 hi).2
  have hle : (s + 1) * cfg.assoc ≤ cfg.hashSets * cfg.assoc := Nat.mul_le_mul_right _ hs
  rw [Nat.add_mul, Nat.one_mul] at hle
  exact Nat.lt_of_lt_of_le hlt hle

theorem hashSets_pos (cfg : IicConfig) : 0 < cfg.hashSets := Nat.two_pow_pos _

/-- A secondary tag is in no set. -/
theorem secondary_ne {i k : Nat} (hi : i < cfg.primaryBound) (hk : cfg.Secondary k) : k ≠ i := by
  intro heq
  exact absurd hk.1 (heq ▸ Nat.not_le.2 hi)

/-! ## A tag is freed -/

theorem pushFree_valid (i : Nat) (t : Iic σ ρ) : (t.pushFree i).valid = t.valid := by
  have hset := setTag_valid i { t.tagStore i with chainPtr := t.freelist } t
  exact hset.trans (Function.update_eq_self i t.valid)

theorem pushFree_dataOf (i : Nat) (t : Iic σ ρ) : (t.pushFree i).dataOf = t.dataOf := by
  have hset := setTag_dataOf i { t.tagStore i with chainPtr := t.freelist } t
  exact hset.trans (Function.update_eq_self i t.dataOf)

theorem pushFree_next (i : Nat) (t : Iic σ ρ) :
    (t.pushFree i).next cfg = Function.update (t.next cfg) i (cfg.ptr t.freelist) :=
  setTag_next i { t.tagStore i with chainPtr := t.freelist } t

theorem pushFree_zero {i : Nat} (h : ∀ k, (t.tagStore k).tag = 0) (k : Nat) : ((t.pushFree i).tagStore k).tag = 0 :=
  setTag_zero (e := { t.tagStore i with chainPtr := t.freelist }) h (h i) k

/-- A tag `x` goes from the chain of the set `s` to the free list. -/
theorem Shape.toFree (h : t.Shape cfg none loc free chain) {x s : Nat} (hs : s < cfg.hashSets) (hx : x ∈ chain s)
    (htags : ∀ r < cfg.hashSets, (t'.sets r).tags.Perm (t.sets r).tags) (hfreelist : t'.freelist = x)
    (hnextx : t'.next cfg x = cfg.ptr t.freelist)
    (hchains : ∀ r < cfg.hashSets, r ≠ s → (t'.sets r).chainPtr = (t.sets r).chainPtr)
    (hlinks : InStack (t'.next cfg) (cfg.ptr (t'.sets s).chainPtr) ((chain s).erase x))
    (hnext : ∀ i, cfg.Secondary i → i ∉ chain s → t'.next cfg i = t.next cfg i)
    (hvalid : ∀ i, t'.valid i = if i = x then false else t.valid i) :
    t'.Shape cfg none (Function.update loc x none) (x :: free) (Function.update chain s ((chain s).erase x)) := by
  obtain ⟨hsec, hloc⟩ := (h.mem_chain s hs x).1 hx
  have hxfree : x ∉ free := by
    intro hmem
    rw [((h.mem_free x).1 hmem).2] at hloc
    cases hloc
  -- what is not on the chain keeps its links
  have hkeep : ∀ {p l}, InStack (t.next cfg) p l → (∀ i ∈ l, cfg.Secondary i ∧ loc i ≠ some s) →
      InStack (t'.next cfg) p l := by
    intro p l hl hmem
    refine hl.congr fun i hi => hnext i (hmem i hi).1 fun hc => ?_
    exact (hmem i hi).2 ((h.mem_chain s hs i).1 hc).2
  constructor
  · exact fun r hr => (htags r hr).trans (h.tags r hr)
  · have hne : x ≠ cfg.tagNull := Nat.ne_of_lt hsec.2
    rw [hfreelist]
    refine ⟨if_neg hne, ?_⟩
    rw [hnextx]
    refine hkeep h.freeLinks fun i hi => ?_
    obtain ⟨hi, hnone⟩ := (h.mem_free i).1 hi
    exact ⟨hi, by rw [hnone]; exact Option.some_ne_none s ∘ Eq.symm⟩
  · intro r hr
    by_cases hrs : r = s
    · subst hrs
      rw [Function.update_self]
      exact hlinks
    · rw [Function.update_of_ne hrs, hchains r hr hrs]
      refine hkeep (h.links r hr) fun i hi => ?_
      obtain ⟨hi, hloc⟩ := (h.mem_chain r hr i).1 hi
      exact ⟨hi, by rw [hloc]; exact fun heq => hrs (Option.some.inj heq)⟩
  · intro i
    rw [List.mem_cons, h.mem_free]
    by_cases hi : i = x
    · subst hi
      simp [hsec]
    · simp [hi]
  · intro r hr i
    by_cases hi : i = x
    · subst hi
      rw [Function.update_self]
      by_cases hrs : r = s
      · subst hrs
        simp [(h.chainNodup r hr).not_mem_erase]
      · rw [Function.update_of_ne hrs, h.mem_chain r hr, hloc]
        simp [Ne.symm hrs]
    · rw [Function.update_of_ne hi]
      by_cases hrs : r = s
      · subst hrs
        rw [Function.update_self, List.mem_erase_of_ne hi, h.mem_chain r hr]
      · rw [Function.update_of_ne hrs, h.mem_chain r hr]
  · exact List.nodup_cons.2 ⟨hxfree, h.freeNodup⟩
  · intro r hr
    by_cases hrs : r = s
    · subst hrs
      rw [Function.update_self]
      exact (h.chainNodup r hr).erase x
    · rw [Function.update_of_ne hrs]
      exact h.chainNodup r hr
  · intro i r hi hr
    by_cases hix : i = x
    · rw [hix, Function.update_self] at hr
      cases hr
    · rw [Function.update_of_ne hix] at hr
      exact h.loc_lt i r hi hr
  · intro i hi
    rw [hvalid]
    by_cases hix : i = x
    · rw [if_pos hix, hix, Function.update_self]
      simp
    · rw [if_neg hix, Function.update_of_ne hix]
      exact h.valid i hi
  · intro hne i hi hole
    have hmem : i ∈ (t.sets 0).tags := (htags 0 (hashSets_pos cfg)).mem_iff.1 hi
    have hix : i ≠ x := (secondary_ne (h.primary (hashSets_pos cfg) hmem) hsec).symm
    rw [hvalid, if_neg hix]
    refine h.full (fun hnil => hne ?_) i hmem hole
    by_cases h0 : 0 = s
    · subst h0
      rw [Function.update_self, hnil]
      rfl
    · rw [Function.update_of_ne h0, hnil]

/-- The tag is cleared, as the first thing. -/
def cleared (v : Nat) (t : Iic σ ρ) : Iic σ ρ :=
  t.setTag v { t.tagStore v with status := {}, numData := 0, re := none }

theorem cleared_valid (v : Nat) (t : Iic σ ρ) : (t.cleared v).valid = Function.update t.valid v false :=
  setTag_valid ..

theorem cleared_next (v : Nat) (t : Iic σ ρ) : (t.cleared v).next cfg = t.next cfg := by
  have hset := @setTag_next σ ρ cfg v { t.tagStore v with status := {}, numData := 0, re := none } t
  exact hset.trans (Function.update_eq_self v (t.next cfg))

theorem cleared_dataOf (v : Nat) (t : Iic σ ρ) {k : Nat} (hk : k ≠ v) : (t.cleared v).dataOf k = t.dataOf k := by
  rw [cleared, setTag_dataOf, Function.update_of_ne hk]

theorem cleared_zero {v : Nat} (h : ∀ k, (t.tagStore k).tag = 0) (k : Nat) : ((t.cleared v).tagStore k).tag = 0 :=
  setTag_zero (e := { t.tagStore v with status := {}, numData := 0, re := none }) h (h v) k

/-- With tags that are zero, it is always the chain of set 0 that is repaired. -/
theorem freeTag_eq (hzero : ∀ k, (t.tagStore k).tag = 0) (v : Nat) : t.freeTag cfg R v =
    if cfg.primaryBound ≤ v then
      if v < cfg.tagNull then
        if (t.tagStore v).chainPtr = cfg.tagNull then ((t.cleared v).cutChain cfg v 0).map fun t => t.pushFree v
        else some (((t.cleared v).tagSwap R (t.tagStore v).chainPtr v).pushFree (t.tagStore v).chainPtr)
      else none
    else if (t.sets 0).chainPtr = cfg.tagNull then some (t.cleared v)
    else
      let t' := ((t.cleared v).tagSwap R v (t.sets 0).chainPtr).pushFree (t.sets 0).chainPtr
      (t'.setSet 0 { t'.sets 0 with chainPtr := (t'.tagStore v).chainPtr }).moveToTail 0 v := by
  have hset : cfg.hash (((t.cleared v).tagStore v).tag <<< cfg.blkBits) = 0 := by
    rw [cleared_zero hzero]
    apply IicConfig.hash_of_tag
    simp [IicConfig.extractTag]
  have hchain : ((t.cleared v).tagStore v).chainPtr = (t.tagStore v).chainPtr := by
    rw [cleared, setTag_self]
  have hunfold : t.freeTag cfg R v =
      if cfg.primaryBound ≤ v then (do
        assert (decide (v < cfg.tagNull))
        if ((t.cleared v).tagStore v).chainPtr = cfg.tagNull then
          let t ← (t.cleared v).cutChain cfg v (cfg.hash (((t.cleared v).tagStore v).tag <<< cfg.blkBits))
          return t.pushFree v
        else
          return ((t.cleared v).tagSwap R ((t.cleared v).tagStore v).chainPtr v).pushFree
            ((t.cleared v).tagStore v).chainPtr)
      else if ((t.cleared v).sets (cfg.hash (((t.cleared v).tagStore v).tag <<< cfg.blkBits))).chainPtr = cfg.tagNull
        then some (t.cleared v)
      else
        let set := cfg.hash (((t.cleared v).tagStore v).tag <<< cfg.blkBits)
        let t' := ((t.cleared v).tagSwap R v ((t.cleared v).sets set).chainPtr).pushFree
          ((t.cleared v).sets set).chainPtr
        (t'.setSet set { t'.sets set with chainPtr := (t'.tagStore v).chainPtr }).moveToTail set v := rfl
  have hsets : (t.cleared v).sets = t.sets := rfl
  rw [hunfold, hset, hchain, hsets]
  by_cases hp : cfg.primaryBound ≤ v
  · rw [if_pos hp, if_pos hp]
    by_cases hlt : v < cfg.tagNull
    · simp only [hlt, decide_true, assert, if_true]
      by_cases hc : (t.tagStore v).chainPtr = cfg.tagNull
      · rw [if_pos hc]
        simp only [hc, if_true]
        cases (t.cleared v).cutChain cfg v 0 <;> rfl
      · rw [if_neg hc]
        simp only [hc, if_false]
        rfl
    · simp only [hlt, decide_false, assert]
      rfl
  · rw [if_neg hp, if_neg hp]

/-- What a freed tag leaves: the contents are those of before, without the freed one and up to
an exchange of two tags. -/
structure Freed (cfg : IicConfig) (t : Iic σ ρ) (v : Nat) (t' : Iic σ ρ) : Prop where
  zero : ∀ k, (t'.tagStore k).tag = 0
  blkFreelist : t'.blkFreelist = t.blkFreelist
  counts : t'.dataReferenceCount = t.dataReferenceCount
  shape : ∃ loc free chain, t'.Shape cfg none loc free chain
  exchanged : ∃ i < cfg.numTags, ∃ j < cfg.numTags,
    (∀ k, t'.valid k = Function.update t.valid v false (Equiv.swap i j k)) ∧
    ∀ k, t'.valid k = true → t'.dataOf k = t.dataOf (Equiv.swap i j k)

theorem findPrev_spec {i u p fuel : Nat} {l : List Nat} (hl : InStack (t.next cfg) (cfg.ptr p) l)
    (hfind : t.findPrev cfg i fuel p = some u) : ∃ xs ys, l = xs ++ u :: ys ∧ (t.tagStore u).chainPtr = i := by
  induction fuel generalizing p l with
  | zero => cases hfind
  | succ fuel ih =>
    rw [findPrev] at hfind
    split at hfind
    · cases hfind
    · rename_i hp
      cases l with
      | nil => exact absurd (IicConfig.ptr_eq_none.1 hl) hp
      | cons x l =>
        obtain ⟨-, rfl⟩ := IicConfig.ptr_eq_some.1 hl.1
        split at hfind
        · rename_i hchain
          obtain rfl := Option.some.inj hfind
          exact ⟨[], l, rfl, hchain⟩
        · obtain ⟨xs, ys, rfl, hu⟩ := ih hl.2 hfind
          exact ⟨p :: xs, ys, rfl, hu⟩

/-- The tag `v` is cleared and put on the free list, and besides only links have changed. -/
structure Unlinked (t : Iic σ ρ) (v : Nat) (t₂ : Iic σ ρ) : Prop where
  zero : ∀ k, (t₂.tagStore k).tag = 0
  valid : t₂.valid = (t.cleared v).valid
  dataOf : t₂.dataOf = (t.cleared v).dataOf
  blkFreelist : t₂.blkFreelist = t.blkFreelist
  counts : t₂.dataReferenceCount = t.dataReferenceCount

theorem Unlinked.valid_pushFree {t₂ : Iic σ ρ} {v : Nat} (h : Unlinked t v t₂) (i : Nat) :
    (t₂.pushFree v).valid i = if i = v then false else t.valid i := by
  rw [pushFree_valid, h.valid, cleared_valid, Function.update_apply]

theorem Unlinked.freed {t₂ : Iic σ ρ} {v : Nat} (h : Unlinked t v t₂) (hv : v < cfg.numTags)
    (hshape : ∃ loc free chain, (t₂.pushFree v).Shape cfg none loc free chain) : Freed cfg t v (t₂.pushFree v) := by
  refine ⟨pushFree_zero h.zero, h.blkFreelist, h.counts, hshape, v, hv, v, hv, fun k => ?_, fun k hk => ?_⟩
  · rw [pushFree_valid, h.valid, cleared_valid, Equiv.swap_self, Equiv.refl_apply]
  · have hkv : k ≠ v := by
      rintro rfl
      rw [h.valid_pushFree, if_pos rfl] at hk
      cases hk
    rw [pushFree_dataOf, h.dataOf, cleared_dataOf v t hkv, Equiv.swap_self, Equiv.refl_apply]

/-- The only tag on the chain of set 0 is freed. -/
theorem Shape.freeOnly (h : t.Shape cfg none loc free chain) (hzero : ∀ k, (t.tagStore k).tag = 0) {v : Nat}
    (hv : cfg.Secondary v) (hchain : chain 0 = [v]) :
    Freed cfg t v (((t.cleared v).setSet 0 { t.sets 0 with chainPtr := cfg.tagNull }).pushFree v) := by
  let t₂ := (t.cleared v).setSet 0 { t.sets 0 with chainPtr := cfg.tagNull }
  have hunlinked : Unlinked t v t₂ := ⟨cleared_zero hzero, rfl, rfl, rfl, rfl⟩
  refine hunlinked.freed hv.2 ⟨_, _, _,
    h.toFree (hashSets_pos cfg) (x := v) (by simp [hchain]) ?_ rfl ?_ ?_ ?_ ?_ hunlinked.valid_pushFree⟩
  · intro r hr
    by_cases hr0 : r = 0
    · subst hr0
      exact List.Perm.refl _
    · exact List.Perm.of_eq (congrArg IicSet.tags (Function.update_of_ne hr0 _ _))
  · rw [pushFree_next, Function.update_self]
    rfl
  · intro r hr hr0
    exact congrArg IicSet.chainPtr (Function.update_of_ne hr0 _ _)
  · rw [hchain, List.erase_cons_head]
    show cfg.ptr (Function.update t.sets 0 { t.sets 0 with chainPtr := cfg.tagNull } 0).chainPtr = none
    rw [Function.update_self]
    exact IicConfig.ptr_null
  · intro i hi hnot
    have hiv : i ≠ v := fun heq => hnot (by rw [heq, hchain]; exact List.mem_singleton_self v)
    rw [pushFree_next, Function.update_of_ne hiv]
    exact congrFun (cleared_next v t) i

/-- The last tag on the chain of set 0 is freed, and the one before it becomes the last. -/
theorem Shape.freeBehind (h : t.Shape cfg none loc free chain) (hzero : ∀ k, (t.tagStore k).tag = 0) {u v : Nat}
    (hv : cfg.Secondary v) (hnext : t.next cfg v = none) {xs : List Nat} (hsplit : chain 0 = xs ++ [u, v]) :
    Freed cfg t v
      (((t.cleared v).setTag u { (t.cleared v).tagStore u with chainPtr := cfg.tagNull }).pushFree v) := by
  have hlinks := h.links 0 (hashSets_pos cfg)
  have hnodup := h.chainNodup 0 (hashSets_pos cfg)
  rw [hsplit] at hlinks hnodup
  have hvnot : v ∉ xs ++ [u] := by
    rw [List.append_cons] at hnodup
    intro hmem
    exact (List.nodup_append.1 hnodup).2.2 v hmem v (List.mem_singleton_self v) rfl
  have herase : (chain 0).erase v = xs ++ [u] := by
    rw [hsplit, List.append_cons, List.erase_append_right _ hvnot, List.erase_cons_head, List.append_nil]
  let t₂ := (t.cleared v).setTag u { (t.cleared v).tagStore u with chainPtr := cfg.tagNull }
  have hunlinked : Unlinked t v t₂ := by
    refine ⟨setTag_zero (cleared_zero hzero) (cleared_zero hzero u), ?_, ?_, rfl, rfl⟩
    · rw [setTag_valid]
      exact Function.update_eq_self u (t.cleared v).valid
    · rw [setTag_dataOf]
      exact Function.update_eq_self u (t.cleared v).dataOf
  have hn₂ : t₂.next cfg = Function.update (t.next cfg) u none := by
    rw [setTag_next, cleared_next, IicConfig.ptr_null]
  have hvmem : v ∈ chain 0 := by simp [hsplit]
  refine hunlinked.freed hv.2 ⟨_, _, _,
    h.toFree (hashSets_pos cfg) hvmem (fun r _ => List.Perm.refl _) rfl ?_ (fun r _ _ => rfl) ?_ ?_
      hunlinked.valid_pushFree⟩
  · rw [pushFree_next, Function.update_self]
    rfl
  · rw [herase, pushFree_next, hn₂]
    have hskip := hlinks.skip hnodup
    rw [hnext] at hskip
    refine hskip.congr fun y hy => Function.update_of_ne ?_ _ _
    exact fun heq => hvnot (heq ▸ hy)
  · intro i hi hnot
    have hiv : i ≠ v := fun heq => hnot (heq ▸ hvmem)
    have hiu : i ≠ u := fun heq => hnot (by rw [heq, hsplit]; simp)
    rw [pushFree_next, Function.update_of_ne hiv, hn₂, Function.update_of_ne hiu]

/-- The last tag on the chain of set 0 is freed. -/
theorem Shape.freeLast (h : t.Shape cfg none loc free chain) (hzero : ∀ k, (t.tagStore k).tag = 0) {v : Nat}
    (hv : cfg.Secondary v) (hlast : (t.tagStore v).chainPtr = cfg.tagNull) {t₁ : Iic σ ρ}
    (hcut : (t.cleared v).cutChain cfg v 0 = some t₁) : Freed cfg t v (t₁.pushFree v) := by
  have hnext : t.next cfg v = none := IicConfig.ptr_eq_none.2 hlast
  have hptr : cfg.ptr v = some v := if_neg (Nat.ne_of_lt hv.2)
  have hlinks := h.links 0 (hashSets_pos cfg)
  unfold cutChain at hcut
  split at hcut
  · rename_i hhead
    obtain rfl := Option.some.inj hcut
    rw [show (t.sets 0).chainPtr = v from hhead, hptr] at hlinks
    exact h.freeOnly hzero hv (hlinks.eq_singleton hnext)
  · obtain ⟨u, hfind, hcut⟩ := Option.bind_eq_some_iff.1 hcut
    obtain rfl := Option.some.inj hcut
    obtain ⟨xs, ys, hsplit, hu⟩ := findPrev_spec (l := chain 0) (by rw [cleared_next]; exact hlinks) hfind
    have huv : t.next cfg u = some v := by
      rw [← cleared_next v t, next, hu, hptr]
    rw [hsplit] at hlinks
    have hbehind := hlinks.behind
    rw [huv] at hbehind
    rw [hbehind.eq_singleton hnext] at hsplit
    exact h.freeBehind hzero hv hnext hsplit

/-- The tag `v` is cleared, exchanged with `w`, and `w` put on the free list. -/
theorem exchange_spec {v w i j : Nat} (hswap : Equiv.swap i j = Equiv.swap v w) (hwv : w ≠ v)
    (hv : t.valid v = true) (hw : t.valid w = true) (hzero : ∀ k, (t.tagStore k).tag = 0) (R : Repl σ ρ) :
    let t₂ := ((t.cleared v).tagSwap R i j).pushFree w
    (∀ k, (t₂.tagStore k).tag = 0) ∧ (∀ k, t₂.valid k = if k = w then false else t.valid k) ∧
      (∀ k, t₂.valid k = Function.update t.valid v false (Equiv.swap v w k)) ∧
      (∀ k, t₂.valid k = true → t₂.dataOf k = t.dataOf (Equiv.swap v w k)) ∧
      ∀ k, k ≠ w → t₂.next cfg k = Function.update (t.next cfg) v (t.next cfg w) k := by
  intro t₂
  have hvalid : ∀ k, t₂.valid k = Function.update t.valid v false (Equiv.swap v w k) := by
    intro k
    rw [pushFree_valid, tagSwap_valid, cleared_valid, hswap]
  have hgone : ∀ k, t₂.valid k = if k = w then false else t.valid k := by
    intro k
    rw [hvalid]
    by_cases hkw : k = w
    · rw [if_pos hkw, hkw, Equiv.swap_apply_right, Function.update_self]
    · rw [if_neg hkw]
      by_cases hkv : k = v
      · rw [hkv, Equiv.swap_apply_left, Function.update_of_ne hwv, hw, hv]
      · rw [Equiv.swap_apply_of_ne_of_ne hkv hkw, Function.update_of_ne hkv]
  refine ⟨pushFree_zero fun k => by rw [tagSwap_tag]; exact cleared_zero hzero _, hgone, hvalid, ?_, ?_⟩
  · intro k hk
    have hkw : k ≠ w := by
      rintro rfl
      rw [hgone, if_pos rfl] at hk
      cases hk
    have hne : Equiv.swap v w k ≠ v := by
      intro heq
      rw [Equiv.swap_apply_eq_iff, Equiv.swap_apply_left] at heq
      exact hkw heq
    rw [pushFree_dataOf, tagSwap_dataOf, hswap, cleared_dataOf v t hne]
  · intro k hkw
    rw [pushFree_next, Function.update_of_ne hkw, tagSwap_next, cleared_next, hswap]
    by_cases hkv : k = v
    · rw [hkv, Equiv.swap_apply_left, Function.update_self]
    · rw [Equiv.swap_apply_of_ne_of_ne hkv hkw, Function.update_of_ne hkv]

/-- A tag with a tag behind it is freed: that one is moved to its place. -/
theorem Shape.freeInner (h : t.Shape cfg none loc free chain) (hzero : ∀ k, (t.tagStore k).tag = 0) {v : Nat}
    (hv : cfg.Secondary v) (hvalid : t.valid v = true) (hinner : (t.tagStore v).chainPtr ≠ cfg.tagNull) :
    Freed cfg t v (((t.cleared v).tagSwap R (t.tagStore v).chainPtr v).pushFree (t.tagStore v).chainPtr) := by
  obtain ⟨s, hloc⟩ := Option.ne_none_iff_exists'.1 ((h.valid v hv).1 hvalid)
  have hs := h.loc_lt v s hv hloc
  obtain ⟨xs, ys, hsplit⟩ := List.append_of_mem ((h.mem_chain s hs v).2 ⟨hv, hloc⟩)
  generalize hw : (t.tagStore v).chainPtr = w at hinner ⊢
  have hnext : t.next cfg v = some w := by
    rw [next, hw]
    exact if_neg hinner
  have hlinks := h.links s hs
  have hnodup := h.chainNodup s hs
  rw [hsplit] at hlinks hnodup
  obtain ⟨zs, rfl⟩ : ∃ zs, ys = w :: zs := by
    have hbehind := hlinks.behind
    rw [hnext] at hbehind
    exact hbehind.eq_cons
  have hwmem : w ∈ chain s := by simp [hsplit]
  obtain ⟨hwsec, hwloc⟩ := (h.mem_chain s hs w).1 hwmem
  have hwvalid : t.valid w = true := (h.valid w hwsec).2 (by rw [hwloc]; exact Option.some_ne_none s)
  have hwnot : w ∉ xs ++ [v] ∧ w ∉ zs := by
    rw [List.append_cons] at hnodup
    obtain ⟨-, hwz, hapart⟩ := List.nodup_append.1 hnodup
    exact ⟨fun hmem => hapart w hmem w List.mem_cons_self rfl, (List.nodup_cons.1 hwz).1⟩
  have hwv : w ≠ v := fun heq => hwnot.1 (by rw [heq]; simp)
  have herase : (chain s).erase w = xs ++ v :: zs := by
    rw [hsplit, List.append_cons, List.erase_append_right _ hwnot.1, List.erase_cons_head, List.append_assoc,
      List.singleton_append]
  have hrest := tagSwap_rest R w v (t.cleared v)
  obtain ⟨htag, hv₂, hexchanged, hdata, hn₂⟩ :=
    @exchange_spec _ _ cfg _ v w w v (Equiv.swap_comm w v) hwv hvalid hwvalid hzero R
  let t₂ := ((t.cleared v).tagSwap R w v).pushFree w
  refine ⟨htag, hrest.blkFreelist, hrest.dataReferenceCount,
    ⟨_, _, _, @Shape.toFree _ _ _ _ t₂ _ _ _ h _ _ hs hwmem ?_ rfl ?_ ?_ ?_ ?_ hv₂⟩,
    v, hv.2, w, hwsec.2, hexchanged, hdata⟩
  · intro r _
    exact List.Perm.of_eq (congrArg (fun f => (f r).tags) hrest.sets)
  · rw [pushFree_next, Function.update_self]
    exact congrArg cfg.ptr hrest.freelist
  · intro r _ _
    exact congrArg (fun f => (f r).chainPtr) hrest.sets
  · have hptr : (t₂.sets s).chainPtr = (t.sets s).chainPtr := congrArg (fun f => (f s).chainPtr) hrest.sets
    rw [herase, hptr]
    refine (hlinks.skip hnodup).congr fun y hy => hn₂ y ?_
    rintro rfl
    rw [List.append_cons, List.mem_append] at hy
    exact hy.elim hwnot.1 hwnot.2
  · intro i hi hnot
    have hiw : i ≠ w := fun heq => hnot (heq ▸ hwmem)
    have hiv : i ≠ v := fun heq => hnot (by rw [heq, hsplit]; simp)
    rw [hn₂ i hiw, Function.update_of_ne hiv]

/-- A tag of a set is freed, and set 0 has no chain. -/
theorem Shape.freeTop (h : t.Shape cfg none loc free chain) (hzero : ∀ k, (t.tagStore k).tag = 0) {v : Nat}
    (hv : v < cfg.primaryBound) (hlt : v < cfg.numTags) (hnull : (t.sets 0).chainPtr = cfg.tagNull) :
    Freed cfg t v (t.cleared v) := by
  have hchain : chain 0 = [] := by
    have hlinks := h.links 0 (hashSets_pos cfg)
    rw [hnull, IicConfig.ptr_null] at hlinks
    exact hlinks.eq_nil
  have hnext := @cleared_next σ ρ cfg v t
  refine ⟨cleared_zero hzero, rfl, rfl, ⟨loc, free, chain, h.tags, ?_, fun s hs => ?_, h.mem_free, h.mem_chain,
    h.freeNodup, h.chainNodup, h.loc_lt, fun i hi => ?_, fun hne => absurd hchain hne⟩, v, hlt, v, hlt, ?_, ?_⟩
  · rw [hnext]
    exact h.freeLinks
  · rw [hnext]
    exact h.links s hs
  · rw [cleared_valid, Function.update_of_ne (secondary_ne hv hi)]
    exact h.valid i hi
  · intro k
    rw [cleared_valid, Equiv.swap_self, Equiv.refl_apply]
  · intro k hk
    have hkv : k ≠ v := by
      rintro rfl
      rw [cleared_valid, Function.update_self] at hk
      cases hk
    rw [cleared_dataOf v t hkv, Equiv.swap_self, Equiv.refl_apply]

/-- A tag of set 0 is freed: the first tag on the chain is moved to its place. -/
theorem Shape.collapse (h : t.Shape cfg none loc free chain) (hzero : ∀ k, (t.tagStore k).tag = 0) {v : Nat}
    (hv : v < cfg.primaryBound) (hlt : v < cfg.numTags) (hvalid : t.valid v = true)
    (hchain : (t.sets 0).chainPtr ≠ cfg.tagNull)
    (hmove : (let t' := ((t.cleared v).tagSwap R v (t.sets 0).chainPtr).pushFree (t.sets 0).chainPtr
      (t'.setSet 0 { t'.sets 0 with chainPtr := (t'.tagStore v).chainPtr }).moveToTail 0 v) = some t') :
    Freed cfg t v t' := by
  have h0 := hashSets_pos cfg
  have hlinks := h.links 0 h0
  generalize hc : (t.sets 0).chainPtr = c at hchain hmove hlinks
  have hptr : cfg.ptr c = some c := if_neg hchain
  obtain ⟨rest, hcons⟩ : ∃ rest, chain 0 = c :: rest := by
    rw [hptr] at hlinks
    exact hlinks.eq_cons
  have hcmem : c ∈ chain 0 := by simp [hcons]
  obtain ⟨hcsec, hcloc⟩ := (h.mem_chain 0 h0 c).1 hcmem
  have hcvalid : t.valid c = true := (h.valid c hcsec).2 (by rw [hcloc]; exact Option.some_ne_none 0)
  have hcv : c ≠ v := secondary_ne hv hcsec
  have hnodup := h.chainNodup 0 h0
  rw [hcons] at hlinks hnodup
  have hcrest := (List.nodup_cons.1 hnodup).1
  have hrest := tagSwap_rest R v c (t.cleared v)
  obtain ⟨htag, hv₂, hexchanged, hdata, hn₂⟩ := @exchange_spec _ _ cfg _ v c v c rfl hcv hvalid hcvalid hzero R
  have hfreelist : (((t.cleared v).tagSwap R v c).pushFree c).next cfg c = cfg.ptr t.freelist := by
    rw [pushFree_next, Function.update_self]
    exact congrArg cfg.ptr hrest.freelist
  obtain ⟨t₂, ht₂⟩ : ∃ t₂, t₂ = ((t.cleared v).tagSwap R v c).pushFree c := ⟨_, rfl⟩
  have hsets : t₂.sets = t.sets := by
    rw [ht₂]
    exact hrest.sets
  have hlist : t₂.freelist = c := by
    rw [ht₂]
    rfl
  have hblks : t₂.blkFreelist = t.blkFreelist ∧ t₂.dataReferenceCount = t.dataReferenceCount := by
    rw [ht₂]
    exact ⟨hrest.blkFreelist, hrest.dataReferenceCount⟩
  dsimp only at hmove htag hv₂ hexchanged hdata hn₂
  rw [← ht₂] at hmove htag hv₂ hexchanged hdata hn₂ hfreelist
  obtain ⟨hvmem, rfl⟩ := moveToTail_eq_some.1 hmove
  rw [setSet_self, hsets] at hvmem
  have hother : ∀ r, r ≠ 0 → ∀ e e', ((t₂.setSet 0 e).setSet 0 e').sets r = t.sets r := by
    intro r hr e e'
    rw [setSet_of_ne hr, setSet_of_ne hr, hsets]
  refine ⟨htag, hblks.1, hblks.2, ⟨_, _, _, h.toFree (x := c) h0 hcmem ?_ hlist hfreelist ?_ ?_ ?_ hv₂⟩,
    v, hlt, c, hcsec.2, hexchanged, hdata⟩
  · intro r _
    by_cases hr : r = 0
    · subst hr
      rw [setSet_self, setSet_self, hsets]
      refine (List.reverse_perm _).trans ((moveToHead_perm ?_).trans (List.reverse_perm _))
      exact List.mem_reverse.2 hvmem
    · rw [hother r hr]
  · intro r _ hr
    rw [hother r hr]
  · rw [setSet_self, setSet_self, hcons, List.erase_cons_head]
    have hnv : cfg.ptr (t₂.tagStore v).chainPtr = t.next cfg c := by
      rw [← Function.update_self v (t.next cfg c) (t.next cfg)]
      exact hn₂ v hcv.symm
    dsimp only
    rw [hnv]
    refine hlinks.2.congr fun y hy => ?_
    have hymem : y ∈ chain 0 := hcons ▸ List.mem_cons_of_mem _ hy
    have hyv : y ≠ v := secondary_ne hv ((h.mem_chain 0 h0 y).1 hymem).1
    exact (hn₂ y fun heq => hcrest (heq ▸ hy)).trans (Function.update_of_ne hyv _ _)
  · intro i hi hnot
    have hic : i ≠ c := fun heq => hnot (heq ▸ hcmem)
    exact (hn₂ i hic).trans (Function.update_of_ne (secondary_ne hv hi) _ _)

/-- Where it returns, `freeTag` frees a valid tag. -/
theorem Shape.freeTag (h : t.Shape cfg none loc free chain) (hzero : ∀ k, (t.tagStore k).tag = 0) {v : Nat}
    (hlt : v < cfg.numTags) (hvalid : t.valid v = true) (hfree : t.freeTag cfg R v = some t') : Freed cfg t v t' := by
  rw [freeTag_eq hzero] at hfree
  by_cases hp : cfg.primaryBound ≤ v
  · rw [if_pos hp, if_pos (show v < cfg.tagNull from hlt)] at hfree
    by_cases hnull : (t.tagStore v).chainPtr = cfg.tagNull
    · rw [if_pos hnull] at hfree
      obtain ⟨t₁, hcut, rfl⟩ := Option.map_eq_some_iff.1 hfree
      exact h.freeLast hzero ⟨hp, hlt⟩ hnull hcut
    · rw [if_neg hnull] at hfree
      obtain rfl := Option.some.inj hfree
      exact h.freeInner hzero ⟨hp, hlt⟩ hvalid hnull
  · rw [if_neg hp] at hfree
    have hp := Nat.lt_of_not_le hp
    by_cases hnull : (t.sets 0).chainPtr = cfg.tagNull
    · rw [if_pos hnull] at hfree
      obtain rfl := Option.some.inj hfree
      exact h.freeTop hzero hp hlt hnull
    · rw [if_neg hnull] at hfree
      exact h.collapse hzero hp hlt hvalid hnull hfree

/-! ## A block is replaced -/

variable {transit : List Nat}

theorem Shape.congr (h : t.Shape cfg hole loc free chain) (hsets : t'.sets = t.sets)
    (hfreelist : t'.freelist = t.freelist) (hnext : ∀ k, cfg.Secondary k → t'.next cfg k = t.next cfg k)
    (hvalid : t'.valid = t.valid) :
    t'.Shape cfg hole loc free chain := by
  refine ⟨?_, ?_, fun s hs => ?_, h.mem_free, h.mem_chain, h.freeNodup, h.chainNodup, h.loc_lt, ?_, ?_⟩
  · rw [hsets]
    exact h.tags
  · rw [hfreelist]
    exact h.freeLinks.congr fun k hk => hnext k ((h.mem_free k).1 hk).1
  · rw [hsets]
    exact (h.links s hs).congr fun k hk => hnext k ((h.mem_chain s hs k).1 hk).1
  · rw [hvalid]
    exact h.valid
  · rw [hvalid, hsets]
    exact h.full

/-- What the invariant reads has not changed. -/
theorem Sound.congr (h : t.Sound cfg transit) (hrest : SameRest t t') (hview : ∀ k, t'.view k = t.view k) :
    t'.Sound cfg transit := by
  have hvalid : t'.valid = t.valid := funext fun k => congrArg (fun v => v.2.1) (hview k)
  have hdata : t'.dataOf = t.dataOf := funext fun k => congrArg (fun v => v.2.2.2) (hview k)
  have hnext : ∀ k, t'.next cfg k = t.next cfg k :=
    fun k => congrArg (fun v : Addr × Bool × Nat × List Nat => cfg.ptr v.2.2.1) (hview k)
  obtain ⟨loc, free, chain, hshape⟩ := h.shape
  refine ⟨fun k => (congrArg Prod.fst (hview k)).trans (h.zero k), ⟨loc, free, chain, ?_⟩, ?_⟩
  · exact hshape.congr hrest.sets hrest.freelist (fun k _ => hnext k) hvalid
  · rw [hvalid, hdata, hrest.blkFreelist, hrest.dataReferenceCount]
    exact h.data

/-- A write to a tag that leaves what the invariant reads. -/
theorem setTag_view {i : Nat} {e : IicTag ρ} (htag : e.tag = (t.tagStore i).tag) (hvalid : e.isValid = t.valid i)
    (hchain : e.chainPtr = (t.tagStore i).chainPtr) (hdata : e.dataPtr.take e.numData = t.dataOf i) (k : Nat) :
    (t.setTag i e).view k = t.view k := by
  by_cases hk : k = i
  · subst hk
    simp only [view, valid, dataOf, setTag_self, htag, hchain]
    rw [hvalid, hdata]
    rfl
  · exact view_eq_of_tagStore (setTag_of_ne hk e t)

/-- The data blocks `ds` have gone to the free list. -/
def released (ds : List Nat) (t : Iic σ ρ) : Iic σ ρ :=
  { t with
    blkFreelist := ds.reverse ++ t.blkFreelist
    dataReferenceCount := fun d => if d ∈ ds then 0 else t.dataReferenceCount d }

/-- The loop over the data of a tag, with or without its assertion. -/
theorem unreference_all {f : Iic σ ρ → Nat → Option (Iic σ ρ)}
    (hf : ∀ t d, t.dataReferenceCount d = 1 → f t d = t.unreference d) {ds : List Nat} (hnodup : ds.Nodup)
    (t : Iic σ ρ) (hone : ∀ d ∈ ds, t.dataReferenceCount d = 1) : ds.foldlM f t = some (t.released ds) := by
  induction ds generalizing t with
  | nil => rfl
  | cons d ds ih =>
    obtain ⟨hd, hds⟩ := List.nodup_cons.1 hnodup
    obtain ⟨hone, hrest⟩ := List.forall_mem_cons.1 hone
    have hfirst : f t d = some { t with
        blkFreelist := d :: t.blkFreelist
        dataReferenceCount := Function.update t.dataReferenceCount d 0 } := by
      rw [hf t d hone, unreference]
      simp [hone, freeDataBlock, assert]
    have hothers : ∀ e ∈ ds, Function.update t.dataReferenceCount d 0 e = 1 := by
      intro e he
      have hne : e ≠ d := fun heq => hd (heq ▸ he)
      rw [Function.update_of_ne hne]
      exact hrest e he
    rw [List.foldlM_cons, hfirst]
    refine (ih hds _ hothers).trans (congrArg some ?_)
    simp only [released, List.reverse_cons, List.append_assoc, List.singleton_append, Iic.mk.injEq, true_and, and_true]
    funext e
    by_cases he : e = d
    · simp [he]
    · simp [he]

/-- A valid tag is freed, its data first. -/
theorem Sound.evict (h : t.Sound cfg transit) {v : Nat} (hlt : v < cfg.numTags) (hvalid : t.valid v = true)
    (hfree : (t.released (t.dataOf v)).freeTag cfg R v = some t') :
    t'.Sound cfg transit ∧ t'.blkFreelist = (t.dataOf v).reverse ++ t.blkFreelist := by
  obtain ⟨loc, free, chain, hshape⟩ := h.shape
  have hshape' : (t.released (t.dataOf v)).Shape cfg none loc free chain :=
    hshape.congr rfl rfl (fun _ _ => rfl) rfl
  have hfreed : Freed cfg (t.released (t.dataOf v)) v t' := hshape'.freeTag h.zero hlt hvalid hfree
  obtain ⟨i, hi, j, hj, hvalid', hdata'⟩ := hfreed.exchanged
  refine ⟨⟨hfreed.zero, hfreed.shape, ?_⟩, hfreed.blkFreelist⟩
  rw [hfreed.blkFreelist, hfreed.counts]
  refine ((h.data.release hlt hvalid).swap hi hj).congr (fun k _ => hvalid' k) fun k _ hk => ?_
  exact hdata' k ((hvalid' k).trans hk)

/-- The victim the policy chooses. -/
def victim (R : Repl σ ρ) (t : Iic σ ρ) : Nat := (R.getRepl t.repl).1

/-- The store when the data of the victim are given up. -/
def chosen (R : Repl σ ρ) (t : Iic σ ρ) : Iic σ ρ :=
  { t with repl := (R.getRepl t.repl).2 }.setTag (t.victim R) { t.tagStore (t.victim R) with refCount := 0 }

theorem chosen_rest (R : Repl σ ρ) (t : Iic σ ρ) : SameRest t (t.chosen R) := ⟨rfl, rfl, rfl, rfl⟩

theorem chosen_view (R : Repl σ ρ) (t : Iic σ ρ) (k : Nat) : (t.chosen R).view k = t.view k := by
  have hset := @setTag_view σ ρ { t with repl := (R.getRepl t.repl).2 } (t.victim R)
    { t.tagStore (t.victim R) with refCount := 0 } rfl rfl rfl rfl k
  exact hset

theorem Sound.freeReplacementBlock_eq (h : t.Sound cfg transit) : t.freeReplacementBlock cfg R =
    if t.victim R < cfg.numTags ∧ t.valid (t.victim R) = true then
      (((t.chosen R).released (t.dataOf (t.victim R))).freeTag cfg R (t.victim R)).map fun t' =>
        (t', t.tagStore (t.victim R))
    else none := by
  have hunfold : t.freeReplacementBlock cfg R = (do
      assert (decide (t.victim R < cfg.numTags) && t.valid (t.victim R))
      let t₁ ← ((t.chosen R).dataOf (t.victim R)).foldlM
        (fun t d => do
          assert (decide (t.dataReferenceCount d > 0))
          t.unreference d) (t.chosen R)
      let t₂ ← t₁.freeTag cfg R (t.victim R)
      return (t₂, t.tagStore (t.victim R))) := rfl
  rw [hunfold]
  by_cases hv : t.victim R < cfg.numTags ∧ t.valid (t.victim R) = true
  · obtain ⟨hlen, hnodup, hone⟩ := h.data.whole _ hv.1 hv.2
    have hdata : (t.chosen R).dataOf (t.victim R) = t.dataOf (t.victim R) :=
      congrArg (fun v => v.2.2.2) (chosen_view R t (t.victim R))
    have hloop := @unreference_all σ ρ (fun t d => do
        assert (decide (t.dataReferenceCount d > 0))
        t.unreference d) (fun t d hd => by simp [hd, assert]) _ hnodup (t.chosen R) hone
    rw [if_pos hv, hdata, hloop]
    simp only [hv, decide_true, Bool.and_self, assert, if_true]
    show (freeTag cfg R _ _).bind _ = _
    cases freeTag cfg R (t.victim R) ((t.chosen R).released (t.dataOf (t.victim R))) <;> rfl
  · rw [if_neg hv]
    have hassert : (decide (t.victim R < cfg.numTags) && t.valid (t.victim R)) = false := by
      rw [Bool.eq_false_iff]
      simpa using hv
    rw [hassert]
    rfl

theorem Sound.freeReplacementBlock (h : t.Sound cfg transit) {e : IicTag ρ}
    (hfree : t.freeReplacementBlock cfg R = some (t', e)) :
    t'.Sound cfg transit ∧ t'.blkFreelist.length = cfg.numSub + t.blkFreelist.length := by
  rw [h.freeReplacementBlock_eq] at hfree
  split at hfree
  · rename_i hv
    obtain ⟨t₁, hfreeTag, hpair⟩ := Option.map_eq_some_iff.1 hfree
    obtain ⟨rfl, -⟩ := Prod.mk.inj hpair
    have hchosen := h.congr (chosen_rest R t) (chosen_view R t)
    have hview := chosen_view R t (t.victim R)
    have hdata : (t.chosen R).dataOf (t.victim R) = t.dataOf (t.victim R) := congrArg (fun v => v.2.2.2) hview
    have hvalid : (t.chosen R).valid (t.victim R) = t.valid (t.victim R) := congrArg (fun v => v.2.1) hview
    rw [← hdata] at hfreeTag
    obtain ⟨hsound, hblks⟩ := hchosen.evict hv.1 (hvalid.trans hv.2) hfreeTag
    refine ⟨hsound, ?_⟩
    rw [hblks, List.length_append, List.length_reverse, hdata, (h.data.whole _ hv.1 hv.2).1,
      (chosen_rest R t).blkFreelist]
  · cases hfree

/-! ## Data blocks for a tag -/

theorem Sound.take (h : t.Sound cfg transit) {d : Nat} {ds : List Nat} (hfree : t.blkFreelist = d :: ds) :
    ({ t with blkFreelist := ds } : Iic σ ρ).Sound cfg (transit ++ [d]) := by
  obtain ⟨loc, free, chain, hshape⟩ := h.shape
  have hdata := h.data
  rw [hfree] at hdata
  exact ⟨h.zero, ⟨loc, free, chain, hshape.congr rfl rfl (fun _ _ => rfl) rfl⟩, hdata.take⟩

theorem Sound.getFreeDataBlock (h : t.Sound cfg transit) {fuel d : Nat} {ev ev' : List (IicTag ρ)}
    (hget : getFreeDataBlock cfg R fuel t ev = some (t', d, ev')) : t'.Sound cfg (transit ++ [d]) := by
  induction fuel generalizing t ev with
  | zero => cases hget
  | succ fuel ih =>
    rw [Iic.getFreeDataBlock] at hget
    split at hget
    · rename_i d' ds hfree
      obtain ⟨rfl, hpair⟩ := Prod.mk.inj (Option.some.inj hget)
      obtain ⟨rfl, -⟩ := Prod.mk.inj hpair
      exact h.take hfree
    · obtain ⟨⟨t₁, e⟩, hevict, hget⟩ := Option.bind_eq_some_iff.1 hget
      exact ih (h.freeReplacementBlock hevict).1 hget

theorem Sound.getData {n : Nat} {ds ds' : List Nat} (h : t.Sound cfg ds) {ev ev' : List (IicTag ρ)}
    (hget : getData cfg R n t ds ev = some (t', ds', ev')) : t'.Sound cfg ds' ∧ ds'.length = ds.length + n := by
  induction n generalizing t ds ev with
  | zero =>
    obtain ⟨rfl, hpair⟩ := Prod.mk.inj (Option.some.inj hget)
    obtain ⟨rfl, -⟩ := Prod.mk.inj hpair
    exact ⟨h, rfl⟩
  | succ n ih =>
    rw [Iic.getData] at hget
    obtain ⟨⟨t₁, d, ev₁⟩, hfirst, hget⟩ := Option.bind_eq_some_iff.1 hget
    obtain ⟨-, -, hget⟩ := Option.bind_eq_some_iff.1 hget
    obtain ⟨hsound, hlen⟩ := ih (h.getFreeDataBlock hfirst) hget
    refine ⟨hsound, ?_⟩
    rw [hlen, List.length_append, List.length_singleton]
    omega

end Iic

end PrefetchSim
