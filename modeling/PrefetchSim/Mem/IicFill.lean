import Mathlib.Order.Interval.Finset.Nat
import PrefetchSim.Mem.FaLru
import PrefetchSim.Mem.IicSound

/- Fills of the two alternative tag stores.

   `Iic.Sound` is kept by every call, so it holds of every store the cache gets to. In such a
   store a tag for a new block is always found once there are data blocks for it
   (`Sound.getFreeTag`), and a lookup goes through the tags of the set and then its chain
   (`Shape.findBlock`). Since all tags are zero only the block with tag zero is ever found. -/
namespace PrefetchSim

open Stacks

namespace Iic

variable {σ ρ : Type} {cfg : IicConfig} {R : Repl σ ρ} {t t' : Iic σ ρ} {transit : List Nat}
  {hole : Option Nat} {loc : Nat → Option Nat} {free : List Nat} {chain : Nat → List Nat}

/-! ## Lookup -/

theorem secondaryChain_eq {tag : Addr} {l : List Nat} {fuel p : Nat} (hfuel : l.length < fuel)
    (hl : InStack (t.next cfg) (cfg.ptr p) l) :
    t.secondaryChain cfg tag fuel p = some (l.find? (t.matchesTag tag)) := by
  induction l generalizing fuel p with
  | nil =>
    obtain ⟨fuel, rfl⟩ := Nat.exists_eq_add_of_lt hfuel
    have hp : p = cfg.tagNull := IicConfig.ptr_eq_none.1 hl
    simp [secondaryChain, hp]
  | cons x l ih =>
    obtain ⟨fuel, rfl⟩ : ∃ n, fuel = n + 1 := ⟨fuel - 1, by omega⟩
    obtain ⟨hne, rfl⟩ := IicConfig.ptr_eq_some.1 hl.1
    rw [secondaryChain, if_neg hne, List.find?_cons]
    cases hx : t.matchesTag tag p with
    | true => rfl
    | false =>
      refine ih ?_ hl.2
      rw [List.length_cons] at hfuel
      omega

theorem Shape.chain_length (h : t.Shape cfg hole loc free chain) {s : Nat} (hs : s < cfg.hashSets) :
    (chain s).length ≤ cfg.numTags := by
  have hsub : chain s ⊆ List.range cfg.numTags := by
    intro i hi
    exact List.mem_range.2 ((h.mem_chain s hs i).1 hi).1.2
  have hle := ((h.chainNodup s hs).subperm hsub).length_le
  rwa [List.length_range] at hle

theorem Shape.findBlock (h : t.Shape cfg hole loc free chain) (addr : Addr) : t.findBlock cfg addr =
    some (((t.sets (cfg.hash addr)).tags ++ chain (cfg.hash addr)).find? (t.matchesTag (cfg.extractTag addr))) := by
  have hs := cfg.hash_lt addr
  have hchain := @secondaryChain_eq σ ρ cfg t (cfg.extractTag addr) _ (cfg.numTags + 1) _
    (Nat.lt_succ_of_le (h.chain_length hs)) (h.links _ hs)
  rw [Iic.findBlock, findTag, hchain, List.find?_append]
  cases (t.sets (cfg.hash addr)).tags.find? (t.matchesTag (cfg.extractTag addr)) <;> rfl

theorem matchesTag_eq_true {tag : Addr} {i : Nat} :
    t.matchesTag tag i = true ↔ (t.tagStore i).tag = tag ∧ t.valid i = true := by
  simp [matchesTag, valid]

theorem lt_numTags_of_primary {i : Nat} (hi : i < cfg.primaryBound) : i < cfg.numTags := by
  have hnull := cfg.tagNull_eq
  unfold IicConfig.tagNull at hnull
  omega

/-- No block is found but the one with tag zero. -/
theorem Sound.findBlock_of_ne (h : t.Sound cfg transit) {addr : Addr} (hne : cfg.extractTag addr ≠ 0) :
    t.findBlock cfg addr = some none := by
  obtain ⟨loc, free, chain, hshape⟩ := h.shape
  rw [hshape.findBlock, List.find?_eq_none.2]
  intro i _ hi
  rw [matchesTag_eq_true, h.zero i] at hi
  exact hne hi.1.symm

theorem Sound.of_findBlock (h : t.Sound cfg transit) {addr : Addr} {i : Nat}
    (hfind : t.findBlock cfg addr = some (some i)) : i < cfg.numTags ∧ t.valid i = true := by
  obtain ⟨loc, free, chain, hshape⟩ := h.shape
  have hs := cfg.hash_lt addr
  rw [hshape.findBlock] at hfind
  have hfound := Option.some.inj hfind
  refine ⟨?_, (matchesTag_eq_true.1 (List.find?_some hfound)).2⟩
  rcases List.mem_append.1 (List.mem_of_find?_eq_some hfound) with hi | hi
  · exact lt_numTags_of_primary (hshape.primary hs hi)
  · exact ((hshape.mem_chain _ hs i).1 hi).1.2

/-! ## A tag for a new block -/

theorem Shape.setTags (h : t.Shape cfg hole loc free chain) {s : Nat} {tags : List Nat}
    (hperm : tags.Perm (t.sets s).tags) :
    (t.setSet s { t.sets s with tags := tags }).Shape cfg hole loc free chain := by
  have hperm' : ∀ r, ((t.setSet s { t.sets s with tags := tags }).sets r).tags.Perm (t.sets r).tags := by
    intro r
    by_cases hr : r = s
    · rw [hr, setSet_self]
      exact hperm
    · rw [setSet_of_ne hr]
  refine ⟨fun r hr => (hperm' r).trans (h.tags r hr), h.freeLinks, fun r hr => ?_, h.mem_free, h.mem_chain,
    h.freeNodup, h.chainNodup, h.loc_lt, h.valid, fun hne i hi => ?_⟩
  · have hptr : ((t.setSet s { t.sets s with tags := tags }).sets r).chainPtr = (t.sets r).chainPtr := by
      by_cases hrs : r = s
      · rw [hrs, setSet_self]
      · rw [setSet_of_ne hrs]
    rw [hptr]
    exact h.links r hr
  · exact h.full hne i ((hperm' 0).mem_iff.1 hi)

theorem Sound.setTags (h : t.Sound cfg transit) {s : Nat} {tags : List Nat} (hperm : tags.Perm (t.sets s).tags) :
    (t.setSet s { t.sets s with tags := tags }).Sound cfg transit := by
  obtain ⟨loc, free, chain, hshape⟩ := h.shape
  exact ⟨h.zero, ⟨loc, free, chain, hshape.setTags hperm⟩, h.data⟩

/-- With a set full and the data of one more tag in transit, the free list cannot be empty. -/
theorem Sound.freelist_ne (h : t.Sound cfg transit) (hlen : transit.length = cfg.numSub) {s : Nat}
    (hs : s < cfg.hashSets) (hfull : ∀ i ∈ (t.sets s).tags, t.valid i = true) : t.freelist ≠ cfg.tagNull := by
  intro hnull
  obtain ⟨loc, free, chain, hshape⟩ := h.shape
  have hsecondary : ∀ i, cfg.Secondary i → t.valid i = true := by
    intro i hi
    refine (hshape.valid i hi).2 fun hnone => ?_
    have hlinks := hshape.freeLinks
    rw [hnull, IicConfig.ptr_null] at hlinks
    have hmem := (hshape.mem_free i).2 ⟨hi, hnone⟩
    rw [hlinks.eq_nil] at hmem
    cases hmem
  have htagNull := cfg.tagNull_eq
  have hpos := cfg.numSecondary_pos
  have hassoc := cfg.assoc_pos
  have hbound : s * cfg.assoc + cfg.assoc ≤ cfg.primaryBound := by
    have hle : (s + 1) * cfg.assoc ≤ cfg.hashSets * cfg.assoc := Nat.mul_le_mul_right _ hs
    rwa [Nat.add_mul, Nat.one_mul] at hle
  -- the tags of the set and the secondary ones are in use
  have hcard : cfg.numSecondary ≤ ((Finset.range cfg.numTags).filter fun k => t.valid k = true).card := by
    have hdisjoint : Disjoint (Finset.Ico (s * cfg.assoc) (s * cfg.assoc + cfg.assoc))
        (Finset.Ico cfg.primaryBound cfg.tagNull) := by
      rw [Finset.disjoint_left]
      intro k hk hk'
      rw [Finset.mem_Ico] at hk hk'
      omega
    calc cfg.numSecondary
        ≤ cfg.assoc + (cfg.numSecondary - 1) := by omega
      _ = (Finset.Ico (s * cfg.assoc) (s * cfg.assoc + cfg.assoc) ∪ Finset.Ico cfg.primaryBound cfg.tagNull).card := by
        rw [Finset.card_union_of_disjoint hdisjoint, Nat.card_Ico, Nat.card_Ico, htagNull]
        omega
      _ ≤ ((Finset.range cfg.numTags).filter fun k => t.valid k = true).card := by
        refine Finset.card_le_card fun k hk => ?_
        rw [Finset.mem_filter, Finset.mem_range]
        rcases Finset.mem_union.1 hk with hk | hk
        · rw [Finset.mem_Ico] at hk
          refine ⟨?_, hfull k ((hshape.mem_tags hs).2 hk)⟩
          unfold IicConfig.tagNull at htagNull
          omega
        · exact ⟨(Finset.mem_Ico.1 hk).2, hsecondary k (Finset.mem_Ico.1 hk)⟩
  have hroom := h.data.room
  rw [List.length_append, hlen] at hroom
  have hcap : cfg.numBlocks < cfg.numSub * (cfg.numSecondary + 1) := Nat.lt_mul_div_succ _ cfg.numSub_pos
  have hmul := Nat.mul_le_mul_right cfg.numSub hcard
  rw [Nat.mul_add, Nat.mul_one, Nat.mul_comm] at hcap
  omega

/-- The tag `i` of the set `s` awaits a block, whose data are in transit. -/
structure Vacant (cfg : IicConfig) (t : Iic σ ρ) (s i : Nat) (transit : List Nat) : Prop where
  zero : ∀ k, (t.tagStore k).tag = 0
  shape : ∃ loc free chain, t.Shape cfg (some i) loc free chain
  data : Holdings.Sound cfg.numTags cfg.numSub cfg.numBlocks t.valid t.dataOf t.dataReferenceCount t.blkFreelist transit
  mem : i ∈ (t.sets s).tags
  empty : t.valid i = false

theorem spill_valid (R : Repl σ ρ) (s x p : Nat) (t : Iic σ ρ) (k : Nat) :
    (t.spill R s x p).valid k = t.valid (Equiv.swap x p k) := by
  let t₁ := { t with freelist := (t.tagStore x).chainPtr }.tagSwap R x p
  have hset := setTag_valid x { t₁.tagStore x with chainPtr := (t₁.sets s).chainPtr } t₁
  exact (congrFun (hset.trans (Function.update_eq_self x t₁.valid)) k).trans (tagSwap_valid R x p _ k)

theorem spill_dataOf (R : Repl σ ρ) (s x p : Nat) (t : Iic σ ρ) (k : Nat) :
    (t.spill R s x p).dataOf k = t.dataOf (Equiv.swap x p k) := by
  let t₁ := { t with freelist := (t.tagStore x).chainPtr }.tagSwap R x p
  have hset := setTag_dataOf x { t₁.tagStore x with chainPtr := (t₁.sets s).chainPtr } t₁
  exact (congrFun (hset.trans (Function.update_eq_self x t₁.dataOf)) k).trans (tagSwap_dataOf R x p _ k)

theorem spill_zero (R : Repl σ ρ) (s x p : Nat) (h : ∀ k, (t.tagStore k).tag = 0) (k : Nat) :
    ((t.spill R s x p).tagStore k).tag = 0 := by
  let t₁ := { t with freelist := (t.tagStore x).chainPtr }.tagSwap R x p
  have hzero : ∀ k, (t₁.tagStore k).tag = 0 := fun k => (tagSwap_tag R x p _ k).trans (h _)
  exact @setTag_zero σ ρ t₁ x { t₁.tagStore x with chainPtr := (t₁.sets s).chainPtr } hzero (hzero x) k

theorem spill_sets (R : Repl σ ρ) (s x p : Nat) (t : Iic σ ρ) :
    (t.spill R s x p).sets = Function.update t.sets s { t.sets s with chainPtr := x } := by
  have hrest := tagSwap_rest R x p { t with freelist := (t.tagStore x).chainPtr }
  have hsets : (t.spill R s x p).sets = Function.update
      ({ t with freelist := (t.tagStore x).chainPtr }.tagSwap R x p).sets s
      { ({ t with freelist := (t.tagStore x).chainPtr }.tagSwap R x p).sets s with chainPtr := x } := rfl
  rw [hsets, hrest.sets]

theorem spill_next_self (R : Repl σ ρ) (s x p : Nat) (t : Iic σ ρ) :
    (t.spill R s x p).next cfg x = cfg.ptr (t.sets s).chainPtr := by
  let t₁ := { t with freelist := (t.tagStore x).chainPtr }.tagSwap R x p
  have hset := @setTag_next σ ρ cfg x { t₁.tagStore x with chainPtr := (t₁.sets s).chainPtr } t₁
  have hsets : t₁.sets = t.sets := (tagSwap_rest R x p _).sets
  refine (congrFun hset x).trans ?_
  rw [Function.update_self, hsets]

theorem spill_next_of_ne (R : Repl σ ρ) (s : Nat) {x p k : Nat} (hx : k ≠ x) (hp : k ≠ p) (t : Iic σ ρ) :
    (t.spill R s x p).next cfg k = t.next cfg k := by
  let t₁ := { t with freelist := (t.tagStore x).chainPtr }.tagSwap R x p
  have hset := @setTag_next σ ρ cfg x { t₁.tagStore x with chainPtr := (t₁.sets s).chainPtr } t₁
  refine (congrFun hset k).trans ?_
  rw [Function.update_of_ne hx, tagSwap_next, Equiv.swap_apply_of_ne_of_ne hx hp]
  rfl

theorem Shape.spill {s x p : Nat} (h : t.Shape cfg none loc (x :: free) chain) (hs : s < cfg.hashSets)
    (hp : p ∈ (t.sets s).tags) (hfull : ∀ i ∈ (t.sets s).tags, t.valid i = true) :
    (t.spill R s x p).Shape cfg (some p) (Function.update loc x (some s)) free
      (Function.update chain s (x :: chain s)) := by
  obtain ⟨hxsec, hxloc⟩ := (h.mem_free x).1 (List.mem_cons_self ..)
  obtain ⟨hxfree, hfreeNodup⟩ := List.nodup_cons.1 h.freeNodup
  have hpprim := h.primary hs hp
  -- the links of the other secondary tags
  have hkeep : ∀ {q l}, InStack (t.next cfg) q l → (∀ i ∈ l, cfg.Secondary i ∧ i ≠ x) →
      InStack ((t.spill R s x p).next cfg) q l := by
    intro q l hl hmem
    refine hl.congr fun i hi => ?_
    exact spill_next_of_ne R s (hmem i hi).2 (secondary_ne hpprim (hmem i hi).1) t
  have hnotMem : ∀ r < cfg.hashSets, ∀ i ∈ chain r, cfg.Secondary i ∧ i ≠ x := by
    intro r hr i hi
    obtain ⟨hsec, hloc⟩ := (h.mem_chain r hr i).1 hi
    refine ⟨hsec, fun heq => ?_⟩
    rw [heq, hxloc] at hloc
    cases hloc
  have htags : ∀ r, ((t.spill R s x p).sets r).tags = (t.sets r).tags := by
    intro r
    rw [spill_sets]
    by_cases hr : r = s
    · rw [hr, Function.update_self]
    · rw [Function.update_of_ne hr]
  constructor
  · intro r hr
    rw [htags]
    exact h.tags r hr
  · have hfreelist : cfg.ptr (t.spill R s x p).freelist = t.next cfg x := by
      have hrest := (tagSwap_rest R x p { t with freelist := (t.tagStore x).chainPtr }).freelist
      exact congrArg cfg.ptr hrest
    rw [hfreelist]
    refine hkeep h.freeLinks.2 fun i hi => ?_
    refine ⟨((h.mem_free i).1 (List.mem_cons_of_mem _ hi)).1, fun heq => ?_⟩
    exact hxfree (heq ▸ hi)
  · intro r hr
    rw [spill_sets]
    by_cases hrs : r = s
    · subst hrs
      rw [Function.update_self, Function.update_self]
      refine ⟨if_neg (Nat.ne_of_lt hxsec.2), ?_⟩
      rw [spill_next_self]
      exact hkeep (h.links r hr) (hnotMem r hr)
    · rw [Function.update_of_ne hrs, Function.update_of_ne hrs]
      exact hkeep (h.links r hr) (hnotMem r hr)
  · intro i
    have hmem := h.mem_free i
    by_cases hix : i = x
    · subst hix
      simp [hxfree]
    · rw [Function.update_of_ne hix, ← hmem]
      simp [hix]
  · intro r hr i
    by_cases hrs : r = s
    · subst hrs
      rw [Function.update_self, List.mem_cons, h.mem_chain r hr]
      by_cases hix : i = x
      · subst hix
        simp [hxsec]
      · simp [hix]
    · rw [Function.update_of_ne hrs, h.mem_chain r hr]
      by_cases hix : i = x
      · subst hix
        simp [hxloc, Ne.symm hrs]
      · simp [hix]
  · exact hfreeNodup
  · intro r hr
    by_cases hrs : r = s
    · subst hrs
      rw [Function.update_self, List.nodup_cons]
      exact ⟨fun hmem => (hnotMem r hr x hmem).2 rfl, h.chainNodup r hr⟩
    · rw [Function.update_of_ne hrs]
      exact h.chainNodup r hr
  · intro i r hi hr
    by_cases hix : i = x
    · rw [hix, Function.update_self] at hr
      exact Option.some.inj hr ▸ hs
    · rw [Function.update_of_ne hix] at hr
      exact h.loc_lt i r hi hr
  · intro i hi
    rw [spill_valid]
    by_cases hix : i = x
    · subst hix
      rw [Equiv.swap_apply_left, Function.update_self, hfull p hp]
      simp
    · rw [Equiv.swap_apply_of_ne_of_ne hix (secondary_ne hpprim hi), Function.update_of_ne hix]
      exact h.valid i hi
  · intro hne i hi hip
    rw [htags] at hi
    have hip' : i ≠ p := fun heq => hip (congrArg some heq)
    have hix : i ≠ x := Ne.symm (secondary_ne (h.primary (hashSets_pos cfg) hi) hxsec)
    rw [spill_valid, Equiv.swap_apply_of_ne_of_ne hix hip']
    by_cases hs0 : s = 0
    · subst hs0
      exact hfull i hi
    · rw [Function.update_of_ne (Ne.symm hs0)] at hne
      exact h.full hne i hi (Option.some_ne_none i)

theorem Sound.getFreeTag {ds : List Nat} (h : t.Sound cfg ds) (hlen : ds.length = cfg.numSub) {s : Nat}
    (hs : s < cfg.hashSets) (ev : List (IicTag ρ)) :
    ∃ t' i, t.getFreeTag cfg R s ev = some (t', i, ev) ∧ t'.Vacant cfg s i ds := by
  obtain ⟨loc, free, chain, hshape⟩ := h.shape
  cases hfind : t.findFree s with
  | some i =>
    refine ⟨t, i, by rw [Iic.getFreeTag, hfind], h.zero, ⟨loc, free, chain, ?_⟩, h.data,
      List.mem_of_find?_eq_some hfind, by simpa [valid] using List.find?_some hfind⟩
    exact ⟨hshape.tags, hshape.freeLinks, hshape.links, hshape.mem_free, hshape.mem_chain, hshape.freeNodup,
      hshape.chainNodup, hshape.loc_lt, hshape.valid, fun hne i hi _ => hshape.full hne i hi (Option.some_ne_none i)⟩
  | none =>
    have hfull : ∀ i ∈ (t.sets s).tags, t.valid i = true := by
      intro i hi
      simpa [valid] using List.find?_eq_none.1 hfind i hi
    have hne := h.freelist_ne hlen hs hfull
    obtain ⟨x, free, rfl⟩ : ∃ x free', free = x :: free' := by
      cases free with
      | nil => exact absurd (IicConfig.ptr_eq_none.1 hshape.freeLinks) hne
      | cons x xs => exact ⟨x, xs, rfl⟩
    obtain ⟨-, rfl⟩ := IicConfig.ptr_eq_some.1 hshape.freeLinks.1
    have hnil : (t.sets s).tags ≠ [] := by
      intro hnil
      have hl := (hshape.tags s hs).length_eq
      rw [hnil, List.length_range'] at hl
      exact absurd hl (Nat.ne_of_lt cfg.assoc_pos)
    obtain ⟨p, hp⟩ := Option.ne_none_iff_exists'.1 (mt List.getLast?_eq_none_iff.1 hnil)
    have hmem : p ∈ (t.sets s).tags := List.mem_of_getLast? hp
    have hx := ((hshape.mem_free t.freelist).1 (List.mem_cons_self ..)).1
    have hplt := lt_numTags_of_primary (hshape.primary hs hmem)
    have htags : ((t.spill R s t.freelist p).sets s).tags = (t.sets s).tags := by
      rw [spill_sets, Function.update_self]
    refine ⟨t.spill R s t.freelist p, p, ?_, spill_zero R s _ p h.zero, ⟨_, free, _, hshape.spill hs hmem hfull⟩,
      ?_, htags ▸ hmem, ?_⟩
    · rw [Iic.getFreeTag, hfind]
      simp [freeSecondary, hne, hp, htags]
    · have hswap := h.data.swap hx.2 hplt
      have hvalid : (t.spill R s t.freelist p).valid = fun k => t.valid (Equiv.swap t.freelist p k) :=
        funext (spill_valid R s _ p t)
      have hdata : (t.spill R s t.freelist p).dataOf = fun k => t.dataOf (Equiv.swap t.freelist p k) :=
        funext (spill_dataOf R s _ p t)
      have hrest := tagSwap_rest R t.freelist p { t with freelist := (t.tagStore t.freelist).chainPtr }
      rw [hvalid, hdata]
      have hcounts : (t.spill R s t.freelist p).dataReferenceCount = t.dataReferenceCount := hrest.dataReferenceCount
      have hblks : (t.spill R s t.freelist p).blkFreelist = t.blkFreelist := hrest.blkFreelist
      rw [hcounts, hblks]
      exact hswap
    · rw [spill_valid, Equiv.swap_apply_right]
      have hinvalid := hshape.valid t.freelist hx
      rw [((hshape.mem_free t.freelist).1 (List.mem_cons_self ..)).2] at hinvalid
      simpa using hinvalid

/-! ## The tag is filled -/

theorem reference_eq {ds : List Nat} (hnodup : ds.Nodup) (t : Iic σ ρ) : t.reference ds =
    { t with dataReferenceCount := fun d =>
        if d ∈ ds then t.dataReferenceCount d + 1 else t.dataReferenceCount d } := by
  induction ds generalizing t with
  | nil => simp [reference]
  | cons d ds ih =>
    obtain ⟨hd, hds⟩ := List.nodup_cons.1 hnodup
    refine (ih hds _).trans ?_
    simp only [Iic.mk.injEq, true_and, and_true]
    funext e
    by_cases he : e = d
    · simp [he, hd]
    · simp [he]

/-- The store after `place`, with the policy's entry and its new state. -/
def placed (cfg : IicConfig) (s i : Nat) (ds : List Nat) (re : ρ) (r : σ) (t : Iic σ ρ) : Iic σ ρ where
  tagStore := Function.update t.tagStore i
    { t.tagStore i with
      set := s, dataPtr := ds, numData := cfg.numSub, chainPtr := cfg.tagNull, re := some re }
  sets := Function.update t.sets s
    { t.sets s with tags := PrefetchSim.moveToHead i (t.sets s).tags }
  freelist := t.freelist
  blkFreelist := t.blkFreelist
  dataReferenceCount d := if d ∈ ds then t.dataReferenceCount d + 1 else t.dataReferenceCount d
  repl := r

theorem place_eq {s i : Nat} {ds : List Nat} (hi : i < cfg.primaryBound) (hmem : i ∈ (t.sets s).tags)
    (hnodup : ds.Nodup) : ∃ re r, t.place cfg R s i ds = some (t.placed cfg s i ds re r) := by
  refine ⟨(R.add i (R.doAdvance t.repl)).1, (R.add i (R.doAdvance t.repl)).2, ?_⟩
  rw [place, reference_eq hnodup]
  simp [setTag, setSet, hi, assert, moveToHead, hmem, placed]

theorem Vacant.fill {s i : Nat} {ds : List Nat} (h : t.Vacant cfg s i ds) (hs : s < cfg.hashSets)
    (hlen : ds.length = cfg.numSub) (re : ρ) (r : σ) (st : Status) :
    ((t.placed cfg s i ds re r).setStatus st i).Sound cfg [] := by
  obtain ⟨loc, free, chain, hshape⟩ := h.shape
  have hi := hshape.primary hs h.mem
  -- one write of the tag
  let e : IicTag ρ := { t.tagStore i with
    status := { st with valid := true }
    set := s, dataPtr := ds, numData := cfg.numSub, chainPtr := cfg.tagNull, re := some re }
  have hstore : ((t.placed cfg s i ds re r).setStatus st i).tagStore = (t.setTag i e).tagStore := by
    show Function.update (Function.update t.tagStore i _) i _ = Function.update t.tagStore i e
    rw [Function.update_idem]
    simp [placed, e]
  have hvalid : ((t.placed cfg s i ds re r).setStatus st i).valid = Function.update t.valid i true := by
    funext k
    rw [valid, hstore]
    exact congrFun (setTag_valid i e t) k
  have hdata : ((t.placed cfg s i ds re r).setStatus st i).dataOf = Function.update t.dataOf i ds := by
    funext k
    rw [dataOf, hstore]
    refine (congrFun (setTag_dataOf i e t) k).trans ?_
    rw [show e.dataPtr.take e.numData = ds from List.take_of_length_le (Nat.le_of_eq hlen)]
  have hnext : ∀ k, cfg.Secondary k →
      ((t.placed cfg s i ds re r).setStatus st i).next cfg k = t.next cfg k := by
    intro k hk
    rw [next, hstore, setTag_of_ne (secondary_ne hi hk)]
    rfl
  refine ⟨fun k => ?_, ⟨loc, free, chain, ?_⟩, ?_⟩
  · rw [hstore]
    exact @setTag_zero σ ρ t i e h.zero (h.zero i) k
  · have hmoved := hshape.setTags (moveToHead_perm h.mem)
    refine ⟨hmoved.tags, ?_, fun u hu => ?_, hshape.mem_free, hshape.mem_chain, hshape.freeNodup, hshape.chainNodup,
      hshape.loc_lt, fun k hk => ?_, fun hne k hk _ => ?_⟩
    · exact hshape.freeLinks.congr fun k hk => hnext k ((hshape.mem_free k).1 hk).1
    · exact (hmoved.links u hu).congr fun k hk => hnext k ((hshape.mem_chain u hu k).1 hk).1
    · rw [hvalid, Function.update_of_ne (secondary_ne hi hk)]
      exact hshape.valid k hk
    · rw [hvalid]
      by_cases hki : k = i
      · rw [hki, Function.update_self]
      · rw [Function.update_of_ne hki]
        exact hmoved.full hne k hk fun heq => hki (Option.some.inj heq)
  · rw [hvalid, hdata]
    exact h.data.fill (lt_numTags_of_primary hi) h.empty hlen

/-- A fill returns as soon as there are data blocks, and puts the block at the head of its set. -/
theorem fill_spec (h : t.Sound cfg []) (addr : Addr) : t.fill cfg R addr = none ∧
      getData cfg R cfg.numSub t [] [] = none ∨
    ∃ t' i ev rest, t.fill cfg R addr = some (t', i, ev) ∧ t'.Sound cfg [] ∧
      (t'.sets (cfg.hash addr)).tags = i :: rest ∧ t'.valid i = true ∧
      getData cfg R cfg.numSub t [] [] ≠ none := by
  cases hget : getData cfg R cfg.numSub t [] [] with
  | none => exact Or.inl ⟨by simp [fill, findVictim, hget], rfl⟩
  | some r =>
    obtain ⟨t₁, ds, ev⟩ := r
    have hs := cfg.hash_lt addr
    obtain ⟨hsound, hlen⟩ := h.getData hget
    rw [List.length_nil, Nat.zero_add] at hlen
    obtain ⟨t₂, i, htag, hvacant⟩ := @Sound.getFreeTag σ ρ cfg R t₁ ds hsound hlen _ hs ev
    obtain ⟨loc, free, chain, hshape⟩ := hvacant.shape
    have hnodup : ds.Nodup := (List.nodup_append.1 hsound.data.nodup).2.1
    obtain ⟨re, r, hplace⟩ := @place_eq σ ρ cfg R t₂ _ i ds (hshape.primary hs hvacant.mem) hvacant.mem hnodup
    refine Or.inr ⟨(t₂.placed cfg (cfg.hash addr) i ds re r).setStatus { readable := true } i, i, ev,
      (t₂.sets (cfg.hash addr)).tags.erase i, ?_, hvacant.fill hs hlen re r _, ?_, ?_, Option.some_ne_none _⟩
    · simp [fill, findVictim, hget, htag, hplace, insertBlock]
    · have htags : (((t₂.placed cfg (cfg.hash addr) i ds re r).setStatus { readable := true } i).sets
          (cfg.hash addr)).tags = PrefetchSim.moveToHead i (t₂.sets (cfg.hash addr)).tags := by
        show (Function.update t₂.sets _ _ _).tags = _
        rw [Function.update_self]
      exact htags.trans (moveToHead_eq hvacant.mem)
    · rw [valid, setStatus, setTag_self]
      rfl

/-! ## The other calls -/

theorem Sound.hit (h : t.Sound cfg transit) {s i : Nat} (hhit : t.hit s i = some t') : t'.Sound cfg transit := by
  obtain ⟨t₁, hmove, hhit⟩ := Option.bind_eq_some_iff.1 hhit
  obtain ⟨hmem, rfl⟩ := moveToHead_eq_some.1 hmove
  obtain rfl := Option.some.inj hhit
  refine (h.setTags (moveToHead_perm hmem)).congr ⟨rfl, rfl, rfl, rfl⟩ ?_
  exact setTag_view rfl rfl rfl rfl

theorem Sound.setStatus (h : t.Sound cfg transit) (st : Status) {i : Nat} (hvalid : t.valid i = true) :
    (t.setStatus st i).Sound cfg transit := by
  refine h.congr ⟨rfl, rfl, rfl, rfl⟩ ?_
  exact setTag_view rfl hvalid.symm rfl rfl

/-- Only set 0 is searched with success, and as it has a chain its last tag is valid too: the
two tags change places. -/
theorem Sound.promote (h : t.Sound cfg transit) {addr : Addr} {i j : Nat}
    (hi : t.secondaryChain cfg (cfg.extractTag addr) (cfg.numTags + 1) (t.sets (cfg.hash addr)).chainPtr =
      some (some i))
    (hp : t.promote R (cfg.hash addr) (cfg.extractTag addr) i = some (t', j)) : t'.Sound cfg transit := by
  obtain ⟨loc, free, chain, hshape⟩ := h.shape
  have hs := cfg.hash_lt addr
  rw [secondaryChain_eq (Nat.lt_succ_of_le (hshape.chain_length hs)) (hshape.links _ hs)] at hi
  have hfound := Option.some.inj hi
  obtain ⟨htag, hivalid⟩ := matchesTag_eq_true.1 (List.find?_some hfound)
  have himem := List.mem_of_find?_eq_some hfound
  rw [h.zero i] at htag
  rw [IicConfig.hash_of_tag htag.symm] at himem hp
  obtain ⟨p, hlast, hp⟩ := Option.bind_eq_some_iff.1 hp
  obtain ⟨k, -, hp⟩ := Option.bind_eq_some_iff.1 hp
  obtain ⟨rfl, -⟩ := Prod.mk.inj (Option.some.inj hp)
  have hpmem : p ∈ (t.sets 0).tags := List.mem_of_getLast? hlast
  have hpvalid : t.valid p = true :=
    hshape.full (List.ne_nil_of_mem himem) p hpmem (Option.some_ne_none p)
  have hpprim := hshape.primary (hashSets_pos cfg) hpmem
  have hisec := ((hshape.mem_chain 0 (hashSets_pos cfg) i).1 himem).1
  let e : IicTag ρ := { t.tagStore p with chainPtr := (t.tagStore i).chainPtr }
  have hvalid₁ : (t.setTag p e).valid = t.valid :=
    (setTag_valid p e t).trans (Function.update_eq_self p t.valid)
  have hdata₁ : (t.setTag p e).dataOf = t.dataOf :=
    (setTag_dataOf p e t).trans (Function.update_eq_self p t.dataOf)
  have hvalid : ((t.setTag p e).tagSwap R i p).valid = t.valid := by
    funext k
    rw [tagSwap_valid, hvalid₁]
    by_cases hki : k = i
    · rw [hki, Equiv.swap_apply_left, hivalid, hpvalid]
    · by_cases hkp : k = p
      · rw [hkp, Equiv.swap_apply_right, hivalid, hpvalid]
      · rw [Equiv.swap_apply_of_ne_of_ne hki hkp]
  have hnext : ∀ k, cfg.Secondary k → ((t.setTag p e).tagSwap R i p).next cfg k = t.next cfg k := by
    intro k hk
    have hkp := secondary_ne hpprim hk
    rw [tagSwap_next, setTag_next]
    by_cases hki : k = i
    · rw [hki, Equiv.swap_apply_left, Function.update_self]
      rfl
    · rw [Equiv.swap_apply_of_ne_of_ne hki hkp, Function.update_of_ne hkp]
  have hrest := tagSwap_rest R i p (t.setTag p e)
  refine ⟨fun k => ?_, ⟨loc, free, chain, hshape.congr hrest.sets hrest.freelist hnext hvalid⟩, ?_⟩
  · rw [tagSwap_tag]
    exact @setTag_zero σ ρ t p e h.zero (h.zero p) _
  · rw [hrest.blkFreelist, hrest.dataReferenceCount]
    refine (h.data.swap hisec.2 (lt_numTags_of_primary hpprim)).congr (fun k _ => ?_) fun k _ _ => ?_
    · rw [tagSwap_valid, hvalid₁]
    · rw [tagSwap_dataOf, hdata₁]

theorem Sound.accessBlock (h : t.Sound cfg transit) {addr : Addr} (hacc : t.accessBlock cfg R addr = some t') :
    t'.Sound cfg transit := by
  rw [Iic.accessBlock] at hacc
  dsimp only at hacc
  split at hacc
  · exact h.hit hacc
  · obtain ⟨r, hchain, hacc⟩ := Option.bind_eq_some_iff.1 hacc
    cases r with
    | none =>
      obtain rfl := Option.some.inj hacc
      exact h
    | some i =>
      obtain ⟨⟨t₁, j⟩, hpromote, hacc⟩ := Option.bind_eq_some_iff.1 hacc
      exact (h.promote hchain hpromote).hit hacc

theorem Sound.invalidateBlk (h : t.Sound cfg transit) {i : Nat} (hlt : i < cfg.numTags) (hvalid : t.valid i = true)
    (hinv : t.invalidateBlk cfg R i = some t') : t'.Sound cfg transit := by
  obtain ⟨-, hnodup, hone⟩ := h.data.whole i hlt hvalid
  have hloop := @unreference_all σ ρ (fun t d => t.unreference d) (fun _ _ _ => rfl) _ hnodup t hone
  rw [Iic.invalidateBlk, hloop] at hinv
  -- the policy's entry goes between the two
  let t₁ : Iic σ ρ := { t with repl := R.removeEntry (t.tagStore i).re t.repl }
  have h₁ : t₁.Sound cfg transit := h.congr ⟨rfl, rfl, rfl, rfl⟩ fun _ => rfl
  exact (h₁.evict hlt hvalid hinv).1

theorem Sound.call (h : t.Sound cfg []) {c : Call} (hc : t.call cfg R c = some t') : t'.Sound cfg [] := by
  cases c with
  | access addr => exact h.accessBlock hc
  | fill addr =>
    obtain ⟨⟨t₁, i, ev⟩, hfill, rfl⟩ := Option.map_eq_some_iff.1 hc
    rcases fill_spec h addr with ⟨hnone, -⟩ | ⟨t₂, j, ev', rest, hsome, hsound, -⟩
    · rw [hnone] at hfill
      cases hfill
    · obtain ⟨rfl, -⟩ := Prod.mk.inj (Option.some.inj (hsome.symm.trans hfill))
      exact hsound
  | setStatus addr st =>
    obtain ⟨r, hfind, rfl⟩ := Option.map_eq_some_iff.1 hc
    cases r with
    | none => exact h
    | some i => exact h.setStatus st (h.of_findBlock hfind).2
  | invalidate addr =>
    obtain ⟨r, hfind, hc⟩ := Option.bind_eq_some_iff.1 hc
    cases r with
    | none =>
      obtain rfl := Option.some.inj hc
      exact h
    | some i =>
      obtain ⟨hlt, hvalid⟩ := h.of_findBlock hfind
      exact h.invalidateBlk hlt hvalid hc

/-! ## The first store -/

theorem freeLinks_range {next : Nat → Option Nat} {n a : Nat} (hnull : a + n = cfg.tagNull)
    (hnext : ∀ k, a ≤ k → next k = cfg.ptr (k + 1)) : InStack next (cfg.ptr a) (List.range' a n) := by
  induction n generalizing a with
  | zero => exact IicConfig.ptr_eq_none.2 hnull
  | succ n ih =>
    refine ⟨if_neg (by omega), ?_⟩
    rw [hnext a (Nat.le_refl a)]
    exact ih (by omega) fun k hk => hnext k (by omega)

theorem initial_sound (cfg : IicConfig) (r : σ) : (initial cfg r : Iic σ ρ).Sound cfg [] := by
  have hinvalid : ∀ k, (initial cfg r : Iic σ ρ).valid k = false := by
    intro k
    unfold valid initial
    dsimp only
    split <;> rfl
  refine ⟨fun k => ?_, ⟨fun _ => none, List.range' cfg.primaryBound (cfg.numSecondary - 1), fun _ => [], ?_⟩, ?_⟩
  · unfold initial
    dsimp only
    split <;> rfl
  · have hnull := cfg.tagNull_eq
    refine ⟨fun _ _ => List.Perm.refl _, freeLinks_range hnull.symm fun k hk => ?_, fun _ _ => ?_, fun i => ?_,
      fun _ _ _ => ?_, List.nodup_range', fun _ _ => List.nodup_nil, fun _ _ _ hloc => ?_, fun i _ => ?_,
      fun hne => absurd rfl hne⟩
    · unfold next initial
      dsimp only
      rw [if_neg (show ¬k < cfg.primaryBound from Nat.not_lt.2 hk)]
    · exact IicConfig.ptr_null
    · rw [List.mem_range'_1, ← hnull]
      simp [IicConfig.Secondary]
    · simp
    · cases hloc
    · simp [hinvalid i]
  · refine ⟨fun k _ hk => ?_, fun j _ _ _ _ hj => ?_, ?_, fun _ _ => rfl, ?_⟩
    · rw [hinvalid k] at hk
      cases hk
    · rw [hinvalid j] at hj
      cases hj
    · rw [List.append_nil]
      exact List.nodup_reverse.2 List.nodup_range
    · have hnone : ((Finset.range cfg.numTags).filter fun k => (initial cfg r : Iic σ ρ).valid k = true) = ∅ := by
        simp [hinvalid]
      rw [hnone]
      simp [initial]

theorem Reachable.sound (h : Reachable cfg R t) : t.Sound cfg [] := by
  obtain ⟨r, calls, hrun⟩ := h
  have hinv := @Runs.foldlM_invariant _ _ (fun t : Iic σ ρ => t.Sound cfg []) (Iic.call cfg R)
    fun _ _ _ h₀ hc => h₀.call hc
  exact hinv calls _ _ (initial_sound cfg r) hrun

/-! ## When a fill does what it has to do -/

/-- The policy's victim is valid, and it is in a set or not the last on its chain. -/
def Evictable (cfg : IicConfig) (R : Repl σ ρ) (t : Iic σ ρ) : Prop :=
  t.victim R < cfg.numTags ∧ t.valid (t.victim R) = true ∧
    (t.victim R < cfg.primaryBound ∨ (t.tagStore (t.victim R)).chainPtr ≠ cfg.tagNull)

/-- The last tag of a chain is looked for on the chain of set 0, and is not there if that is empty. -/
theorem Sound.evictable_iff (h : t.Sound cfg transit) (hchain : (t.sets 0).chainPtr = cfg.tagNull) :
    t.freeReplacementBlock cfg R ≠ none ↔ Evictable cfg R t := by
  have hzero : ∀ k, (((t.chosen R).released (t.dataOf (t.victim R))).tagStore k).tag = 0 :=
    (h.congr (chosen_rest R t) (chosen_view R t)).zero
  have hptr : (((t.chosen R).released (t.dataOf (t.victim R))).tagStore (t.victim R)).chainPtr =
      (t.tagStore (t.victim R)).chainPtr :=
    congrArg (fun v => v.2.2.1) (chosen_view R t (t.victim R))
  have hset : (((t.chosen R).released (t.dataOf (t.victim R))).sets 0).chainPtr = cfg.tagNull := hchain
  rw [h.freeReplacementBlock_eq, freeTag_eq hzero, hptr, if_pos hset]
  unfold Evictable
  by_cases hv : t.victim R < cfg.numTags ∧ t.valid (t.victim R) = true
  · rw [if_pos hv]
    by_cases hp : cfg.primaryBound ≤ t.victim R
    · rw [if_pos hp, if_pos (show t.victim R < cfg.tagNull from hv.1)]
      by_cases hnull : (t.tagStore (t.victim R)).chainPtr = cfg.tagNull
      · have hcut : (((t.chosen R).released (t.dataOf (t.victim R))).cleared (t.victim R)).cutChain cfg
            (t.victim R) 0 = none := by
          have hne : cfg.tagNull ≠ t.victim R := Ne.symm (Nat.ne_of_lt hv.1)
          have hset' : ((((t.chosen R).released (t.dataOf (t.victim R))).cleared (t.victim R)).sets 0).chainPtr =
            cfg.tagNull := hchain
          rw [cutChain, hset', if_neg hne, findPrev, if_pos rfl]
          rfl
        rw [if_pos hnull, hcut]
        simp [hnull, Nat.not_lt.2 hp]
      · rw [if_neg hnull]
        simp [hnull, hv]
    · rw [if_neg hp]
      simp [hv, Nat.lt_of_not_le hp]
  · rw [if_neg hv]
    constructor
    · exact fun hne => absurd rfl hne
    · exact fun hev => absurd ⟨hev.1, hev.2.1⟩ hv

/-- Free data blocks are enough. -/
theorem Sound.getData_of_le {n : Nat} {ds : List Nat} (h : t.Sound cfg ds) (hn : n ≤ t.blkFreelist.length)
    (ev : List (IicTag ρ)) : Iic.getData cfg R n t ds ev ≠ none := by
  induction n generalizing t ds with
  | zero => exact Option.some_ne_none _
  | succ n ih =>
    obtain ⟨d, rest, hfree⟩ : ∃ d rest, t.blkFreelist = d :: rest :=
      List.exists_cons_of_ne_nil fun hnil => by simp [hnil] at hn
    have hzero : t.dataReferenceCount d = 0 := by
      refine h.data.unheld d (List.mem_append_left _ ?_)
      rw [hfree]
      exact List.mem_cons_self ..
    have hrest : n ≤ rest.length := by
      rw [hfree, List.length_cons] at hn
      omega
    simp only [Iic.getData, Iic.getFreeDataBlock, hfree, Option.bind_eq_bind, Option.bind_some, hzero, assert]
    exact ih (h.take hfree) hrest

/-- With fewer there is one eviction, after which there are enough. -/
theorem Sound.getData_of_lt {n : Nat} {ds : List Nat} (h : t.Sound cfg ds) (hchain : (t.sets 0).chainPtr = cfg.tagNull)
    (hfew : t.blkFreelist.length < n) (hn : n ≤ cfg.numSub) (ev : List (IicTag ρ)) :
    Iic.getData cfg R n t ds ev ≠ none ↔ Evictable cfg R t := by
  induction n generalizing t ds with
  | zero => exact absurd hfew (Nat.not_lt_zero _)
  | succ n ih =>
    by_cases hnil : t.blkFreelist = []
    · rw [← h.evictable_iff hchain]
      cases hevict : t.freeReplacementBlock cfg R with
      | none => simp [Iic.getData, Iic.getFreeDataBlock, hnil, hevict]
      | some r =>
        obtain ⟨t₁, e⟩ := r
        obtain ⟨hsound, hlen⟩ := h.freeReplacementBlock hevict
        rw [hnil, List.length_nil, Nat.add_zero] at hlen
        -- the loop goes on as it would have started with the freed blocks
        have hpos : ∃ m, cfg.numTags = m + 1 := Nat.exists_eq_succ_of_ne_zero (Nat.ne_of_gt
          (lt_numTags_of_primary (Nat.mul_pos (hashSets_pos cfg) cfg.assoc_pos)))
        obtain ⟨m, hm⟩ := hpos
        have hloop : Iic.getData cfg R (n + 1) t ds ev = Iic.getData cfg R (n + 1) t₁ ds (ev ++ [e]) := by
          obtain ⟨d, rest, hfree⟩ : ∃ d rest, t₁.blkFreelist = d :: rest :=
            List.exists_cons_of_ne_nil fun hnil => by simp [hnil] at hlen; omega
          simp [Iic.getData, Iic.getFreeDataBlock, hnil, hevict, hm, hfree]
        rw [hloop]
        have hgot := @Sound.getData_of_le σ ρ cfg R t₁ (n + 1) ds hsound (by omega) (ev ++ [e])
        simp [hgot]
    · obtain ⟨d, rest, hfree⟩ := List.exists_cons_of_ne_nil hnil
      have hzero : t.dataReferenceCount d = 0 := by
        refine h.data.unheld d (List.mem_append_left _ ?_)
        rw [hfree]
        exact List.mem_cons_self ..
      have hrest : rest.length < n := by
        rw [hfree, List.length_cons] at hfew
        omega
      simp only [Iic.getData, Iic.getFreeDataBlock, hfree, Option.bind_eq_bind, Option.bind_some, hzero, assert]
      exact ih (h.take hfree) hchain hrest (by omega)

/-- A miss on the block with tag zero: set 0 has no chain. -/
theorem Sound.chain_of_miss (h : t.Sound cfg transit) {addr : Addr} (htag : cfg.extractTag addr = 0)
    (hmiss : t.findBlock cfg addr = some none) : (t.sets 0).chainPtr = cfg.tagNull := by
  obtain ⟨loc, free, chain, hshape⟩ := h.shape
  have hs := hashSets_pos cfg
  rw [hshape.findBlock, IicConfig.hash_of_tag htag, htag] at hmiss
  have hnone := List.find?_eq_none.1 (Option.some.inj hmiss)
  have hlinks := hshape.links 0 hs
  cases hc : chain 0 with
  | nil =>
    rw [hc] at hlinks
    exact IicConfig.ptr_eq_none.1 hlinks
  | cons x xs =>
    have hx : x ∈ chain 0 := by
      rw [hc]
      exact List.mem_cons_self ..
    obtain ⟨hsec, hloc⟩ := (hshape.mem_chain 0 hs x).1 hx
    have hvalid : t.valid x = true := (hshape.valid x hsec).2 (by rw [hloc]; exact Option.some_ne_none 0)
    exact absurd (matchesTag_eq_true.2 ⟨h.zero x, hvalid⟩) (hnone x (List.mem_append_right _ hx))

/-- Only the block with tag zero is found after its fill; and where data blocks are missing,
the eviction must not be of the last tag of a chain. -/
theorem filled_iff (h : Reachable cfg R t) {addr : Addr} (hmiss : t.findBlock cfg addr = some none) :
    Filled cfg R t addr ↔ cfg.extractTag addr = 0 ∧ (cfg.numSub ≤ t.blkFreelist.length ∨ Evictable cfg R t) := by
  have hsound := h.sound
  constructor
  · intro hfilled
    obtain ⟨t', i, ev, hfill, hfound, -⟩ := hfilled
    rcases fill_spec hsound addr with ⟨hnone, -⟩ | ⟨t₁, i₁, ev₁, rest, hsome, hsound', htags, hvalid, hget⟩
    · rw [hnone] at hfill
      cases hfill
    · obtain ⟨rfl, -⟩ := Prod.mk.inj (Option.some.inj (hsome.symm.trans hfill))
      have htag : cfg.extractTag addr = 0 := by
        by_contra hne
        have hno := hsound'.findBlock_of_ne hne
        rw [hfound addr rfl] at hno
        cases hno
      refine ⟨htag, ?_⟩
      by_cases hle : cfg.numSub ≤ t.blkFreelist.length
      · exact Or.inl hle
      · have hchain := hsound.chain_of_miss htag hmiss
        exact Or.inr ((hsound.getData_of_lt hchain (Nat.lt_of_not_le hle) (Nat.le_refl _) []).1 hget)
  · intro hcond
    obtain ⟨htag, hroom⟩ := hcond
    have hget : Iic.getData cfg R cfg.numSub t [] [] ≠ none := by
      by_cases hle : cfg.numSub ≤ t.blkFreelist.length
      · exact hsound.getData_of_le hle []
      · have hchain := hsound.chain_of_miss htag hmiss
        exact (hsound.getData_of_lt hchain (Nat.lt_of_not_le hle) (Nat.le_refl _) []).2 (hroom.resolve_left hle)
    rcases fill_spec hsound addr with ⟨-, hnone⟩ | ⟨t', i, ev, rest, hsome, hsound', htags, hvalid, -⟩
    · exact absurd hnone hget
    · refine ⟨t', i, ev, hsome, fun a ha => ?_, fun a ha => ?_⟩
      · obtain ⟨loc, free, chain, hshape⟩ := hsound'.shape
        rw [htag] at ha
        rw [IicConfig.hash_of_tag htag] at htags
        have hmatch : t'.matchesTag 0 i = true := matchesTag_eq_true.2 ⟨hsound'.zero i, hvalid⟩
        rw [hshape.findBlock, IicConfig.hash_of_tag ha, ha, htags, List.cons_append, List.find?_cons_of_pos hmatch]
      · rw [htag] at ha
        rw [hsound.findBlock_of_ne ha, hsound'.findBlock_of_ne ha]
        exact ⟨fun _ => rfl, fun _ _ => rfl⟩

end Iic

/-- After a fill of a block that is not in the store, the block is found, what it replaced is not
and nothing else has changed, exactly under these conditions. Of the fully associative store: it
is the block at address zero, and no other block is mapped to the frame at the tail. Of the
indirect-index store: the tag of the block is zero, and if data blocks are missing the policy's
victim can be freed. -/
theorem fill_iff_tag_zero (addr : Addr) :
    (∀ (cfg : FaConfig) (t : FaLru), FaLru.Reachable cfg t → t.findBlock cfg addr = none →
      (FaLru.Filled cfg t addr ↔
        cfg.blkAlign addr = 0 ∧ ∀ a, cfg.blkAlign a ≠ 0 → t.tagHash (cfg.blkAlign a) ≠ t.order.getLast?)) ∧
    ∀ (σ ρ : Type) (cfg : IicConfig) (R : Repl σ ρ) (t : Iic σ ρ), Iic.Reachable cfg R t →
      t.findBlock cfg addr = some none →
        (Iic.Filled cfg R t addr ↔
          cfg.extractTag addr = 0 ∧ (cfg.numSub ≤ t.blkFreelist.length ∨ Iic.Evictable cfg R t)) :=
  ⟨fun _ _ h _ => FaLru.filled_iff h addr, fun _ _ _ _ _ h hmiss => Iic.filled_iff h hmiss⟩

/-- Two sets of one tag, and two data blocks. -/
def smallIic : IicConfig where
  blkBits := 6
  setBits := 1
  hashShift := 1
  assoc := 1
  numSub := 1
  numBlocks := 2
  setBits_lt := by decide
  assoc_pos := by decide
  numSub_pos := by decide
  fits := by decide

/-- A policy that always names the tag 0. -/
def firstTag : Repl Unit Unit where
  getRepl r := (0, r)
  doAdvance r := r
  add _ r := ((), r)
  fixTag _ _ _ r := r
  removeEntry _ r := r

/-- The second block of an address space, filled into an empty store, is not found. -/
theorem fill_second_block_lost :
    (FaLru.Reachable twoFrames (FaLru.initial twoFrames) ∧
      (FaLru.initial twoFrames).findBlock twoFrames 0x10000 = none ∧
      ¬FaLru.Filled twoFrames (FaLru.initial twoFrames) 0x10000) ∧
    Iic.Reachable smallIic firstTag (Iic.initial smallIic ()) ∧
      (Iic.initial smallIic () : Iic Unit Unit).findBlock smallIic 64 = some none ∧
      ¬Iic.Filled smallIic firstTag (Iic.initial smallIic ()) 64 := by
  have hfa : FaLru.Reachable twoFrames (FaLru.initial twoFrames) := ⟨[], rfl⟩
  have hiic : Iic.Reachable smallIic firstTag (Iic.initial smallIic ()) := ⟨(), [], rfl⟩
  have hmiss : (Iic.initial smallIic () : Iic Unit Unit).findBlock smallIic 64 = some none := by decide
  refine ⟨⟨hfa, by decide, fun hfilled => ?_⟩, hiic, hmiss, fun hfilled => ?_⟩
  · exact absurd ((FaLru.filled_iff hfa _).1 hfilled).1 (by decide)
  · exact absurd ((Iic.filled_iff hiic hmiss).1 hfilled).1 (by decide)

/-- The second block has been filled into one of the two frames. -/
def oneFilled : FaLru := ((FaLru.initial twoFrames).call twoFrames (.fill 0x10000)).getD (.initial twoFrames)

def oneFilledIic : Iic Unit Unit :=
  ((Iic.initial smallIic ()).call smallIic firstTag (.fill 64)).getD (.initial smallIic ())

/-- The first block is found after its fill, also when another one has been filled before. -/
theorem fill_first_block_found :
    (FaLru.Reachable twoFrames oneFilled ∧ oneFilled.tagHash 0x10000 = some 1 ∧ FaLru.Filled twoFrames oneFilled 0) ∧
      Iic.Reachable smallIic firstTag oneFilledIic ∧ oneFilledIic.blkFreelist.length = 1 ∧
        Iic.Filled smallIic firstTag oneFilledIic 0 := by
  have hfa : FaLru.Reachable twoFrames oneFilled := ⟨[.fill 0x10000], rfl⟩
  have hiic : Iic.Reachable smallIic firstTag oneFilledIic := ⟨(), [.fill 64], rfl⟩
  refine ⟨⟨hfa, rfl, ?_⟩, hiic, rfl, ?_⟩
  · refine ((fill_iff_tag_zero 0).1 twoFrames _ hfa (by decide)).2 ⟨by decide, fun a _ => ?_⟩
    have hlast : oneFilled.order.getLast? = some 0 := by decide
    have hmap : oneFilled.tagHash = Function.update (Function.update (fun _ => none) 0 none) 0x10000 (some 1) := rfl
    rw [hlast, hmap, Function.update_apply]
    split
    · decide
    · simp
  · exact ((fill_iff_tag_zero 0).2 Unit Unit smallIic firstTag _ hiic (by decide)).2 ⟨by decide, Or.inl (by decide)⟩

end PrefetchSim
