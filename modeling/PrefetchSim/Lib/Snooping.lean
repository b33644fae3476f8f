import Mathlib.Logic.Basic

/- Coherence of copies that are kept by snooping.

   A line is one datum with its place in memory and the copies some parties hold of it. A copy
   may be writable, and it may be dirty: then its holder is the owner, who answers for memory.
   A line is coherent with the value last written if a writable copy is the only one, at most
   one copy is dirty, every copy has that value, and memory has it unless there is an owner.

   The moves are those of an invalidation protocol with an owner state: to get a copy to read,
   to get the only copy, to write to it, and to give a copy up. Each keeps coherence, with one
   exception. Who takes the only copy becomes the owner if someone else was. An owner who takes
   it, to write, is not made the owner again: until the write is done, memory may be behind
   with no owner to answer for it (`Coherent.take_iff`). -/
namespace Snooping

variable {ι ν : Type*}

structure Copy (ν : Type*) where
  value : ν
  writable : Bool
  dirty : Bool

structure Line (ι ν : Type*) where
  copies : ι → Option (Copy ν)
  memory : ν

namespace Line

variable (l : Line ι ν) (last : ν)

/-- The copies are as they should be, whatever memory holds. -/
structure Agreed : Prop where
  exclusive : ∀ i c, l.copies i = some c → c.writable = true → ∀ j, j ≠ i → l.copies j = none
  owner : ∀ i c j d, l.copies i = some c → l.copies j = some d → c.dirty = true → d.dirty = true → i = j
  current : ∀ i c, l.copies i = some c → c.value = last

structure Coherent : Prop extends Agreed l last where
  memory : (∀ i c, l.copies i = some c → c.dirty = false) → l.memory = last

/-- Another party than `i` owns the line. -/
def OwnedBeside (i : ι) : Prop := ∃ j, j ≠ i ∧ ∃ c, l.copies j = some c ∧ c.dirty = true

/-- What is supplied to `i`: the value of the owner, or else of memory. -/
def Supplied (i : ι) (v : ν) : Prop :=
  (∃ j, j ≠ i ∧ ∃ c, l.copies j = some c ∧ c.dirty = true ∧ v = c.value) ∨ ¬l.OwnedBeside i ∧ v = l.memory

/-! ## Moves -/

/-- `i`, without a copy, gets one to read; it is writable only if there is no other. -/
structure Reads (i : ι) (l l' : Line ι ν) : Prop where
  absent : l.copies i = none
  got : ∃ c, l'.copies i = some c ∧ l.Supplied i c.value ∧ c.dirty = false ∧
    (c.writable = true → ∀ j, j ≠ i → l.copies j = none)
  others : ∀ j, j ≠ i → l'.copies j = (l.copies j).map fun c => { c with writable := false }
  memory : l'.memory = l.memory

/-- `i` gets the only copy, and becomes the owner if another party was. -/
structure Takes (i : ι) (l l' : Line ι ν) : Prop where
  got : ∃ c, l'.copies i = some c ∧ c.writable = true ∧ (c.dirty = true ↔ l.OwnedBeside i) ∧
    ((∃ d, l.copies i = some d ∧ c.value = d.value) ∨ (l.copies i = none ∧ l.Supplied i c.value))
  others : ∀ j, j ≠ i → l'.copies j = none
  memory : l'.memory = l.memory

/-- `i` writes `v` to its copy. -/
structure Writes (i : ι) (v : ν) (l l' : Line ι ν) : Prop where
  wrote : ∃ c, l.copies i = some c ∧ c.writable = true ∧ l'.copies i = some { c with value := v, dirty := true }
  others : ∀ j, j ≠ i → l'.copies j = l.copies j
  memory : l'.memory = l.memory

/-- `i` gives its copy up, to memory if it is the owner. -/
structure Drops (i : ι) (l l' : Line ι ν) : Prop where
  had : ∃ c, l.copies i = some c ∧ l'.memory = if c.dirty then c.value else l.memory
  gone : l'.copies i = none
  others : ∀ j, j ≠ i → l'.copies j = l.copies j

/-- `i` comes to a copy with the rights it needs: it has one, or it gets one to read, or, if it
is to write, the only one. -/
inductive Gets (i : ι) : Bool → Line ι ν → Line ι ν → Prop where
  | held {excl : Bool} {l : Line ι ν} (c : Copy ν) (has : l.copies i = some c)
      (rights : excl = true → c.writable = true) : Gets i excl l l
  | reads {l l' : Line ι ν} (move : Reads i l l') : Gets i false l l'
  | takes {l l' : Line ι ν} (lacks : ∀ d, l.copies i = some d → d.writable = false) (move : Takes i l l') :
      Gets i true l l'

variable {l l' : Line ι ν} {last v : ν} {i : ι} {excl : Bool}

theorem Gets.rights (h : Gets i excl l l') {c : Copy ν} (hc : l'.copies i = some c) (hexcl : excl = true) :
    c.writable = true := by
  cases h with
  | held d has rights => exact Option.some.inj (has.symm.trans hc) ▸ rights hexcl
  | reads => cases hexcl
  | takes _ move =>
    obtain ⟨d, hd, hw, -⟩ := move.got
    exact Option.some.inj (hd.symm.trans hc) ▸ hw

/-- Who has no copy is supplied with the value last written. -/
theorem Coherent.supplied (h : l.Coherent last) (habsent : l.copies i = none) (hs : l.Supplied i v) : v = last := by
  rcases hs with ⟨j, -, c, hc, -, rfl⟩ | ⟨hfree, rfl⟩
  · exact h.current j c hc
  · apply h.memory
    intro j c hc
    cases hd : c.dirty with
    | false => rfl
    | true =>
      have hj : j ≠ i := by
        rintro rfl
        rw [habsent] at hc
        cases hc
      exact absurd ⟨j, hj, c, hc, hd⟩ hfree

theorem Coherent.read (h : l.Coherent last) (hr : Reads i l l') : l'.Coherent last := by
  obtain ⟨c, hc, hsupplied, hclean, hsole⟩ := hr.got
  -- a copy of another party is one of before, no longer writable
  have old : ∀ j d, j ≠ i → l'.copies j = some d →
      ∃ e, l.copies j = some e ∧ d = { e with writable := false } := by
    intro j d hj hd
    rw [hr.others j hj, Option.map_eq_some_iff] at hd
    obtain ⟨e, he, rfl⟩ := hd
    exact ⟨e, he, rfl⟩
  have own : ∀ d, l'.copies i = some d → d = c := fun d hd => Option.some.inj (hd.symm.trans hc)
  refine ⟨⟨?_, ?_, ?_⟩, ?_⟩
  · intro j d hd hw k hk
    by_cases hj : j = i
    · subst hj
      rw [own d hd] at hw
      rw [hr.others k hk, hsole hw k hk]
      rfl
    · obtain ⟨e, -, rfl⟩ := old j d hj hd
      cases hw
  · intro j d k e hd he hdd hde
    by_cases hj : j = i
    · subst hj
      rw [own d hd, hclean] at hdd
      cases hdd
    · by_cases hk : k = i
      · subst hk
        rw [own e he, hclean] at hde
        cases hde
      · obtain ⟨d', hd', rfl⟩ := old j d hj hd
        obtain ⟨e', he', rfl⟩ := old k e hk he
        exact h.owner j d' k e' hd' he' hdd hde
  · intro j d hd
    by_cases hj : j = i
    · subst hj
      rw [own d hd]
      exact h.supplied hr.absent hsupplied
    · obtain ⟨e, he, rfl⟩ := old j d hj hd
      exact h.current j e he
  · intro hnone
    rw [hr.memory]
    apply h.memory
    intro j d hd
    have hj : j ≠ i := by
      rintro rfl
      rw [hr.absent] at hd
      cases hd
    exact hnone j { d with writable := false } (by rw [hr.others j hj, hd]; rfl)

theorem Coherent.take (h : l.Coherent last) (ht : Takes i l l') : l'.Agreed last := by
  obtain ⟨c, hc, -, -, hvalue⟩ := ht.got
  have sole : ∀ j d, l'.copies j = some d → j = i ∧ d = c := by
    intro j d hd
    by_cases hj : j = i
    · subst hj
      exact ⟨rfl, Option.some.inj (hd.symm.trans hc)⟩
    · rw [ht.others j hj] at hd
      cases hd
  refine ⟨?_, ?_, ?_⟩
  · intro j d hd _ k hk
    exact ht.others k fun hki => hk (hki.trans (sole j d hd).1.symm)
  · intro j d k e hd he _ _
    exact (sole j d hd).1.trans (sole k e he).1.symm
  · intro j d hd
    rw [(sole j d hd).2]
    rcases hvalue with ⟨e, he, hv⟩ | ⟨habsent, hs⟩
    · rw [hv]
      exact h.current i e he
    · exact h.supplied habsent hs

/-- Taking the only copy loses the owner exactly if that was the party itself. -/
theorem Coherent.take_iff (h : l.Coherent last) (ht : Takes i l l') :
    l'.Coherent last ↔ ∀ d, l.copies i = some d → d.dirty = true → l.memory = last := by
  obtain ⟨c, hc, -, hdirty, -⟩ := ht.got
  constructor
  · intro h' d hd hown
    rw [← ht.memory]
    apply h'.memory
    intro j e he
    cases hde : e.dirty with
    | false => rfl
    | true =>
      by_cases hj : j = i
      · subst hj
        obtain rfl := Option.some.inj (he.symm.trans hc)
        obtain ⟨k, hk, f, hf, hdf⟩ := hdirty.1 hde
        exact absurd (h.owner k f j d hf hd hdf hown) hk
      · rw [ht.others j hj] at he
        cases he
  · intro hback
    refine ⟨h.take ht, ?_⟩
    intro hnone
    rw [ht.memory]
    have hfree : ¬l.OwnedBeside i := fun hbeside => by
      have := hdirty.2 hbeside
      rw [hnone i c hc] at this
      cases this
    by_cases hown : ∃ d, l.copies i = some d ∧ d.dirty = true
    · obtain ⟨d, hd, hdd⟩ := hown
      exact hback d hd hdd
    · apply h.memory
      intro j d hd
      cases hdd : d.dirty with
      | false => rfl
      | true =>
        by_cases hj : j = i
        · subst hj
          exact absurd ⟨d, hd, hdd⟩ hown
        · exact absurd ⟨j, hj, d, hd, hdd⟩ hfree

theorem Coherent.get (h : l.Coherent last) (hg : Gets i excl l l') : l'.Agreed last := by
  cases hg with
  | held => exact h.toAgreed
  | reads move => exact (h.read move).toAgreed
  | takes _ move => exact h.take move

theorem Coherent.get_iff (h : l.Coherent last) (hg : Gets i excl l l') :
    l'.Coherent last ↔
      (excl = true → ∀ d, l.copies i = some d → d.writable = false → d.dirty = true → l.memory = last) := by
  cases hg with
  | held c has rights =>
    refine ⟨fun _ hexcl d hd hlacks => ?_, fun _ => h⟩
    rw [← Option.some.inj (has.symm.trans hd), rights hexcl] at hlacks
    cases hlacks
  | reads move => exact ⟨nofun, fun _ => h.read move⟩
  | takes lacks move =>
    rw [h.take_iff move]
    exact ⟨fun hback _ d hd _ => hback d hd, fun hback d hd => hback rfl d hd (lacks d hd)⟩

/-- A write to the only copy makes its holder the owner. -/
theorem Agreed.write (h : l.Agreed last) (hw : Writes i v l l') : l'.Coherent v := by
  obtain ⟨c, hc, hwritable, hc'⟩ := hw.wrote
  have sole : ∀ j d, l'.copies j = some d → j = i ∧ d = { c with value := v, dirty := true } := by
    intro j d hd
    by_cases hj : j = i
    · subst hj
      exact ⟨rfl, Option.some.inj (hd.symm.trans hc')⟩
    · rw [hw.others j hj, h.exclusive i c hc hwritable j hj] at hd
      cases hd
  refine ⟨⟨?_, ?_, ?_⟩, ?_⟩
  · intro j d hd _ k hk
    have hki : k ≠ i := fun e => hk (e.trans (sole j d hd).1.symm)
    rw [hw.others k hki]
    exact h.exclusive i c hc hwritable k hki
  · intro j d k e hd he _ _
    exact (sole j d hd).1.trans (sole k e he).1.symm
  · intro j d hd
    rw [(sole j d hd).2]
  · intro hnone
    cases hnone i _ hc'

theorem Coherent.drop (h : l.Coherent last) (hd : Drops i l l') : l'.Coherent last := by
  obtain ⟨c, hc, hmemory⟩ := hd.had
  have old : ∀ j d, l'.copies j = some d → j ≠ i ∧ l.copies j = some d := by
    intro j d hjd
    have hj : j ≠ i := by
      rintro rfl
      rw [hd.gone] at hjd
      cases hjd
    exact ⟨hj, by rw [← hd.others j hj]; exact hjd⟩
  refine ⟨⟨?_, ?_, ?_⟩, ?_⟩
  · intro j d hjd hw k hk
    have hnone := h.exclusive j d (old j d hjd).2 hw k hk
    by_cases hki : k = i
    · rw [hki]
      exact hd.gone
    · rw [hd.others k hki]
      exact hnone
  · intro j d k e hjd hke
    exact h.owner j d k e (old j d hjd).2 (old k e hke).2
  · intro j d hjd
    exact h.current j d (old j d hjd).2
  · intro hnone
    rw [hmemory]
    split
    · exact h.current i c hc
    · rename_i hclean
      apply h.memory
      intro j d hjd
      by_cases hj : j = i
      · subst hj
        obtain rfl := Option.some.inj (hjd.symm.trans hc)
        simpa using hclean
      · exact hnone j d (by rw [hd.others j hj]; exact hjd)

end Line
end Snooping
