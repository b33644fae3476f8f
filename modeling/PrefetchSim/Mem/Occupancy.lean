import PrefetchSim.Lib.Tally
import PrefetchSim.Mem.Refused

/- The two statistics of the LRU store, `tagsInUse` and `occupancies`.

   A frame is counted when a block is inserted into it. It is taken out of `occupancies` when it
   is chosen as the victim, and out of both when it is invalidated. Neither is tied to the frame
   being given up: `findVictim` has counted the victim out when the allocation is refused and the
   block stays, and `invalidateBlk` counts down whatever it is called for, be it the temporary
   block, which is no frame, or a block that is invalid already.

   `Counted` is the invariant, two exact tallies over the frames; `Drifted` says that the
   occupancies are short, which no later invalidation makes good. For each operation of the store
   it is said here which of the two it leaves. -/
namespace PrefetchSim

namespace Tags

variable {g : Geometry} {t t' t'' : Tags} {ptr : BlkPtr}

/-! ## What is counted -/

/-- The frames of the store; the temporary block is none of them. -/
def frames (g : Geometry) : Finset BlkPtr :=
  (Finset.range g.numSets ×ˢ Finset.range g.assoc).image fun p => .frame p.1 p.2

/-- `tagsInUse` counts the frames that have been touched. -/
def inUse (t : Tags) (p : BlkPtr) : Option Unit := if (t.blks p).isTouched then some () else none

/-- `occupancies` counts a valid frame in the bucket of its source. -/
def occupant (g : Geometry) (t : Tags) (p : BlkPtr) : Option Nat :=
  if (t.blks p).isValid then some (bucket g (t.blks p).contextSrc) else none

/-- The accounting is exact. -/
structure Accounted (g : Geometry) (t : Tags) : Prop where
  inUse : t.tagsInUse = ((frames g).filter fun p => (t.blks p).isTouched).card
  total : ∑ b ∈ Finset.range (g.numCpus + 1), t.occupancies b = ((frames g).filter fun p => (t.blks p).isValid).card
  buckets : ∀ b ≤ g.numCpus, t.occupancies b =
    ((frames g).filter fun p => (t.blks p).isValid = true ∧ bucket g (t.blks p).contextSrc = b).card

instance (g : Geometry) (t : Tags) : Decidable (t.Accounted g) :=
  decidable_of_iff (t.tagsInUse = ((frames g).filter fun p => (t.blks p).isTouched).card ∧
    ∑ b ∈ Finset.range (g.numCpus + 1), t.occupancies b = ((frames g).filter fun p => (t.blks p).isValid).card ∧
    ∀ b ≤ g.numCpus, t.occupancies b =
      ((frames g).filter fun p => (t.blks p).isValid = true ∧ bucket g (t.blks p).contextSrc = b).card)
    ⟨fun h => ⟨h.1, h.2.1, h.2.2⟩, fun h => ⟨h.inUse, h.total, h.buckets⟩⟩

/-- The invariant behind it: the frames that are touched are the valid ones, and a set orders all
its ways, so that whatever is looked up or given up is one of the frames. -/
structure Counted (g : Geometry) (t : Tags) : Prop where
  perm : ∀ set, (t.ways set).Perm (List.range g.assoc)
  touched : ∀ p ∈ frames g, (t.blks p).isTouched = (t.blks p).isValid
  inUse : Tally.Exact (frames g) t.inUse fun _ => t.tagsInUse
  occupied : Tally.Exact (frames g) (t.occupant g) t.occupancies

/-- The occupancies say less than there is. -/
def Drifted (g : Geometry) (t : Tags) : Prop :=
  Tally.Short (frames g) (Finset.range (g.numCpus + 1)) (t.occupant g) t.occupancies

@[simp] theorem mem_frames {set w : Nat} : BlkPtr.frame set w ∈ frames g ↔ set < g.numSets ∧ w < g.assoc := by
  simp [frames]

theorem temp_notMem_frames : BlkPtr.temp ∉ frames g := by simp [frames]

theorem placed_occupant : Tally.placed (frames g) (t.occupant g) = (frames g).filter fun p => (t.blks p).isValid := by
  apply Finset.filter_congr
  intro p _
  unfold occupant
  split <;> simp_all

theorem bucket_mem (hcpus : 0 < g.numCpus) (src : Option Nat) : bucket g src ∈ Finset.range (g.numCpus + 1) := by
  rw [Finset.mem_range, Nat.lt_succ_iff]
  cases src with
  | none => exact Nat.le_refl _
  | some c => exact (Nat.mod_lt c hcpus).le

theorem occupant_mem (hcpus : 0 < g.numCpus) : ∀ p ∈ frames g, ∀ b, t.occupant g p = some b →
    b ∈ Finset.range (g.numCpus + 1) := by
  intro p _ b hb
  unfold occupant at hb
  split at hb
  · rw [← Option.some.inj hb]
    exact bucket_mem hcpus _
  · cases hb

theorem Counted.accounted (hcpus : 0 < g.numCpus) (h : t.Counted g) : t.Accounted g where
  inUse := by
    refine (h.inUse ()).trans ?_
    rw [Tally.members]
    congr 2
    apply Finset.filter_congr
    intro p _
    unfold Tags.inUse
    split <;> simp_all
  total := by rw [h.occupied.sum (occupant_mem hcpus), placed_occupant]
  buckets b _ := by
    rw [h.occupied b, Tally.members]
    congr 2
    apply Finset.filter_congr
    intro p _
    unfold occupant
    split <;> simp_all

theorem Drifted.not_accounted (h : t.Drifted g) : ¬ t.Accounted g := by
  intro ha
  have htotal := ha.total
  rw [← placed_occupant] at htotal
  exact absurd htotal h.ne

theorem initial_counted (g : Geometry) : (initial g).Counted g where
  perm _ := List.Perm.refl _
  touched p _ := by cases p <;> rfl
  inUse _ := by
    have hnone : Tally.members (frames g) (initial g).inUse () = ∅ := by
      apply Finset.filter_false_of_mem
      rintro (_ | _) _ <;> simp [Tags.inUse, initial]
    rw [hnone, Finset.card_empty]
    rfl
  occupied b := by
    have hnone : Tally.members (frames g) ((initial g).occupant g) b = ∅ := by
      apply Finset.filter_false_of_mem
      rintro (_ | _) _ <;> simp [occupant, initial, CacheBlk.isValid]
    rw [hnone, Finset.card_empty]
    rfl

/-! ## What does not count -/

/-- Nothing has changed that is counted or that counts. -/
structure Still (g : Geometry) (t t' : Tags) : Prop where
  ways : ∀ i, (t'.ways i).Perm (t.ways i)
  touched : ∀ p ∈ frames g, (t'.blks p).isTouched = (t.blks p).isTouched
  valid : ∀ p ∈ frames g, (t'.blks p).isValid = (t.blks p).isValid
  source : ∀ p ∈ frames g, (t'.blks p).contextSrc = (t.blks p).contextSrc
  tagsInUse : t'.tagsInUse = t.tagsInUse
  occupancies : t'.occupancies = t.occupancies

theorem Still.refl (g : Geometry) (t : Tags) : Still g t t :=
  ⟨fun _ => .refl _, fun _ _ => rfl, fun _ _ => rfl, fun _ _ => rfl, rfl, rfl⟩

theorem Still.occupant (h : Still g t t') : ∀ p ∈ frames g, t'.occupant g p = t.occupant g p := by
  intro p hp
  rw [Tags.occupant, h.valid p hp, h.source p hp, Tags.occupant]

theorem Still.counted (h : Still g t t') (ht : t.Counted g) : t'.Counted g where
  perm i := (h.ways i).trans (ht.perm i)
  touched p hp := by rw [h.touched p hp, h.valid p hp, ht.touched p hp]
  inUse := by
    rw [h.tagsInUse]
    apply ht.inUse.congr
    intro p hp
    rw [Tags.inUse, h.touched p hp, Tags.inUse]
  occupied := by
    rw [h.occupancies]
    exact ht.occupied.congr h.occupant

theorem Still.drifted (h : Still g t t') (ht : t.Drifted g) : t'.Drifted g := by
  rw [Drifted, h.occupancies]
  exact ht.congr h.occupant

/-- A write to a block, or any write to the temporary one. -/
theorem still_modify {f : CacheBlk → CacheBlk} (hf : ptr ∈ frames g →
    (f (t.blks ptr)).isTouched = (t.blks ptr).isTouched ∧ (f (t.blks ptr)).isValid = (t.blks ptr).isValid ∧
      (f (t.blks ptr)).contextSrc = (t.blks ptr).contextSrc) : Still g t (t.modify ptr f) := by
  have hcases : ∀ p ∈ frames g, (t.modify ptr f).blks p = t.blks p ∨
      p = ptr ∧ (t.modify ptr f).blks p = f (t.blks p) := by
    intro p _
    by_cases h : p = ptr
    · subst h
      exact .inr ⟨rfl, modify_self ..⟩
    · exact .inl (modify_of_ne t h f)
  refine ⟨fun _ => .refl _, ?_, ?_, ?_, rfl, rfl⟩
  all_goals
    intro p hp
    rcases hcases p hp with h | ⟨rfl, h⟩
    · rw [h]
    · rw [h]
      simp only [hf hp]

theorem Plain.still {f : CacheBlk → CacheBlk} (hf : Plain f) (g : Geometry) (t : Tags) (ptr : BlkPtr) :
    Still g t (t.modify ptr f) :=
  still_modify fun _ => ⟨hf.touched _, hf.valid _, hf.source _⟩

/-- What is found is a valid frame. -/
theorem Counted.found (h : t.Counted g) {addr : Addr} (hfind : t.findBlock g addr = some ptr) :
    ptr ∈ frames g ∧ (t.blks ptr).isValid = true := by
  obtain ⟨w, hw, rfl, hh⟩ := mem_of_findBlk hfind
  rw [holds, Bool.and_eq_true] at hh
  rw [(h.perm _).mem_iff, List.mem_range] at hw
  exact ⟨mem_frames.2 ⟨g.extractSet_lt addr, hw⟩, hh.2⟩

theorem still_temp (g : Geometry) (t : Tags) (f : CacheBlk → CacheBlk) : Still g t (t.modify .temp f) :=
  still_modify fun hp => absurd hp temp_notMem_frames

theorem still_accessBlock (g : Geometry) (t : Tags) (now : Tick) (addr : Addr) :
    Still g t (t.accessBlock g now addr).1 := by
  unfold accessBlock
  split
  · exact .refl g t
  · rename_i ptr hfind
    obtain ⟨w, hw, rfl, -⟩ := mem_of_findBlk hfind
    have hmodify : Still g (t.promote (.frame (g.extractSet addr) w)) ((t.promote (.frame (g.extractSet addr) w)).modify
        (.frame (g.extractSet addr) w) fun b => { b with refCount := b.refCount + 1 }) :=
      still_modify fun _ => ⟨rfl, rfl, rfl⟩
    have hp : ∀ set v, BlkPtr.frame (g.extractSet addr) w = .frame set v → v ∈ t.ways set := by
      rintro _ _ ⟨⟩
      exact hw
    exact ⟨fun i => promote_perm hp i, hmodify.touched, hmodify.valid, hmodify.source, rfl, rfl⟩

/-! ## Invalidation -/

theorem occupant_update {b : CacheBlk} (h : t'.blks = Function.update t.blks ptr b) : t'.occupant g =
    Function.update (t.occupant g) ptr (if b.isValid then some (bucket g b.contextSrc) else none) := by
  funext p
  by_cases hp : p = ptr
  · subst hp
    simp [occupant, h]
  · simp [occupant, h, hp]

theorem inUse_update {b : CacheBlk} (h : t'.blks = Function.update t.blks ptr b) : t'.inUse =
    Function.update t.inUse ptr (if b.isTouched then some () else none) := by
  funext p
  by_cases hp : p = ptr
  · subst hp
    simp [Tags.inUse, h]
  · simp [Tags.inUse, h, hp]

theorem occupant_invalidateBlk (g : Geometry) (t : Tags) (ptr : BlkPtr) :
    (t.invalidateBlk g ptr).occupant g = Function.update (t.occupant g) ptr none :=
  occupant_update (invalidateBlk_blks g t ptr)

theorem Counted.invalidateBlk (h : t.Counted g) (hp : ptr ∈ frames g) (hvalid : (t.blks ptr).isValid = true) :
    (t.invalidateBlk g ptr).Counted g where
  perm := h.perm
  touched p hp' := by
    rw [invalidateBlk_blks]
    by_cases hne : p = ptr
    · simp [hne, CacheBlk.isValid]
    · simpa [hne] using h.touched p hp'
  inUse := by
    have hin : t.inUse ptr = some () := by rw [Tags.inUse, h.touched ptr hp, hvalid, if_pos rfl]
    have hleave := h.inUse.leave hp hin
    rw [Tally.bump_unit] at hleave
    rw [inUse_update (invalidateBlk_blks g t ptr)]
    exact hleave
  occupied := by
    have hocc : t.occupant g ptr = some (bucket g (t.blks ptr).contextSrc) := by rw [occupant, if_pos hvalid]
    rw [occupant_invalidateBlk]
    exact h.occupied.leave hp hocc

/-- A block that is invalid is counted down once more. -/
theorem Counted.invalidate_invalid (hcpus : 0 < g.numCpus) (h : t.Counted g) (hvalid : (t.blks ptr).isValid = false) :
    (t.invalidateBlk g ptr).Drifted g := by
  refine h.occupied.short (occupant_mem hcpus) ?_ (bucket_mem hcpus _)
  intro p _
  rw [occupant_invalidateBlk]
  by_cases hp : p = ptr
  · simp [hp, occupant, hvalid]
  · rw [Function.update_of_ne hp]

theorem Drifted.invalidateBlk (hcpus : 0 < g.numCpus) (h : t.Drifted g) (ptr : BlkPtr) :
    (t.invalidateBlk g ptr).Drifted g := by
  refine Tally.Short.down h ptr ?_ (bucket_mem hcpus _)
  intro p _ hp
  rw [occupant_invalidateBlk, Function.update_of_ne hp]

/-! ## Allocation -/

theorem Counted.leastRecent_mem (h : t.Counted g) (addr : Addr) : t.leastRecent g addr ∈ frames g := by
  have hlength := (h.perm (g.extractSet addr)).length_eq
  have hne : t.ways (g.extractSet addr) ≠ [] := by
    intro hnil
    rw [hnil, List.length_nil, List.length_range] at hlength
    exact absurd hlength g.assoc_pos.ne
  have hlast := List.getLast_mem hne
  rw [(h.perm _).mem_iff, List.mem_range] at hlast
  rw [leastRecent, List.getLast?_eq_some_getLast hne]
  exact mem_frames.2 ⟨g.extractSet_lt addr, hlast⟩

theorem findVictim_of_valid {addr : Addr} (hvalid : (t.blks (t.leastRecent g addr)).isValid = true) :
    t.findVictim g addr = ((occupy g t (t.blks (t.leastRecent g addr)).contextSrc (-1)).modify
      (t.leastRecent g addr) fun b => { b with refCount := 0, contextSrc := none }, t.leastRecent g addr) :=
  if_pos hvalid

/-- A victim that is counted out and stays. -/
theorem Counted.refused (hcpus : 0 < g.numCpus) (h : t.Counted g) {addr : Addr}
    (hvalid : (t.blks (t.leastRecent g addr)).isValid = true) : (t.findVictim g addr).1.Drifted g := by
  rw [findVictim_of_valid hvalid]
  refine h.occupied.short (occupant_mem hcpus) ?_ (bucket_mem hcpus _)
  intro p _
  have hblks : ((occupy g t (t.blks (t.leastRecent g addr)).contextSrc (-1)).modify
      (t.leastRecent g addr) fun b => { b with refCount := 0, contextSrc := none }).blks =
        Function.update t.blks (t.leastRecent g addr)
          { t.blks (t.leastRecent g addr) with refCount := 0, contextSrc := none } := rfl
  rw [occupant_update hblks]
  by_cases hp : p = t.leastRecent g addr
  · subst hp
    have hvalid' : (t.blks (t.leastRecent g addr)).status.valid = true := hvalid
    simp [occupant, CacheBlk.isValid, hvalid']
  · rw [Function.update_of_ne hp]

/-- A frame has been counted out, and nothing else is different. -/
structure Vacated (g : Geometry) (t t' : Tags) (ptr : BlkPtr) : Prop where
  ways : t'.ways = t.ways
  other : ∀ p, p ≠ ptr → t'.blks p = t.blks p
  touched : (t'.blks ptr).isTouched = (t.blks ptr).isTouched
  tagsInUse : t'.tagsInUse = t.tagsInUse
  occupied : Tally.Exact (frames g) (Function.update (t.occupant g) ptr none) t'.occupancies

theorem Vacated.modify (h : Vacated g t t' ptr) {f : CacheBlk → CacheBlk}
    (hf : (f (t'.blks ptr)).isTouched = (t'.blks ptr).isTouched) : Vacated g t (t'.modify ptr f) ptr where
  ways := h.ways
  other p hp := (modify_of_ne t' hp f).trans (h.other p hp)
  touched := by rw [modify_self, hf, h.touched]
  tagsInUse := h.tagsInUse
  occupied := h.occupied

theorem Counted.findVictim (h : t.Counted g) (addr : Addr) :
    Vacated g t (t.findVictim g addr).1 (t.leastRecent g addr) := by
  by_cases hvalid : (t.blks (t.leastRecent g addr)).isValid = true
  · have hocc : t.occupant g (t.leastRecent g addr) = some (bucket g (t.blks (t.leastRecent g addr)).contextSrc) := by
      rw [occupant, if_pos hvalid]
    have hout : Vacated g t (occupy g t (t.blks (t.leastRecent g addr)).contextSrc (-1)) (t.leastRecent g addr) :=
      ⟨rfl, fun _ _ => rfl, rfl, rfl, h.occupied.leave (h.leastRecent_mem addr) hocc⟩
    rw [findVictim_of_valid hvalid]
    dsimp only
    apply hout.modify
    rfl
  · have hocc : t.occupant g (t.leastRecent g addr) = none := by rw [occupant, if_neg hvalid]
    have hsame : t.findVictim g addr = (t, t.leastRecent g addr) := if_neg hvalid
    rw [hsame]
    refine ⟨rfl, fun _ _ => rfl, rfl, rfl, ?_⟩
    rw [Function.update_eq_self_iff.2 hocc.symm]
    exact h.occupied

theorem Counted.allocateBlock (h : t.Counted g) {q : MshrQueue} {addr : Addr} (hidle : ¬ t.VictimBusy g q addr)
    (now : Tick) : ∃ t' wbs, PrefetchSim.allocateBlock g t q now addr = (t', some (t.leastRecent g addr), wbs) ∧
      Vacated g t t' (t.leastRecent g addr) := by
  obtain ⟨hptr, hvalid, htag, hset, -⟩ := t.findVictim_spec g addr
  have hout := h.findVictim addr
  unfold PrefetchSim.allocateBlock
  generalize t.findVictim g addr = v at hptr hvalid htag hset hout ⊢
  obtain ⟨t₁, ptr⟩ := v
  dsimp only at hptr hvalid htag hset hout ⊢
  subst hptr
  split
  · rename_i hv
    have hfree : ¬ (q.findMatch (g.regenerateBlkAddr (t₁.blks (t.leastRecent g addr)).tag
        (t₁.blks (t.leastRecent g addr)).set)).isSome = true := by
      rw [htag, hset]
      exact fun hm => hidle ⟨hvalid ▸ hv, hm⟩
    rw [if_neg hfree]
    split
    · refine ⟨_, _, rfl, ?_⟩
      dsimp only [writebackBlk]
      apply hout.modify
      rfl
    · exact ⟨t₁, [], rfl, hout⟩
  · exact ⟨t₁, [], rfl, hout⟩

theorem insertBlock_counts (g : Geometry) (t : Tags) (addr : Addr) (ptr : BlkPtr) (src : Option Nat) :
    (t.insertBlock g addr ptr src).occupancies = Tally.bump t.occupancies (bucket g src) 1 ∧
      (t.insertBlock g addr ptr src).tagsInUse = if (t.blks ptr).isTouched then t.tagsInUse else t.tagsInUse + 1 := by
  unfold insertBlock
  cases ptr <;> dsimp only <;> split <;> exact ⟨rfl, rfl⟩

/-- A block is put into the frame that was counted out, and is made valid. -/
theorem Vacated.insert (hout : Vacated g t t' ptr) (h : t.Counted g) (hp : ptr ∈ frames g) (addr : Addr)
    (src : Option Nat) {f : CacheBlk → CacheBlk} (htouched : ∀ b, (f b).isTouched = b.isTouched)
    (hsource : ∀ b, (f b).contextSrc = b.contextSrc) (hvalid : ∀ b, (f b).isValid = true) :
    ((t'.insertBlock g addr ptr src).modify ptr f).Counted g := by
  obtain ⟨hocc, hin⟩ := insertBlock_counts g t' addr ptr src
  obtain ⟨b, hb, hbt, hbs, hbv⟩ : ∃ b, ((t'.insertBlock g addr ptr src).modify ptr f).blks =
      Function.update t.blks ptr b ∧ b.isTouched = true ∧ b.contextSrc = src ∧ b.isValid = true := by
    refine ⟨f ((t'.insertBlock g addr ptr src).blks ptr), ?_, ?_, ?_, hvalid _⟩
    · funext p
      by_cases hne : p = ptr
      · subst hne
        rw [modify_self, Function.update_self]
      · rw [modify_of_ne _ hne, insertBlock_blks, Function.update_of_ne hne, Function.update_of_ne hne,
          hout.other p hne]
    · rw [htouched, insertBlock_blks, Function.update_self]
    · rw [hsource, insertBlock_blks, Function.update_self]
  refine ⟨?_, ?_, ?_, ?_⟩
  · intro i
    refine List.Perm.trans ?_ (h.perm i)
    rw [← hout.ways]
    have hways : (t'.insertBlock g addr ptr src).ways = (t'.promote ptr).ways := by
      unfold insertBlock
      cases ptr <;> dsimp only <;> split <;> rfl
    rw [modify_ways, hways]
    apply promote_perm
    rintro set w rfl
    rw [hout.ways, (h.perm set).mem_iff, List.mem_range]
    exact (mem_frames.1 hp).2
  · intro p hp'
    rw [hb]
    by_cases hne : p = ptr
    · subst hne
      rw [Function.update_self, hbt, hbv]
    · rw [Function.update_of_ne hne]
      exact h.touched p hp'
  · rw [inUse_update hb, hbt, if_pos rfl]
    change Tally.Exact _ _ fun _ => (t'.insertBlock g addr ptr src).tagsInUse
    rw [hin, hout.touched, hout.tagsInUse]
    split
    · rename_i htouch
      rw [Function.update_eq_self_iff.2 (by rw [Tags.inUse, if_pos htouch])]
      exact h.inUse
    · rename_i htouch
      have henter := h.inUse.enter hp (by rw [Tags.inUse, if_neg htouch]) ()
      rwa [Tally.bump_unit] at henter
  · rw [occupant_update hb, hbv, if_pos rfl, hbs]
    change Tally.Exact _ _ (t'.insertBlock g addr ptr src).occupancies
    rw [hocc]
    have henter := hout.occupied.enter hp (Function.update_self ..) (bucket g src)
    rwa [Function.update_idem] at henter

/-! ## Requests, fills and snoops -/

theorem plain_status (f : Status → Status) (hf : ∀ st, (f st).valid = st.valid) :
    Plain fun b => { b with status := f b.status } :=
  ⟨fun _ => rfl, fun _ => rfl, fun b => hf b.status, fun _ => rfl, fun _ => rfl⟩

theorem plain_writeback (pkt : Packet) :
    Plain fun b => { b with data := pkt.data, status := { b.status with dirty := true } } :=
  ⟨fun _ => rfl, fun _ => rfl, fun _ => rfl, fun _ => rfl, fun _ => rfl⟩

theorem plain_id : Plain id := ⟨fun _ => rfl, fun _ => rfl, fun _ => rfl, fun _ => rfl, fun _ => rfl⟩

/-- A plain write to a valid frame, which may then be invalidated. -/
theorem Counted.write (h : t.Counted g) (hp : ptr ∈ frames g) (hvalid : (t.blks ptr).isValid = true)
    {f : CacheBlk → CacheBlk} (hf : Plain f) (gone : Bool) :
    (if gone then (t.modify ptr f).invalidateBlk g ptr else t.modify ptr f).Counted g := by
  have hmodify := (hf.still g t ptr).counted h
  cases gone with
  | false => exact hmodify
  | true => exact hmodify.invalidateBlk hp (by rw [modify_self, hf.valid, hvalid])

theorem accessBlock_of_none {addr : Addr} (hnone : t.findBlock g addr = none) (now : Tick) :
    t.accessBlock g now addr = (t, g.hitLatency, none) := by
  unfold accessBlock
  rw [hnone]

/-- The new block of a writeback finds no frame. -/
def AccessRefused (g : Geometry) (t : Tags) (q : MshrQueue) (pkt : Packet) : Prop :=
  pkt.cmd = .writeback ∧ t.findBlock g pkt.addr = none ∧ t.VictimBusy g q pkt.addr

instance (g : Geometry) (t : Tags) (q : MshrQueue) (pkt : Packet) : Decidable (t.AccessRefused g q pkt) :=
  inferInstanceAs (Decidable (_ ∧ _ ∧ _))

theorem Counted.access (h : t.Counted g) {q : MshrQueue} {pkt : Packet} (hfree : ¬ t.AccessRefused g q pkt)
    (now : Tick) : (PrefetchSim.access g t q now pkt).tags.Counted g := by
  cases hfind : t.findBlock g pkt.addr with
  | some ptr =>
    obtain ⟨hp, hvalid⟩ := h.found hfind
    have hfound := t.accessBlock_found g now pkt.addr
    have hstill := t.still_accessBlock g now pkt.addr
    unfold PrefetchSim.access
    generalize t.accessBlock g now pkt.addr = acc at hfound hstill ⊢
    obtain ⟨t₁, lat, blk⟩ := acc
    dsimp only at hfound hstill ⊢
    rw [hfound, hfind]
    have h₁ := hstill.counted h
    have hvalid₁ : (t₁.blks ptr).isValid = true := (hstill.valid ptr hp).trans hvalid
    dsimp only
    split
    · obtain ⟨f, hf, hsat⟩ := satisfy_tags g t₁ ptr pkt
      dsimp only
      rw [hsat]
      exact h₁.write hp hvalid₁ hf _
    · split
      · exact ((plain_writeback pkt).still g t₁ ptr).counted h₁
      · exact h₁
  | none =>
    unfold PrefetchSim.access
    rw [accessBlock_of_none hfind]
    dsimp only
    split
    · rename_i hcmd
      obtain ⟨t₁, wbs, halloc, hout⟩ := h.allocateBlock (fun hbusy => hfree ⟨hcmd, hfind, hbusy⟩) now
      rw [halloc]
      have hinsert := @Vacated.insert g t t₁ _ hout h (h.leastRecent_mem pkt.addr) pkt.addr pkt.req.contextId
        (fun b => { b with status := { valid := true, readable := true } }) (fun _ => rfl) (fun _ => rfl) (fun _ => rfl)
      exact ((plain_writeback pkt).still g _ _).counted hinsert
    · split <;> exact h

theorem Counted.access_refused (hcpus : 0 < g.numCpus) (h : t.Counted g) {q : MshrQueue} {pkt : Packet}
    (hrefused : t.AccessRefused g q pkt) (now : Tick) : (PrefetchSim.access g t q now pkt).tags.Drifted g := by
  obtain ⟨hcmd, hnone, hbusy⟩ := hrefused
  unfold PrefetchSim.access
  rw [accessBlock_of_none hnone]
  dsimp only
  rw [if_pos hcmd, allocateBlock_of_busy hbusy]
  exact h.refused hcpus hbusy.1

/-- After a fill the block is in a frame, unless it found none. -/
theorem Counted.handleFill (h : t.Counted g) {q : MshrQueue} {pkt : Packet} {blk : Option BlkPtr}
    (hblk : ∀ p ∈ blk, p ∈ frames g ∧ (t.blks p).isValid = true)
    (hfree : blk = none → ¬ t.VictimBusy g q pkt.addr) (now : Tick) :
    let f := PrefetchSim.handleFill g t q now pkt blk
    f.1.Counted g ∧ f.2.1 ∈ frames g ∧ (f.1.blks f.2.1).isValid = true := by
  intro f
  have hvalid : (f.1.blks f.2.1).isValid = true := by
    dsimp only [f, PrefetchSim.handleFill]
    rw [modify_self]
    rfl
  refine ⟨?_, ?_, hvalid⟩ <;> dsimp only [f, PrefetchSim.handleFill]
  · cases blk with
    | some ptr =>
      obtain ⟨-, hv⟩ := hblk ptr rfl
      refine Still.counted (still_modify fun _ => ⟨rfl, ?_, rfl⟩) h
      exact hv.symm
    | none =>
      obtain ⟨t₁, wbs, halloc, hout⟩ := h.allocateBlock (hfree rfl) now
      dsimp only
      rw [halloc]
      apply hout.insert h (h.leastRecent_mem pkt.addr)
      all_goals exact fun _ => rfl
  · cases blk with
    | some ptr => exact (hblk ptr rfl).1
    | none =>
      obtain ⟨t₁, wbs, halloc, -⟩ := h.allocateBlock (hfree rfl) now
      dsimp only
      rw [halloc]
      exact h.leastRecent_mem pkt.addr

theorem Counted.handleFill_refused (hcpus : 0 < g.numCpus) (h : t.Counted g) {q : MshrQueue} {pkt : Packet}
    (hbusy : t.VictimBusy g q pkt.addr) (now : Tick) :
    (PrefetchSim.handleFill g t q now pkt none).1.Drifted g ∧
      (PrefetchSim.handleFill g t q now pkt none).2.1 = .temp := by
  have hvictim := h.refused hcpus hbusy.1
  unfold PrefetchSim.handleFill
  dsimp only
  rw [allocateBlock_of_busy hbusy]
  generalize (t.findVictim g pkt.addr).1 = t₁ at hvictim ⊢
  dsimp only
  constructor
  · apply (still_temp g _ _).drifted
    apply (still_temp g _ _).drifted
    exact hvictim
  · rfl

end Tags

end PrefetchSim
