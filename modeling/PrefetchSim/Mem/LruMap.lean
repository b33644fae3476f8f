import PrefetchSim.Lib.Recency
import PrefetchSim.Lib.Runs
import PrefetchSim.Mem.Lines
import PrefetchSim.Mem.Timing

/- The LRU tags are a finite map with least-recently-used replacement.

   `TagOp` are the calls the cache makes of its tags: `accessBlock`, a fill (`findVictim`
   and `insertBlock` for an address that is not found, then the status), and `invalidateBlk`
   for a block that is found. `Refines` says what the tags are when they implement a
   `Recency.Map` from blocks to frames, and every run of the calls is a run of the map
   (`lru_refines`). The fill of `handleFill` is such a call (`handleFill_eq_fill`).

   The array of a set is rotated in place by a do-while loop, which is the function
   `moveWhile` here: with as much fuel as there are ways it ends, and ends with what
   `moveLoop` computes. -/
namespace PrefetchSim

/-! ## The loop -/

/-- `moveToHead` after its first test: the body is done at least once, the assertion of
the source bounds the index, and each round costs one unit of fuel. -/
def moveWhile (blk : Nat) : Nat → Nat → Nat → List Nat → Option (List Nat)
  | 0, _, _, _ => none
  | fuel + 1, i, next, blks =>
    match blks[i]? with
    | none => none
    | some tmp =>
      let blks := blks.set i next
      if tmp = blk then some blks else moveWhile blk fuel (i + 1) tmp blks

/-- What is done from index `i` on does not depend on what stands before it. -/
theorem moveWhile_append {blk : Nat} {ws : List Nat} (h : blk ∈ ws) (done : List Nat) (next : Nat) :
    moveWhile blk ws.length done.length next (done ++ ws) = some (done ++ moveLoop blk next ws) := by
  induction ws generalizing done next with
  | nil => cases h
  | cons w ws ih =>
    have hget : (done ++ w :: ws)[done.length]? = some w := by simp
    have hset : (done ++ w :: ws).set done.length next = (done ++ [next]) ++ ws := by simp
    rw [List.length_cons, moveWhile, hget]
    dsimp only
    rw [hset, moveLoop]
    by_cases hw : w = blk
    · rw [if_pos hw, if_pos hw, List.append_assoc]
      rfl
    · have hmem : blk ∈ ws := (List.mem_cons.1 h).resolve_left (Ne.symm hw)
      rw [if_neg hw, if_neg hw]
      have hrest := ih hmem (done ++ [next]) w
      rw [List.length_append, List.length_singleton] at hrest
      rw [hrest, List.append_assoc]
      rfl

/-- The loop ends within as many rounds as the set has ways. -/
theorem moveWhile_eq {blk : Nat} {ws : List Nat} (h : blk ∈ ws) :
    moveWhile blk ws.length 0 blk ws = some (moveLoop blk blk ws) :=
  moveWhile_append h [] blk

/-! ## The calls -/

inductive TagOp where
  | access (now : Tick) (addr : Addr)
  | fill (addr : Addr) (src : Option Nat) (status : Status)
  | invalidate (addr : Addr)

namespace TagOp

def apply (g : Geometry) (t : Tags) : TagOp → Tags
  | .access now addr => (t.accessBlock g now addr).1
  | .fill addr src status =>
    let v := t.findVictim g addr
    (v.1.insertBlock g addr v.2 src).modify v.2 fun b => { b with status := { status with valid := true } }
  | .invalidate addr =>
    match t.findBlock g addr with
    | some ptr => t.invalidateBlk g ptr
    | none => t

/-- A fill is for an address that is not found. -/
def Enabled (g : Geometry) (t : Tags) : TagOp → Prop
  | .fill addr _ _ => t.findBlock g addr = none
  | _ => True

instance (g : Geometry) (t : Tags) : DecidablePred (Enabled g t) := by
  rintro ⟨⟩ <;> dsimp only [Enabled] <;> infer_instance

/-- What the call asks of the map. -/
def request (g : Geometry) : TagOp → Recency.Op g.Block
  | .access _ addr => .access (g.block addr)
  | .fill addr _ _ => .fill (g.block addr)
  | .invalidate addr => .drop (g.block addr)

end TagOp

/-! ## The fill of the cache -/

/-- The order and the lookups after an insertion depend on the order and the other frames. -/
theorem insert_congr {g : Geometry} {t t' : Tags} {addr : Addr} {ptr : BlkPtr} {src : Option Nat}
    {F F' : CacheBlk → CacheBlk} (hways : t'.ways = t.ways) (hother : ∀ p, p ≠ ptr → t'.blks p = t.blks p)
    (hF : ∀ b, (F b).tag = b.tag ∧ (F b).isValid = true) (hF' : ∀ b, (F' b).tag = b.tag ∧ (F' b).isValid = true) :
    ((t'.insertBlock g addr ptr src).modify ptr F').ways = ((t.insertBlock g addr ptr src).modify ptr F).ways ∧
      ∀ a, ((t'.insertBlock g addr ptr src).modify ptr F').findBlock g a =
        ((t.insertBlock g addr ptr src).modify ptr F).findBlock g a := by
  have hmoved : ((t'.insertBlock g addr ptr src).modify ptr F').ways =
      ((t.insertBlock g addr ptr src).modify ptr F).ways := by
    rw [Tags.modify_ways, Tags.modify_ways]
    unfold Tags.insertBlock
    cases ptr <;> split <;> split <;>
      simp only [Tags.promote, Tags.modify, Tags.occupy, hways]
  refine ⟨hmoved, fun a => ?_⟩
  have hholds : ∀ i tag, ((t'.insertBlock g addr ptr src).modify ptr F').holds i tag =
      ((t.insertBlock g addr ptr src).modify ptr F).holds i tag := by
    intro i tag
    funext w
    unfold Tags.holds
    by_cases hp : BlkPtr.frame i w = ptr
    · rw [hp, Tags.modify_self, Tags.modify_self, (hF _).1, (hF _).2, (hF' _).1, (hF' _).2,
        Tags.insertBlock_blks, Tags.insertBlock_blks, Function.update_self, Function.update_self]
    · rw [Tags.modify_of_ne _ hp, Tags.modify_of_ne _ hp, Tags.insertBlock_blks, Tags.insertBlock_blks,
        Function.update_of_ne hp, Function.update_of_ne hp, hother _ hp]
  unfold Tags.findBlock Tags.findBlk
  rw [hmoved, hholds]

/-- What `allocateBlock` changes on top of `findVictim` is the dirty bit of the victim. -/
theorem allocateBlock_granted {g : Geometry} {t : Tags} {q : MshrQueue} {now : Tick} {addr : Addr} {ptr : BlkPtr}
    (h : (allocateBlock g t q now addr).2.1 = some ptr) :
    (t.findVictim g addr).2 = ptr ∧
      (allocateBlock g t q now addr).1.ways = (t.findVictim g addr).1.ways ∧
      ∀ p, p ≠ ptr → (allocateBlock g t q now addr).1.blks p = (t.findVictim g addr).1.blks p := by
  revert h
  unfold allocateBlock
  dsimp only [writebackBlk]
  split
  · split
    · intro h
      cases h
    · split <;> intro h <;> rw [Option.some.inj h]
      · refine ⟨rfl, rfl, fun p hp => ?_⟩
        dsimp only
        rw [Tags.modify_of_ne _ hp]
      · exact ⟨rfl, rfl, fun _ _ => rfl⟩
  · intro h
    rw [Option.some.inj h]
    exact ⟨rfl, rfl, fun _ _ => rfl⟩

/-- The fill of the cache, where it gets a frame, is a fill of the tags. -/
theorem handleFill_eq_fill {g : Geometry} {t : Tags} {q : MshrQueue} {now : Tick} {pkt : Packet}
    {ptr : BlkPtr} (hgrant : (allocateBlock g t q now pkt.addr).2.1 = some ptr) :
    let filled := (TagOp.fill pkt.addr pkt.req.contextId (fillStatus pkt)).apply g t
    (handleFill g t q now pkt none).1.ways = filled.ways ∧
      ∀ a, (handleFill g t q now pkt none).1.findBlock g a = filled.findBlock g a := by
  obtain ⟨hptr, hways, hother⟩ := allocateBlock_granted hgrant
  unfold handleFill TagOp.apply
  generalize allocateBlock g t q now pkt.addr = a at hgrant hways hother ⊢
  obtain ⟨t₁, o, wbs⟩ := a
  dsimp only at hgrant hways hother ⊢
  subst hgrant
  rw [hptr]
  dsimp only
  apply insert_congr hways hother
  · exact fun _ => ⟨rfl, rfl⟩
  · exact fun _ => ⟨rfl, rfl⟩

/-! ## Refinement -/

/-- A block goes to a frame of its set. -/
def frameOf (g : Geometry) (b : g.Block) (p : BlkPtr) : Prop :=
  ∃ w < g.assoc, p = .frame (g.extractSet b.1) w

/-- The tags implement the map. -/
structure Refines (g : Geometry) (t : Tags) (m : Recency.Map g.Block BlkPtr) : Prop where
  /-- a block is found if and where the map has it -/
  found : ∀ a, t.findBlock g a = m.slot (g.block a)
  /-- at most one valid frame holds a block -/
  unique : ∀ i w i' w', w < g.assoc → w' < g.assoc → (t.blks (.frame i w)).isValid = true →
    (t.blks (.frame i' w')).isValid = true →
    g.regenerateBlkAddr (t.blks (.frame i w)).tag (t.blks (.frame i w)).set =
      g.regenerateBlkAddr (t.blks (.frame i' w')).tag (t.blks (.frame i' w')).set →
    BlkPtr.frame i w = .frame i' w'
  /-- a set orders its frames by their last use -/
  perm : ∀ i, (t.ways i).Perm (List.range g.assoc)
  recent : ∀ i, m.Ordered ((t.ways i).map (.frame i))
  /-- the victim is the frame of the set that was used least recently -/
  victim : ∀ a, m.LeastRecent (frameOf g (g.block a)) (t.findVictim g a).2
  /-- the loop ends for every frame of a set -/
  loop : ∀ i w, w < g.assoc → moveWhile w g.assoc 0 w (t.ways i) = some (moveLoop w w (t.ways i))

/-- What the calls keep. -/
structure Keeps (g : Geometry) (t : Tags) (m : Recency.Map g.Block BlkPtr) : Prop where
  wellFormed : t.WellFormed g
  housed : t.Housed g
  found : ∀ a, t.findBlock g a = m.slot (g.block a)
  recent : ∀ i, m.Ordered ((t.ways i).map (.frame i))
  past : ∀ p, m.lastUse p < m.clock

section

variable {g : Geometry} {t : Tags} {m : Recency.Map g.Block BlkPtr}

theorem Tags.WellFormed.mem_ways (ht : t.WellFormed g) {i w : Nat} : w ∈ t.ways i ↔ w < g.assoc := by
  rw [(ht.perm i).mem_iff, List.mem_range]

theorem Tags.WellFormed.nodup_ways (ht : t.WellFormed g) (i : Nat) : (t.ways i).Nodup :=
  (ht.perm i).nodup_iff.2 List.nodup_range

theorem frame_injective (i : Nat) : Function.Injective (BlkPtr.frame i) := by
  intro a b h
  injection h

/-- Two valid frames do not hold one block. -/
theorem Tags.Housed.unique (hh : t.Housed g) (ht : t.WellFormed g) {i w i' w' : Nat} (hw : w < g.assoc)
    (hw' : w' < g.assoc) (hv : (t.blks (.frame i w)).isValid = true)
    (hv' : (t.blks (.frame i' w')).isValid = true)
    (haddr : g.regenerateBlkAddr (t.blks (.frame i w)).tag (t.blks (.frame i w)).set =
      g.regenerateBlkAddr (t.blks (.frame i' w')).tag (t.blks (.frame i' w')).set) :
    BlkPtr.frame i w = .frame i' w' := by
  obtain ⟨a, htag, rfl⟩ := hh i w hv
  obtain ⟨a', htag', rfl⟩ := hh i' w' hv'
  rw [ht.set_eq, ht.set_eq, htag, htag', g.regenerate_extract, g.regenerate_extract] at haddr
  have hblock : g.block a = g.block a' := Subtype.ext haddr
  obtain ⟨hset, htags⟩ := Geometry.block_eq_iff.1 hblock
  change g.extractSet (g.blockAlign a) = _ at hset
  change g.extractTag (g.blockAlign a) = _ at htags
  rw [g.extractSet_blockAlign] at hset
  rw [g.extractTag_blockAlign] at htags
  rw [hset] at htag hv ⊢
  have hh₁ : t.holds (g.extractSet a') (g.extractTag a) w = true := by simp [holds, htag, hv]
  have hh₂ : t.holds (g.extractSet a') (g.extractTag a) w' = true := by simp [holds, htag', hv', htags]
  rw [ht.unique _ _ w w' (ht.mem_ways.2 hw) (ht.mem_ways.2 hw') hh₁ hh₂]

theorem Keeps.victim (h : Keeps g t m) (a : Addr) :
    m.LeastRecent (frameOf g (g.block a)) (t.findVictim g a).2 := by
  have hne := h.wellFormed.ways_ne_nil (g.extractSet a)
  have hmap : (t.ways (g.extractSet a)).map (BlkPtr.frame (g.extractSet a)) ≠ [] := by simp [hne]
  have hlast := (h.recent (g.extractSet a)).last hmap
  have hptr : (t.findVictim g a).2 =
      ((t.ways (g.extractSet a)).map (BlkPtr.frame (g.extractSet a))).getLast hmap := by
    rw [List.getLast_map, Tags.findVictim, List.getLast?_eq_some_getLast hne, Option.getD_some]
    split <;> rfl
  have hroom : ∀ p, frameOf g (g.block a) p ↔
      p ∈ (t.ways (g.extractSet a)).map (BlkPtr.frame (g.extractSet a)) := by
    intro p
    have hset : g.extractSet (g.block a).1 = g.extractSet a := g.extractSet_blockAlign a
    simp only [frameOf, List.mem_map, h.wellFormed.mem_ways, hset, eq_comm]
  rw [hptr]
  exact ⟨(hroom _).2 hlast.1, fun p hp hne' => hlast.2 p ((hroom p).1 hp) hne'⟩

theorem Keeps.refines (h : Keeps g t m) : Refines g t m where
  found := h.found
  unique _ _ _ _ hw hw' hv hv' haddr := h.housed.unique h.wellFormed hw hw' hv hv' haddr
  perm := h.wellFormed.perm
  recent := h.recent
  victim := h.victim
  loop i w hw := by
    have hlen : (t.ways i).length = g.assoc := by rw [(h.wellFormed.perm i).length_eq, List.length_range]
    rw [← hlen]
    exact moveWhile_eq (h.wellFormed.mem_ways.2 hw)

theorem keeps_initial (g : Geometry) : Keeps g (Tags.initial g) Recency.Map.empty where
  wellFormed := Tags.initial_wellFormed g
  housed := Tags.initial_housed g
  found a := Tags.initial_findBlock g a
  recent _ := List.pairwise_of_forall fun _ _ => .inr ⟨rfl, rfl⟩
  past _ := Nat.one_pos

/-- A frame that goes to the head of its set is the one used last. -/
theorem Keeps.use (h : Keeps g t m) {i w : Nat} (hw : w ∈ t.ways i) (j : Nat) :
    (m.use (.frame i w)).Ordered
      ((Function.update t.ways i (moveToHead w (t.ways i)) j).map (.frame j)) := by
  by_cases hj : j = i
  · subst hj
    rw [Function.update_self, moveToHead_eq hw, List.map_cons, List.map_erase (frame_injective j)]
    exact (h.recent j).use ((h.wellFormed.nodup_ways j).map (frame_injective j)) h.past
  · rw [Function.update_of_ne hj]
    apply (h.recent j).use_other
    simp [hj]

theorem Keeps.access (h : Keeps g t m) (now : Tick) (a : Addr) :
    ∃ m', m.Step (frameOf g) (.access (g.block a)) m' ∧ Keeps g (t.accessBlock g now a).1 m' := by
  have hquiet := t.accessBlock_quiet g now a
  have hfound : ∀ a', (t.accessBlock g now a).1.findBlock g a' = m.slot (g.block a') := fun a' =>
    (hquiet.findBlk h.wellFormed _ _).trans (h.found a')
  cases hfind : t.findBlock g a with
  | none =>
    refine ⟨m, .miss (by rw [← h.found, hfind]), ?_⟩
    rw [Tags.accessBlock, hfind]
    exact h
  | some p =>
    obtain ⟨w, hw, rfl, -⟩ := Tags.mem_of_findBlk hfind
    have hways : (t.accessBlock g now a).1.ways = Function.update t.ways (g.extractSet a)
        (moveToHead w (t.ways (g.extractSet a))) := by
      rw [Tags.accessBlock, hfind]
      rfl
    refine ⟨_, .hit (by rw [← h.found, hfind]), hquiet.wellFormed h.wellFormed, hquiet.housed h.housed,
      hfound, ?_, Recency.Map.lastUse_use_lt h.past⟩
    rw [hways]
    exact h.use hw

theorem Keeps.fill (h : Keeps g t m) {a : Addr} (hnone : t.findBlock g a = none) (src : Option Nat)
    (status : Status) :
    ∃ m', m.Step (frameOf g) (.fill (g.block a)) m' ∧
      Keeps g ((TagOp.fill a src status).apply g t) m' := by
  obtain ⟨w, hw, hptr, hways, hblks⟩ := h.wellFormed.findVictim a
  have hvictim := h.victim a
  refine ⟨_, .fill (by rw [← h.found, hnone]) hvictim, ?_⟩
  unfold TagOp.apply
  dsimp only
  generalize t.findVictim g a = v at hptr hways hblks hvictim ⊢
  obtain ⟨t₁, ptr⟩ := v
  dsimp only at hptr hways hblks ⊢
  subst hptr
  have hset : (t₁.blks (.frame (g.extractSet a) w)).set = g.extractSet a := by
    rcases hblks (.frame (g.extractSet a) w) with hb | ⟨-, hb⟩ <;> rw [hb] <;> exact h.wellFormed.set_eq _ _
  have inst := @Tags.installs_of_insert g t t₁ a w src
    (fun b => { b with status := { status with valid := true } }) hw hways
    (fun p hp => (hblks p).resolve_right fun hb => hp hb.1) hset (fun _ => rfl) (fun _ => rfl) (fun _ => rfl)
  refine ⟨inst.wellFormed h.wellFormed hnone, inst.housed h.housed, fun a' => ?_, fun j => ?_,
    Recency.Map.lastUse_use_lt h.past⟩
  · refine (inst.findBlk h.wellFormed hnone hw _ _).trans ?_
    have hkey : g.block a' = g.block a ↔ g.extractSet a' = g.extractSet a ∧ g.extractTag a' = g.extractTag a := by
      rw [Geometry.block_eq_iff]
      show g.extractSet (g.blockAlign a') = _ ∧ g.extractTag (g.blockAlign a') = _ ↔ _
      rw [g.extractSet_blockAlign, g.extractTag_blockAlign]
    have hold : t.findBlk (g.extractSet a') (g.extractTag a') = m.slot (g.block a') := h.found a'
    simp only [Recency.Map.put, hkey, hold]
  · have hmoved : ((t₁.insertBlock g a (.frame (g.extractSet a) w) src).modify (.frame (g.extractSet a) w)
        fun b => { b with status := { status with valid := true } }).ways =
        Function.update t.ways (g.extractSet a) (moveToHead w (t.ways (g.extractSet a))) := by
      rw [← hways, Tags.modify_ways, Tags.insertBlock]
      split <;> rfl
    rw [hmoved]
    exact h.use hw j

theorem Keeps.invalidate (h : Keeps g t m) (a : Addr) :
    Keeps g ((TagOp.invalidate a).apply g t) (m.drop (g.block a)) := by
  unfold TagOp.apply
  dsimp only
  cases hfind : t.findBlock g a with
  | none =>
    have hslot : m.slot (g.block a) = none := by rw [← h.found, hfind]
    have hdrop : m.drop (g.block a) = m := by
      rw [Recency.Map.drop, ← hslot, Function.update_eq_self]
    rw [hdrop]
    exact h
  | some p =>
    refine ⟨h.wellFormed.invalidateBlk p, h.housed.invalidateBlk p, fun a' => ?_, h.recent, h.past⟩
    refine (h.wellFormed.findBlk_invalidateBlk p _ _).trans ?_
    show (if t.findBlock g a' = some p then none else t.findBlock g a') = Function.update m.slot _ none _
    by_cases hb : g.block a' = g.block a
    · rw [hb, Function.update_self, if_pos]
      rw [← Tags.findBlock_block, hb, Tags.findBlock_block, hfind]
    · rw [Function.update_of_ne hb, if_neg, h.found]
      intro hp
      exact hb (Tags.findBlock_inj (by rwa [Tags.findBlock_block]) hfind)

/-- One call. -/
theorem Keeps.apply (h : Keeps g t m) {op : TagOp} (hen : op.Enabled g t) :
    ∃ m', m.Step (frameOf g) (op.request g) m' ∧ Keeps g (op.apply g t) m' := by
  cases op with
  | access now addr => exact h.access now addr
  | fill addr src status => exact h.fill hen src status
  | invalidate addr => exact ⟨_, .drop _, h.invalidate addr⟩

theorem Keeps.run (ops : List TagOp) (h : Keeps g t m)
    (hops : Runs.Guarded (TagOp.apply g) (TagOp.Enabled g) t ops) :
    ∃ m', m.Reaches (frameOf g) (ops.map (TagOp.request g)) m' ∧
      Keeps g (Runs.exec (TagOp.apply g) t ops) m' := by
  induction ops generalizing t m with
  | nil => exact ⟨m, .nil m, h⟩
  | cons op ops ih =>
    obtain ⟨m₁, hstep, h₁⟩ := h.apply hops.1
    obtain ⟨m', hrest, h'⟩ := ih h₁ hops.2
    exact ⟨m', .cons hstep hrest, h'⟩

end

/-- Every run of the calls is a run of a map with least-recently-used replacement. -/
theorem lru_refines (g : Geometry) (ops : List TagOp)
    (h : Runs.Guarded (TagOp.apply g) (TagOp.Enabled g) (Tags.initial g) ops) :
    ∃ m, Recency.Map.empty.Reaches (frameOf g) (ops.map (TagOp.request g)) m ∧
      Refines g (Runs.exec (TagOp.apply g) (Tags.initial g) ops) m := by
  obtain ⟨m, hrun, hkeeps⟩ := (keeps_initial g).run ops h
  exact ⟨m, hrun, hkeeps.refines⟩

/-- A set of two frames fills up, a use saves one block, and the other makes room. -/
theorem lru_refines_full_set :
    let ops := [TagOp.fill 4096 none {}, .fill 4224 none {}, .access 0 4096, .fill 4352 none {},
      .invalidate 4096]
    ∃ m, Recency.Map.empty.Reaches (frameOf smallGeometry) (ops.map (TagOp.request smallGeometry)) m ∧
      Refines smallGeometry (Runs.exec (TagOp.apply smallGeometry) (Tags.initial smallGeometry) ops) m :=
  lru_refines smallGeometry _ (by decide +kernel)

end PrefetchSim
