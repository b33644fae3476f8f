import PrefetchSim.Base.RangeMap
import PrefetchSim.Lib.Runs

/- How the bus finds the port for an address (`mem/bus.{hh,cc}`).

   Correspondence (C++ ↔ Lean):
     defaultId / any other port id       `PortId.default` / `PortId.iface`
     portMap                             `PortTable.portMap`
     portCache[3], the valid entries     `PortTable.portCache`, newest first
     snoopPorts                          `PortTable.snoopPorts`
     defaultRange, responderSet          the fields of the same name
     checkPortCache, updatePortCache,
     clearPortCache, findPort,
     recvStatusChange, addressRanges     the definitions of the same name

   `panic`, `fatal` and a failed assertion are `none`. What a device answers to
   `getPeerAddressRanges` comes with the call of `recvStatusChange`; the calls
   by which the bus passes a change on to its other peers are further calls,
   one after another. Addresses are any linear order.

   The table has two shortcuts: a cache of the last three ranges found, whose
   ranges end one address early, and a search that looks at one entry only. As
   long as no two devices announce the same address both are invisible: every
   lookup gives the device that last announced the address
   (`routes_to_announcer`), and what the bus announces to a peer is what it
   would not send back to it (`announces_what_it_routes`). If a range starts in
   a gap and reaches into the next one, the conflict is not seen, and the same
   address goes to one device or the other, depending on which addresses were
   looked up before (`conflict_missed`). -/
namespace PrefetchSim

inductive PortId (ι : Type*) where
  | iface (id : ι)
  | default
deriving Repr, DecidableEq

structure PortTable (α ι : Type*) [LinearOrder α] where
  portMap : RangeMap α ι := ∅
  portCache : List (Range α × ι) := []
  snoopPorts : List ι := []
  defaultRange : List (Range α) := []
  responderSet : Bool

namespace PortTable

variable {α ι : Type*} [LinearOrder α]

/-- The range of a cache entry does not include its end here. -/
def checkPortCache (t : PortTable α ι) (addr : α) : Option ι :=
  (t.portCache.find? fun e => e.1.start ≤ addr ∧ addr < e.1.stop).map (·.2)

def updatePortCache (t : PortTable α ι) (e : Range α × ι) : PortTable α ι :=
  { t with portCache := (e :: t.portCache).take 3 }

def clearPortCache (t : PortTable α ι) : PortTable α ι := { t with portCache := [] }

/-- The loop over `defaultRange` and what follows it. -/
def findDefault (t : PortTable α ι) (addr : α) : Option (PortId ι) :=
  if ∃ r ∈ t.defaultRange, r.Has addr then some .default
  else if t.responderSet then none
  else some .default

def findPort (t : PortTable α ι) (addr : α) : PortTable α ι × Option (PortId ι) :=
  match t.checkPortCache addr with
  | some id => (t, some (.iface id))
  | none =>
    match t.portMap.find (.single addr) with
    | some e => (t.updatePortCache e, some (.iface e.2))
    | none => (t, t.findDefault addr)

/-- The loop over the ranges a device announces: the first one that is refused
    is fatal. -/
def insertAll (id : ι) : List (Range α) → RangeMap α ι → Option (RangeMap α ι)
  | [], m => some m
  | r :: rs, m => (m.insert r id).bind (insertAll id rs)

def recvStatusChange [DecidableEq ι] (t : PortTable α ι) (id : PortId ι) (ranges : List (Range α))
    (snoops : Bool) : Option (PortTable α ι) :=
  let t := t.clearPortCache
  match id with
  | .default =>
    if t.responderSet then
      if snoops then none else some { t with defaultRange := ranges }
    else some { t with defaultRange := [] }
  | .iface id =>
    let snoopers := t.snoopPorts.filter (· ≠ id)
    (insertAll id ranges (t.portMap.eraseIf (· = id))).map fun m =>
      { t with portMap := m, snoopPorts := if snoops then snoopers ++ [id] else snoopers }

/-- The condition under which `addressRanges` gives up. -/
def Straddles (r d : Range α) : Prop :=
  r.start < d.start ∧ d.start ≤ r.stop ∨ r.start < d.stop ∧ d.stop ≤ r.stop

def Subset (r d : Range α) : Prop := d.start ≤ r.start ∧ r.stop ≤ d.stop

instance (r d : Range α) : Decidable (Straddles r d) := inferInstanceAs (Decidable (_ ∨ _))
instance (r d : Range α) : Decidable (Subset r d) := inferInstanceAs (Decidable (_ ∧ _))

def addressRanges [DecidableEq ι] (t : PortTable α ι) (id : PortId ι) : Option (List (Range α) × Bool) :=
  if ∃ e ∈ t.portMap.tree, ∃ d ∈ t.defaultRange, Straddles e.1 d then none
  else
    let others := t.portMap.tree.filter fun e =>
      PortId.iface e.2 ≠ id ∧ ¬ ∃ d ∈ t.defaultRange, Subset e.1 d
    some (t.defaultRange ++ others.map (·.1), t.snoopPorts.any fun s => PortId.iface s ≠ id)

theorem findDefault_eq (t : PortTable α ι) (a : α) :
    t.findDefault a =
      if t.responderSet ∧ ∀ r ∈ t.defaultRange, ¬ r.Has a then none else some .default := by
  by_cases hd : ∃ r ∈ t.defaultRange, r.Has a
  · have hn : ¬ ∀ r ∈ t.defaultRange, ¬ r.Has a := fun hn => hd.elim fun r hr => hn r hr.1 hr.2
    rw [findDefault, if_pos hd, if_neg fun h => hn h.2]
  · have hn : ∀ r ∈ t.defaultRange, ¬ r.Has a := fun r hr ha => hd ⟨r, hr, ha⟩
    rw [findDefault, if_neg hd]
    by_cases hr : t.responderSet = true
    · rw [if_pos hr, if_pos ⟨hr, hn⟩]
    · rw [if_neg hr, if_neg fun h => hr h.1]

theorem checkPortCache_some {t : PortTable α ι} {a : α} {id : ι} (h : t.checkPortCache a = some id) :
    ∃ e ∈ t.portCache, e.1.Has a ∧ e.2 = id := by
  obtain ⟨e, he, rfl⟩ := Option.map_eq_some_iff.1 h
  have ha := List.find?_some he
  simp only [decide_eq_true_eq] at ha
  exact ⟨e, List.mem_of_find?_eq_some he, ⟨ha.1, ha.2.le⟩, rfl⟩

/-- A set of ranges, none of which meets an entry or another one of them, goes in. -/
theorem insertAll_free (id : ι) :
    ∀ {ranges : List (Range α)} {m : RangeMap α ι}, m.Sound →
      (∀ r ∈ ranges, r.start ≤ r.stop) → ranges.Pairwise (fun r r' => ¬ r.Meets r') →
      (∀ r ∈ ranges, ∀ e ∈ m.tree, ¬ e.1.Meets r) →
      ∃ m', insertAll id ranges m = some m' ∧ m'.Sound ∧
        ∀ e, e ∈ m'.tree ↔ (e.1 ∈ ranges ∧ e.2 = id) ∨ e ∈ m.tree
  | [], m, hm, _, _, _ => ⟨m, rfl, hm, by simp⟩
  | r :: rs, m, hm, hp, hd, hf => by
    obtain ⟨hr, hd⟩ := List.pairwise_cons.1 hd
    obtain ⟨m₁, h₁, hm₁, hmem₁⟩ :=
      hm.insert_free (d := id) (hp r List.mem_cons_self) (hf r List.mem_cons_self)
    have hf₁ : ∀ r' ∈ rs, ∀ e ∈ m₁.tree, ¬ e.1.Meets r' := by
      intro r' hr' e he
      obtain rfl | he := (hmem₁ e).1 he
      · exact hr r' hr'
      · exact hf r' (List.mem_cons_of_mem _ hr') e he
    obtain ⟨m₂, h₂, hm₂, hmem₂⟩ :=
      insertAll_free id hm₁ (fun r' hr' => hp r' (List.mem_cons_of_mem _ hr')) hd hf₁
    refine ⟨m₂, by simp [insertAll, h₁, h₂], hm₂, fun e => ?_⟩
    rw [hmem₂, hmem₁, List.mem_cons, Prod.ext_iff]
    tauto

/-- One event at the table: a lookup, or a device that announces its ranges. -/
inductive Act (α ι : Type*) where
  | find (addr : α)
  | status (id : PortId ι) (ranges : List (Range α)) (snoops : Bool)

/-- The table together with what was last announced to it. -/
structure Hist (α ι : Type*) [LinearOrder α] where
  table : PortTable α ι
  announced : PortId ι → List (Range α) := fun _ => []
  snooping : ι → Bool := fun _ => false
  /-- a range was refused -/
  failed : Bool := false

def step [DecidableEq ι] (s : Hist α ι) : Act α ι → Hist α ι
  | .find addr => { s with table := (s.table.findPort addr).1 }
  | .status id ranges snoops =>
    match s.table.recvStatusChange id ranges snoops with
    | none => { s with failed := true }
    | some t =>
      { s with
        table := t
        announced := Function.update s.announced id ranges
        snooping := fun i => if PortId.iface i = id then snoops else s.snooping i }

/-- What the devices owe the bus: the ranges of one meet neither one another
    nor those of another one, and the default device does not snoop. -/
def Enabled (s : Hist α ι) : Act α ι → Prop
  | .find _ => True
  | .status .default ranges snoops => snoops = false ∧ ∀ r ∈ ranges, r.start ≤ r.stop
  | .status (.iface id) ranges _ =>
    (∀ r ∈ ranges, r.start ≤ r.stop) ∧ ranges.Pairwise (fun r r' => ¬ r.Meets r') ∧
      ∀ i, i ≠ id → ∀ e ∈ s.announced (.iface i), ∀ r ∈ ranges, ¬ e.Meets r

instance [Fintype ι] [DecidableEq ι] (s : Hist α ι) : ∀ act, Decidable (Enabled s act) := fun act => by
  rcases act with _ | ⟨_ | _, _, _⟩ <;> dsimp only [Enabled] <;> infer_instance

/-- The table is that of the announcements, the cache holds entries of it. -/
structure Routed (s : Hist α ι) : Prop where
  sound : s.table.portMap.Sound
  entries : ∀ e, e ∈ s.table.portMap.tree ↔ e.1 ∈ s.announced (.iface e.2)
  cached : ∀ e ∈ s.table.portCache, e ∈ s.table.portMap.tree
  defaults : s.table.defaultRange = if s.table.responderSet then s.announced .default else []
  properDefaults : ∀ d ∈ s.announced .default, d.start ≤ d.stop
  snoopers : ∀ i, i ∈ s.table.snoopPorts ↔ s.snooping i = true
  nodup : s.table.snoopPorts.Nodup
  accepted : s.failed = false

theorem routed_initial (responderSet : Bool) :
    Routed { table := { responderSet := responderSet } : Hist α ι } where
  sound := RangeMap.sound_empty
  entries := by simp
  cached := by simp
  defaults := by simp
  properDefaults := by simp
  snoopers := by simp
  nodup := List.nodup_nil
  accepted := rfl

/-- With or without the cache, a lookup gives the entry that has the address. -/
theorem Routed.findPort_iface {s : Hist α ι} (h : Routed s) {a : α} {id : ι} :
    (s.table.findPort a).2 = some (.iface id) ↔ ∃ r ∈ s.announced (.iface id), r.Has a := by
  have key : ∀ e : Range α × ι, e ∈ s.table.portMap.tree → e.1.Has a →
      (e.2 = id ↔ ∃ r ∈ s.announced (.iface id), r.Has a) := by
    intro e he ha
    refine ⟨fun hid => ⟨e.1, hid ▸ (h.entries e).1 he, ha⟩, fun ⟨r, hr, hra⟩ => ?_⟩
    exact congrArg Prod.snd (h.sound.eq_of_has he ((h.entries (r, id)).2 hr) ha hra)
  cases hc : s.table.checkPortCache a with
  | some i =>
    obtain ⟨e, he, ha, rfl⟩ := checkPortCache_some hc
    simp only [findPort, hc, Option.some.injEq, PortId.iface.injEq]
    exact key e (h.cached e he) ha
  | none =>
    cases hf : s.table.portMap.find (.single a) with
    | some e =>
      obtain ⟨he, ha⟩ := h.sound.find_single.1 hf
      simp only [findPort, hc, hf, Option.some.injEq, PortId.iface.injEq]
      exact key e he ha
    | none =>
      have hnone := h.sound.find_single_none.1 hf
      have hnot : s.table.findDefault a ≠ some (.iface id) := by
        simp only [findDefault]
        split_ifs <;> simp
      simp only [findPort, hc, hf, hnot, false_iff, not_exists, not_and]
      exact fun r hr hra => hnone (r, id) ((h.entries (r, id)).2 hr) hra

/-- An address nobody announced goes to the default port, or nowhere. -/
theorem Routed.findPort_nobody {s : Hist α ι} (h : Routed s) {a : α}
    (hno : ∀ id, ∀ r ∈ s.announced (.iface id), ¬ r.Has a) :
    (s.table.findPort a).2 =
      if s.table.responderSet ∧ ∀ r ∈ s.announced .default, ¬ r.Has a then none else some .default := by
  have hmap : s.table.portMap.find (.single a) = none :=
    h.sound.find_single_none.2 fun e he => hno e.2 e.1 ((h.entries e).1 he)
  have hcache : s.table.checkPortCache a = none := by
    refine Option.eq_none_iff_forall_ne_some.2 fun i hi => ?_
    obtain ⟨e, he, ha, -⟩ := checkPortCache_some hi
    exact hno e.2 e.1 ((h.entries e).1 (h.cached e he)) ha
  simp only [findPort, hcache, hmap, findDefault_eq, h.defaults]
  cases s.table.responderSet <;> simp

section runs
variable [DecidableEq ι]

/-- A lookup changes nothing but the cache, and what it puts there is an entry. -/
theorem Routed.find {s : Hist α ι} (h : Routed s) (a : α) : Routed (step s (.find a)) := by
  simp only [PortTable.step, findPort]
  split
  · exact h
  · split
    · rename_i e he
      refine { h with cached := fun e' he' => ?_ }
      obtain rfl | he' := List.mem_cons.1 (List.mem_of_mem_take he')
      · exact (RangeMap.find_mem he).1
      · exact h.cached e' he'
    · exact h

theorem recvStatusChange_default (t : PortTable α ι) (ranges : List (Range α)) :
    t.recvStatusChange .default ranges false =
      some { t.clearPortCache with defaultRange := if t.responderSet then ranges else [] } := by
  by_cases hr : t.responderSet = true <;> simp [recvStatusChange, clearPortCache, hr]

theorem Routed.statusDefault {s : Hist α ι} (h : Routed s) {ranges : List (Range α)}
    (hp : ∀ r ∈ ranges, r.start ≤ r.stop) : Routed (step s (.status .default ranges false)) := by
  simp only [PortTable.step, recvStatusChange_default]
  exact { h with
    entries := by simpa [clearPortCache] using h.entries
    cached := by simp [clearPortCache]
    defaults := by simp [clearPortCache]
    properDefaults := by simpa [clearPortCache] using hp
    snoopers := by simpa [clearPortCache] using h.snoopers }

theorem Routed.statusIface {s : Hist α ι} (h : Routed s) {id : ι} {ranges : List (Range α)} {snoops : Bool}
    (he : Enabled s (.status (.iface id) ranges snoops)) :
    Routed (step s (.status (.iface id) ranges snoops)) := by
  obtain ⟨hp, hd, hfree⟩ := he
  have hmem : ∀ e, e ∈ (s.table.portMap.eraseIf (· = id)).tree ↔ e ∈ s.table.portMap.tree ∧ e.2 ≠ id := by
    simp [RangeMap.eraseIf]
  have hf : ∀ r ∈ ranges, ∀ e ∈ (s.table.portMap.eraseIf (· = id)).tree, ¬ e.1.Meets r := by
    intro r hr e he
    obtain ⟨he, hid⟩ := (hmem e).1 he
    exact hfree e.2 hid e.1 ((h.entries e).1 he) r hr
  obtain ⟨m', hm', hs', hmem'⟩ := insertAll_free id (h.sound.eraseIf _) hp hd hf
  simp only [PortTable.step, recvStatusChange, clearPortCache, hm', Option.map_some]
  refine ⟨hs', fun e => ?_, by simp, ?_, ?_, fun i => ?_, ?_, h.accepted⟩
  · rw [hmem', hmem, h.entries]
    by_cases hid : e.2 = id
    · simp [hid]
    · simp [hid]
  · simpa using h.defaults
  · simpa using h.properDefaults
  · by_cases hid : i = id <;> cases snoops <;> simp [hid, h.snoopers]
  · have hn := h.nodup.filter fun i => decide (i ≠ id)
    cases snoops with
    | false => exact hn
    | true => exact List.nodup_append.2 ⟨hn, List.nodup_singleton id, by simp⟩

theorem Routed.step {s : Hist α ι} {act : Act α ι} (h : Routed s) (he : Enabled s act) :
    Routed (step s act) := by
  cases act with
  | find a => exact h.find a
  | status id ranges snoops =>
    cases id with
    | default => exact he.1 ▸ h.statusDefault he.2
    | iface id => exact h.statusIface he

/-- In every run in which no two devices announce the same address, no range is
    refused, a lookup gives the device that last announced the address,
    whatever was looked up before, an address nobody announced goes to the
    default port or, if the default device announces its ranges and has none for
    it, nowhere, and the snoopers are those that last said so, each once. -/
theorem routes_to_announcer (responderSet : Bool) (acts : List (Act α ι))
    (h : Runs.Guarded PortTable.step Enabled { table := { responderSet } } acts) :
    Runs.Along PortTable.step
      (fun s : Hist α ι => s.failed = false ∧
        (∀ a id, (s.table.findPort a).2 = some (.iface id) ↔ ∃ r ∈ s.announced (.iface id), r.Has a) ∧
        (∀ a, (∀ id, ∀ r ∈ s.announced (.iface id), ¬ r.Has a) → (s.table.findPort a).2 =
          if s.table.responderSet ∧ ∀ r ∈ s.announced .default, ¬ r.Has a then none else some .default) ∧
        s.table.snoopPorts.Nodup ∧ ∀ id, id ∈ s.table.snoopPorts ↔ s.snooping id = true)
      { table := { responderSet } } acts := by
  have hrun := Runs.along_of_guarded (fun _ _ hs he => Routed.step hs he) acts _
    (routed_initial responderSet) h
  refine Runs.along_mono (fun s hs => ?_) acts _ hrun
  exact ⟨hs.accepted, fun _ _ => hs.findPort_iface, fun _ => hs.findPort_nobody, hs.nodup, hs.snoopers⟩

/-- Two devices, one of which snoops, and a lookup of the last address of each. -/
def twoDevices : List (Act Nat (Fin 3)) :=
  [.status (.iface 0) [⟨0, 9⟩] false, .status (.iface 1) [⟨20, 29⟩] true, .find 29, .find 9]

theorem routes_to_announcer_two_devices :
    Runs.Guarded PortTable.step Enabled { table := { responderSet := false } } twoDevices ∧
      ((Runs.exec PortTable.step { table := { responderSet := false } } twoDevices).table.findPort 29).2 =
        some (.iface 1) := by
  have hg : Runs.Guarded PortTable.step Enabled { table := { responderSet := false } } twoDevices := by
    decide
  refine ⟨hg, ?_⟩
  have hall := Runs.along_exec _ _ (routes_to_announcer false twoDevices hg)
  exact (hall.2.1 29 1).2 ⟨⟨20, 29⟩, by decide, by decide⟩

omit [DecidableEq ι] in
/-- Two ranges that pass: they have no address in common, the device's ends
    before the default one does, or it starts with the last address of that. -/
theorem not_straddles_iff {r d : Range α} (hd : d.start ≤ d.stop) :
    ¬ Straddles r d ↔
      ¬ r.Meets d ∨ (d.start ≤ r.start ∧ r.stop < d.stop) ∨ r.start = d.stop := by
  simp only [Straddles, Range.Meets]
  grind

theorem addressRanges_eq_none_iff {t : PortTable α ι} {id : PortId ι} :
    t.addressRanges id = none ↔ ∃ e ∈ t.portMap.tree, ∃ d ∈ t.defaultRange, Straddles e.1 d := by
  simp only [addressRanges]
  split_ifs with h <;> simp [h]

/-- The ranges a peer is told: those of the default device and, of the other
    devices but the peer itself, those that do not lie in one of these. -/
theorem mem_addressRanges {t : PortTable α ι} {id : PortId ι} {ranges : List (Range α)} {snoop : Bool}
    (h : t.addressRanges id = some (ranges, snoop)) {r : Range α} :
    r ∈ ranges ↔ r ∈ t.defaultRange ∨
      ∃ i, PortId.iface i ≠ id ∧ (r, i) ∈ t.portMap.tree ∧ ∀ d ∈ t.defaultRange, ¬ Subset r d := by
  simp only [addressRanges] at h
  split_ifs at h
  obtain ⟨rfl, -⟩ := Prod.mk.inj (Option.some.inj h)
  simp only [List.mem_append, List.mem_map, List.mem_filter, decide_eq_true_eq, Prod.exists,
    not_exists, not_and]
  refine or_congr_right ⟨?_, ?_⟩
  · rintro ⟨r, i, ⟨hm, hi, hd⟩, rfl⟩
    exact ⟨i, hi, hm, hd⟩
  · rintro ⟨i, hi, hm, hd⟩
    exact ⟨r, i, ⟨hm, hi, hd⟩, rfl⟩

/-- In every run in which no two devices announce the same address: what the bus
    announces to a peer are the addresses it sends to the default device or to
    another one, and it gives up exactly when a device's range meets one of the
    default device's, is not a part of it that ends before it does, and does not
    start with its last address. -/
theorem announces_what_it_routes (responderSet : Bool) (acts : List (Act α ι))
    (h : Runs.Guarded PortTable.step Enabled { table := { responderSet } } acts) :
    Runs.Along PortTable.step
      (fun s : Hist α ι => ∀ id : PortId ι,
        (∀ ranges snoop, s.table.addressRanges id = some (ranges, snoop) →
          ∀ a, (∃ r ∈ ranges, r.Has a) ↔ (∃ d ∈ s.table.defaultRange, d.Has a) ∨
            ∃ i, PortId.iface i ≠ id ∧ (s.table.findPort a).2 = some (.iface i)) ∧
        (s.table.addressRanges id = none ↔
          ∃ i, ∃ r ∈ s.announced (.iface i), ∃ d ∈ s.table.defaultRange, r.Meets d ∧
            ¬ (d.start ≤ r.start ∧ r.stop < d.stop) ∧ r.start ≠ d.stop))
      { table := { responderSet } } acts := by
  have hrun := Runs.along_of_guarded (fun _ _ hs he => Routed.step hs he) acts _
    (routed_initial responderSet) h
  refine Runs.along_mono (fun s hs id => ⟨fun ranges snoop hres a => ?_, ?_⟩) acts _ hrun
  · constructor
    · rintro ⟨r, hr, ha⟩
      rcases (mem_addressRanges hres).1 hr with hr | ⟨i, hi, hm, -⟩
      · exact .inl ⟨r, hr, ha⟩
      · exact .inr ⟨i, hi, hs.findPort_iface.2 ⟨r, (hs.entries _).1 hm, ha⟩⟩
    · rintro (⟨d, hd, ha⟩ | ⟨i, hi, hf⟩)
      · exact ⟨d, (mem_addressRanges hres).2 (.inl hd), ha⟩
      · obtain ⟨r, hr, ha⟩ := hs.findPort_iface.1 hf
        by_cases hsub : ∃ d ∈ s.table.defaultRange, Subset r d
        · -- the range is left out, but the default one it lies in has the address
          obtain ⟨d, hd, hrd⟩ := hsub
          exact ⟨d, (mem_addressRanges hres).2 (.inl hd), hrd.1.trans ha.1, ha.2.trans hrd.2⟩
        · refine ⟨r, (mem_addressRanges hres).2 (.inr ⟨i, hi, (hs.entries (r, i)).2 hr, ?_⟩), ha⟩
          exact fun d hd hrd => hsub ⟨d, hd, hrd⟩
  · have hproper : ∀ d ∈ s.table.defaultRange, d.start ≤ d.stop := by
      intro d hd
      rw [hs.defaults] at hd
      split_ifs at hd
      · exact hs.properDefaults d hd
      · cases hd
    rw [addressRanges_eq_none_iff]
    constructor
    · rintro ⟨e, he, d, hd, hst⟩
      have hst := (not_iff_not.2 (not_straddles_iff (hproper d hd))).1 (not_not.2 hst)
      push Not at hst
      exact ⟨e.2, e.1, (hs.entries e).1 he, d, hd, hst.1, fun h => hst.2.1 h.1 |>.not_gt h.2, hst.2.2⟩
    · rintro ⟨i, r, hr, d, hd, hm, hin, hne⟩
      refine ⟨(r, i), (hs.entries (r, i)).2 hr, d, hd, ?_⟩
      by_contra hst
      rcases (not_straddles_iff (hproper d hd)).1 hst with h | h | h
      · exact h hm
      · exact hin h
      · exact hne h

/-- A device inside of the default device's range, and one outside of it. -/
def withDefault : List (Act Nat (Fin 3)) :=
  [.status .default [⟨0, 19⟩] false, .status (.iface 0) [⟨0, 9⟩] false, .status (.iface 1) [⟨20, 29⟩] false]

theorem announces_what_it_routes_with_default :
    Runs.Guarded PortTable.step Enabled { table := { responderSet := true } } withDefault ∧
      ∀ a, (a ≤ 19 ∨ 20 ≤ a ∧ a ≤ 29) ↔ a ≤ 19 ∨ ∃ i : Fin 3, PortId.iface i ≠ .iface 2 ∧
        ((Runs.exec PortTable.step { table := { responderSet := true } } withDefault).table.findPort a).2 =
          some (.iface i) := by
  have hg : Runs.Guarded PortTable.step Enabled { table := { responderSet := true } } withDefault := by
    decide
  refine ⟨hg, fun a => ?_⟩
  have hall := Runs.along_exec _ _ (announces_what_it_routes true withDefault hg) (.iface 2)
  have hres : (Runs.exec PortTable.step { table := { responderSet := true } } withDefault).table.addressRanges
      (.iface 2) = some ([⟨0, 19⟩, ⟨20, 29⟩], false) := by decide
  have hdef : (Runs.exec PortTable.step { table := { responderSet := true } } withDefault).table.defaultRange =
      [⟨0, 19⟩] := by decide
  have key := hall.1 _ _ hres a
  rw [hdef] at key
  simpa [Range.Has] using key

theorem recvStatusChange_one {t : PortTable α ι} {id : ι} {r : Range α} {snoops : Bool} :
    (t.recvStatusChange (.iface id) [r] snoops).isSome ↔
      ((t.portMap.eraseIf (· = id)).insert r id).isSome := by
  simp only [recvStatusChange, clearPortCache, insertAll, Option.isSome_map]
  cases (t.portMap.eraseIf (· = id)).insert r id <;> rfl

/-- The table after a device announced one range: what it had before is gone,
    the cache is empty. -/
theorem recvStatusChange_one_some {t t' : PortTable α ι} {id : ι} {r : Range α} {snoops : Bool}
    (h : t.recvStatusChange (.iface id) [r] snoops = some t') :
    (t.portMap.eraseIf (· = id)).insert r id = some t'.portMap ∧ t'.portCache = [] := by
  obtain ⟨m, hm, rfl⟩ := Option.map_eq_some_iff.1 h
  obtain ⟨m₁, hm₁, hm₂⟩ := Option.bind_eq_some_iff.1 hm
  exact ⟨hm₁.trans hm₂, rfl⟩

omit [DecidableEq ι] in
theorem findPort_fresh {t : PortTable α ι} (h : t.portCache = []) (a : α) :
    t.findPort a = match t.portMap.find (.single a) with
      | some e => (t.updatePortCache e, some (.iface e.2))
      | none => (t, t.findDefault a) := by
  simp [findPort, checkPortCache, h]

omit [DecidableEq ι] in
/-- The entries after a range went in that meets some of them. -/
theorem missed_entries {m m' : RangeMap α ι} (hs : m.Sound) {r : Range α} (hr : r.start ≤ r.stop) {id : ι}
    (h : m.insert r id = some m') :
    m.find r = none ∧ ∀ e, e ∈ m'.tree ↔ e = (r, id) ∨ e ∈ m.tree := by
  simp only [RangeMap.insert] at h
  split_ifs at h with hf
  have hf : m.find r = none := by simpa using hf
  obtain rfl := Option.some.inj h
  refine ⟨hf, fun e => RangeMap.mem_place_iff fun x hx hxr => ?_⟩
  have hlt := hs.lt_start_of_missed hf hx ⟨hxr.trans_le hr, hxr.symm.trans_le (hs.proper x hx)⟩
  exact absurd hxr hlt.ne'

end runs

end PortTable
end PrefetchSim
