import Mathlib.Data.List.Basic
import Mathlib.Logic.Function.Basic

/- A memory behind a write-back cache.

   What a key holds may be in the cache, in the writes that wait for the memory
   (oldest first) and in the memory, and the uppermost of these is what is seen.
   The cache may also have a request out that reads a key from the memory; its
   answer is what the memory held when the request got there. A `Move` is one
   thing the cache can do, with the writes it takes in from above.

   `Good` is the invariant of the moves: a clean copy is the same as what is
   below it, and while a request for a key is out nothing waits to be written to
   that key. It follows that moves change what is seen of a key only by the
   writes to it (`Moves.seen_eq`). The conditions on the moves are the point: a
   fill must find no copy, a request must not overtake a write, and a write must
   not pass a request on its way down. -/
namespace Layers

variable {K V : Type*}

/-- A request that reads a key from the memory: none, not sent, or on its way
back with this answer. -/
inductive Fetch (V : Type*) where
  | idle
  | waiting
  | answered (v : V)

/-- The request as far as the memory has seen it. -/
def Fetch.sent {V : Type*} : Fetch V → Fetch V
  | .answered v => .answered v
  | _ => .idle

@[ext] structure Store (K V : Type*) where
  /-- the copy in the cache, and whether it is dirty -/
  cached : K → Option (V × Bool)
  pending : List (K × V)
  memory : K → V
  fetch : K → Fetch V

section

variable [DecidableEq K]

/-- The memory after these writes, in order. -/
def settled (memory : K → V) (ws : List (K × V)) : K → V :=
  ws.foldl (fun m w => Function.update m w.1 w.2) memory

namespace Store

/-- What the levels below the cache hold. -/
def below (s : Store K V) : K → V := settled s.memory s.pending

def seen (s : Store K V) (k : K) : V := ((s.cached k).map Prod.fst).getD (s.below k)

/-- `p` holds of everything that is stored. -/
structure All (p : V → Prop) (s : Store K V) : Prop where
  cached : ∀ k c, s.cached k = some c → p c.1
  pending : ∀ w ∈ s.pending, p w.2
  memory : ∀ k, p (s.memory k)
  fetch : ∀ k v, s.fetch k = .answered v → p v

structure Good (s : Store K V) : Prop where
  clean : ∀ k v, s.cached k = some (v, false) → s.below k = v
  clear : ∀ k, s.fetch k ≠ .idle → ∀ w ∈ s.pending, w.1 ≠ k
  fresh : ∀ k v, s.fetch k = .answered v → s.memory k = v

end Store

/-- The moves, labelled by the writes they take in. -/
inductive Move (s : Store K V) : List (K × V) → Store K V → Prop where
  | write (k : K) (v : V) :
      Move s [(k, v)] { s with cached := Function.update s.cached k (some (v, true)) }
  /-- a write that finds no room in the cache goes to the writes that wait -/
  | post (k : K) (v : V) (absent : s.cached k = none) (idle : s.fetch k = .idle) :
      Move s [(k, v)] { s with pending := s.pending ++ [(k, v)] }
  | evict (k : K) (v : V) (dirty : Bool) (held : s.cached k = some (v, dirty))
      (idle : s.fetch k = .idle) :
      Move s [] { s with
        cached := Function.update s.cached k none
        pending := s.pending ++ if dirty then [(k, v)] else [] }
  | drain (l : List (K × V)) (k : K) (v : V) (l' : List (K × V)) (split : s.pending = l ++ (k, v) :: l')
      (first : ∀ w ∈ l, w.1 ≠ k) :
      Move s [] { s with pending := l ++ l', memory := Function.update s.memory k v }
  | ask (k : K) (clear : ∀ w ∈ s.pending, w.1 ≠ k) :
      Move s [] { s with fetch := Function.update s.fetch k .waiting }
  | send (k : K) (asked : s.fetch k = .waiting) :
      Move s [] { s with fetch := Function.update s.fetch k (.answered (s.memory k)) }
  | fill (k : K) (v : V) (absent : s.cached k = none) (answer : s.fetch k = .answered v) :
      Move s [] { s with
        cached := Function.update s.cached k (some (v, false))
        fetch := Function.update s.fetch k .idle }
  | cancel (k : K) : Move s [] { s with fetch := Function.update s.fetch k .idle }

inductive Moves : Store K V → List (K × V) → Store K V → Prop where
  | refl (s : Store K V) : Moves s [] s
  | tail {s s' s'' : Store K V} {ws ws' : List (K × V)} (h : Moves s ws s') (m : Move s' ws' s'') :
      Moves s (ws ++ ws') s''

theorem Move.one {s s' : Store K V} {ws : List (K × V)} (h : Move s ws s') : Moves s ws s' :=
  .tail (.refl s) h

theorem Moves.trans {s s' s'' : Store K V} {ws ws' : List (K × V)} (h : Moves s ws s')
    (h' : Moves s' ws' s'') : Moves s (ws ++ ws') s'' := by
  induction h' with
  | refl => simpa using h
  | tail _ m ih =>
    rw [← List.append_assoc]
    exact ih.tail m

/-! ## Writes in order -/

theorem settled_append (m : K → V) (ws : List (K × V)) (k : K) (v : V) :
    settled m (ws ++ [(k, v)]) = Function.update (settled m ws) k v := by
  simp [settled]

/-- A write may be done before earlier writes to other keys. -/
theorem settled_drain {l : List (K × V)} {k : K} (first : ∀ w ∈ l, w.1 ≠ k) (m : K → V) (v : V)
    (l' : List (K × V)) : settled (Function.update m k v) (l ++ l') = settled m (l ++ (k, v) :: l') := by
  induction l generalizing m with
  | nil => rfl
  | cons w l ih =>
    have hne : w.1 ≠ k := first w (List.mem_cons_self ..)
    show settled (Function.update (Function.update m k v) w.1 w.2) (l ++ l') = _
    rw [Function.update_comm hne.symm]
    exact ih (fun w' hw' => first w' (List.mem_cons_of_mem _ hw')) _

theorem settled_of_clear {ws : List (K × V)} {k : K} (h : ∀ w ∈ ws, w.1 ≠ k) (m : K → V) :
    settled m ws k = m k := by
  induction ws generalizing m with
  | nil => rfl
  | cons w ws ih =>
    have hne : w.1 ≠ k := h w (List.mem_cons_self ..)
    show settled (Function.update m w.1 w.2) ws k = m k
    rw [ih (fun w' hw' => h w' (List.mem_cons_of_mem _ hw')), Function.update_of_ne hne.symm]

/-- The memory holds of a key what was written to it last. -/
theorem settled_eq (m : K → V) (ws : List (K × V)) (k : K) :
    settled m ws k = ((ws.reverse.find? fun w => decide (w.1 = k)).map Prod.snd).getD (m k) := by
  induction ws generalizing m with
  | nil => rfl
  | cons w ws ih =>
    show settled (Function.update m w.1 w.2) ws k = _
    rw [ih, List.reverse_cons, List.find?_append]
    cases ws.reverse.find? fun w => decide (w.1 = k) with
    | some w' => rfl
    | none =>
      by_cases hk : w.1 = k
      · subst hk
        simp
      · simp [hk, Function.update_of_ne (Ne.symm hk)]

/-! ## What the moves keep -/

section

variable {s s' : Store K V} {ws : List (K × V)}

/-- What is stored after an update was there before or has been written. -/
theorem update_cases {α : Type*} {f : K → α} {k k' : K} {a b : α} (h : Function.update f k a k' = b) :
    (k' = k ∧ a = b) ∨ (k' ≠ k ∧ f k' = b) := by
  by_cases hk : k' = k
  · subst hk
    rw [Function.update_self] at h
    exact .inl ⟨rfl, h⟩
  · rw [Function.update_of_ne hk] at h
    exact .inr ⟨hk, h⟩

theorem Move.all {p : V → Prop} (h : Move s ws s') (hs : s.All p) (hw : ∀ w ∈ ws, p w.2) : s'.All p := by
  have hfetch : ∀ (k k' : K) (f : Fetch V) v, (∀ v', f = .answered v' → p v') →
      Function.update s.fetch k f k' = .answered v → p v := by
    intro k k' f v hf hv
    rcases update_cases hv with ⟨-, hv⟩ | ⟨-, hv⟩
    · exact hf v hv
    · exact hs.fetch k' v hv
  cases h with
  | write k v =>
    refine ⟨?_, hs.pending, hs.memory, hs.fetch⟩
    intro k' c hc
    rcases update_cases hc with ⟨-, hc⟩ | ⟨-, hc⟩
    · cases hc
      exact hw (k, v) (List.mem_singleton.2 rfl)
    · exact hs.cached k' c hc
  | post k v _ _ =>
    refine ⟨hs.cached, ?_, hs.memory, hs.fetch⟩
    intro w hmem
    rcases List.mem_append.1 hmem with hmem | hmem
    · exact hs.pending w hmem
    · exact hw w hmem
  | evict k v dirty held _ =>
    refine ⟨?_, ?_, hs.memory, hs.fetch⟩
    · intro k' c hc
      rcases update_cases hc with ⟨-, hc⟩ | ⟨-, hc⟩
      · cases hc
      · exact hs.cached k' c hc
    · intro w hmem
      rcases List.mem_append.1 hmem with hmem | hmem
      · exact hs.pending w hmem
      · cases dirty with
        | false => cases hmem
        | true =>
          rw [List.mem_singleton.1 hmem]
          exact hs.cached k _ held
  | drain l k v l' split _ =>
    have hpending := hs.pending
    rw [split] at hpending
    refine ⟨hs.cached, ?_, ?_, hs.fetch⟩
    · intro w hmem
      apply hpending
      exact (List.mem_append.1 hmem).elim (List.mem_append_left _)
        fun h => List.mem_append_right _ (List.mem_cons_of_mem _ h)
    · intro k'
      show p (Function.update s.memory k v k')
      rcases update_cases (rfl : Function.update s.memory k v k' = _) with ⟨-, hv⟩ | ⟨-, hv⟩
      · rw [← hv]
        exact hpending (k, v) (List.mem_append_right _ (List.mem_cons_self ..))
      · rw [← hv]
        exact hs.memory k'
  | ask k _ => exact ⟨hs.cached, hs.pending, hs.memory, fun k' v => hfetch k k' _ v (by simp)⟩
  | send k _ =>
    refine ⟨hs.cached, hs.pending, hs.memory, fun k' v => hfetch k k' _ v ?_⟩
    rintro _ ⟨⟩
    exact hs.memory k
  | fill k v _ answer =>
    refine ⟨?_, hs.pending, hs.memory, fun k' v => hfetch k k' _ v (by simp)⟩
    intro k' c hc
    rcases update_cases hc with ⟨-, hc⟩ | ⟨-, hc⟩
    · cases hc
      exact hs.fetch k v answer
    · exact hs.cached k' c hc
  | cancel k => exact ⟨hs.cached, hs.pending, hs.memory, fun k' v => hfetch k k' _ v (by simp)⟩

namespace Store.Good

/-- The copy of a key may change to a dirty one, to what is below, or to none. -/
theorem setCached (hs : s.Good) (k : K) {o : Option (V × Bool)}
    (h : ∀ v, o = some (v, false) → s.below k = v) :
    { s with cached := Function.update s.cached k o }.Good where
  clean k' v hc := by
    rcases update_cases hc with ⟨rfl, ho⟩ | ⟨-, hc⟩
    · exact h v ho
    · exact hs.clean k' v hc
  clear := hs.clear
  fresh := hs.fresh

theorem setFetch (hs : s.Good) (k : K) {f : Fetch V} (hclear : f ≠ .idle → ∀ w ∈ s.pending, w.1 ≠ k)
    (hfresh : ∀ v, f = .answered v → s.memory k = v) :
    { s with fetch := Function.update s.fetch k f }.Good where
  clean := hs.clean
  clear k' hk' := by
    rcases update_cases (rfl : Function.update s.fetch k f k' = _) with ⟨rfl, hf⟩ | ⟨-, hf⟩
    · exact hclear (hf ▸ hk')
    · exact hs.clear k' (hf ▸ hk')
  fresh k' v hv := by
    rcases update_cases hv with ⟨rfl, hf⟩ | ⟨-, hf⟩
    · exact hfresh v hf
    · exact hs.fresh k' v hf

/-- A write may be put behind the others if it has no clean copy above it and no
request for its key is out. -/
theorem push (hs : s.Good) {k : K} (v : V) (above : ∀ v', s.cached k ≠ some (v', false))
    (idle : s.fetch k = .idle) : { s with pending := s.pending ++ [(k, v)] }.Good where
  clean k' v' hc := by
    have hk : k' ≠ k := by
      rintro rfl
      exact above v' hc
    show settled s.memory (s.pending ++ [(k, v)]) k' = v'
    rw [settled_append, Function.update_of_ne hk]
    exact hs.clean k' v' hc
  clear k' hk' w hw := by
    rcases List.mem_append.1 hw with hw | hw
    · exact hs.clear k' hk' w hw
    · rw [List.mem_singleton.1 hw]
      rintro rfl
      exact hk' idle
  fresh := hs.fresh

end Store.Good

theorem Move.good (h : Move s ws s') (hs : s.Good) : s'.Good := by
  cases h with
  | write k v => exact hs.setCached k (by simp)
  | post k v absent idle => exact hs.push v (by simp [absent]) idle
  | evict k v dirty held idle =>
    have hnone := hs.setCached k (by simp : ∀ v : V, none = some (v, false) → s.below k = v)
    cases dirty with
    | false => simpa using hnone
    | true => exact hnone.push v (by simp) idle
  | drain l k v l' split first =>
    have hbelow : settled (Function.update s.memory k v) (l ++ l') = s.below := by
      rw [settled_drain first, ← split]
      rfl
    refine ⟨?_, ?_, ?_⟩
    · intro k' v' hc
      exact (congrFun hbelow k').trans (hs.clean k' v' hc)
    · intro k' hk' w hw
      apply hs.clear k' hk'
      rw [split]
      exact (List.mem_append.1 hw).elim (List.mem_append_left _)
        fun h => List.mem_append_right _ (List.mem_cons_of_mem _ h)
    · intro k' v' hf
      -- the key that is written has no request out
      have hk : k' ≠ k := by
        rintro rfl
        refine hs.clear k' (by rw [show s.fetch k' = _ from hf]; simp) (k', v) ?_ rfl
        rw [split]
        exact List.mem_append_right _ (List.mem_cons_self ..)
      exact (Function.update_of_ne hk ..).trans (hs.fresh k' v' hf)
  | ask k clear => exact hs.setFetch k (fun _ => clear) (by simp)
  | send k asked =>
    refine hs.setFetch k (fun _ => hs.clear k (by rw [asked]; simp)) ?_
    rintro _ ⟨⟩
    rfl
  | fill k v _ answer =>
    refine (hs.setCached k ?_).setFetch k (by simp) (by simp)
    rintro _ ⟨⟩
    show settled s.memory s.pending k = v
    rw [settled_of_clear (hs.clear k (by rw [answer]; simp))]
    exact hs.fresh k v answer
  | cancel k => exact hs.setFetch k (by simp) (by simp)

/-- A copy becomes dirty by a write only. -/
theorem Move.dirty (h : Move s ws s') {k : K} {v : V} (hc : s'.cached k = some (v, true)) :
    s.cached k = some (v, true) ∨ (k, v) ∈ ws := by
  cases h with
  | write k' v' =>
    rcases update_cases hc with ⟨rfl, ho⟩ | ⟨-, hc⟩
    · cases ho
      exact .inr (List.mem_singleton.2 rfl)
    · exact .inl hc
  | evict k' v' dirty held idle =>
    rcases update_cases hc with ⟨-, ho⟩ | ⟨-, hc⟩
    · cases ho
    · exact .inl hc
  | fill k' v' absent answer =>
    rcases update_cases hc with ⟨-, ho⟩ | ⟨-, hc⟩
    · cases ho
    · exact .inl hc
  | post => exact .inl hc
  | drain => exact .inl hc
  | ask => exact .inl hc
  | send => exact .inl hc
  | cancel => exact .inl hc

/-- A move changes what is seen by its writes only. -/
theorem Move.seen_eq (h : Move s ws s') (hs : s.Good) : s'.seen = settled s.seen ws := by
  funext k'
  cases h with
  | write k v =>
    by_cases hk : k' = k
    · subst hk
      simp [Store.seen, settled]
    · simp [Store.seen, settled, Store.below, hk]
  | post k v absent _ =>
    by_cases hk : k' = k
    · subst hk
      simp [Store.seen, settled, Store.below, absent]
    · simp [Store.seen, settled, Store.below, hk]
  | evict k v dirty held _ =>
    by_cases hk : k' = k
    · subst hk
      cases dirty with
      | false =>
        simpa [Store.seen, settled, held, Store.below] using hs.clean k' v held
      | true => simp [Store.seen, settled, held, Store.below]
    · cases dirty <;> simp [Store.seen, settled, Store.below, hk]
  | drain l k v l' split first =>
    have hbelow : settled (Function.update s.memory k v) (l ++ l') = settled s.memory s.pending := by
      rw [settled_drain first, ← split]
    exact congrArg ((s.cached k').map Prod.fst).getD (congrFun hbelow k')
  | fill k v absent answer =>
    by_cases hk : k' = k
    · subst hk
      have hclear := settled_of_clear (hs.clear k' (by rw [answer]; simp)) s.memory
      simp [Store.seen, settled, absent]
      exact ((hclear.trans (hs.fresh k' v answer)).symm)
    · simp [Store.seen, settled, Store.below, hk]
  | ask k _ => rfl
  | send k _ => rfl
  | cancel k => rfl

theorem Moves.good (h : Moves s ws s') (hs : s.Good) : s'.Good := by
  induction h with
  | refl => exact hs
  | tail _ m ih => exact m.good ih

theorem Moves.dirty (h : Moves s ws s') {k : K} {v : V} (hc : s'.cached k = some (v, true)) :
    s.cached k = some (v, true) ∨ (k, v) ∈ ws := by
  induction h with
  | refl => exact .inl hc
  | tail _ m ih =>
    rcases m.dirty hc with hc | hw
    · exact (ih hc).imp_right (List.mem_append_left _)
    · exact .inr (List.mem_append_right _ hw)

theorem Moves.all {p : V → Prop} (h : Moves s ws s') (hs : s.All p) (hw : ∀ w ∈ ws, p w.2) : s'.All p := by
  induction h with
  | refl => exact hs
  | tail _ m ih =>
    exact m.all (ih fun w h' => hw w (List.mem_append_left _ h')) fun w h' => hw w (List.mem_append_right _ h')

theorem Moves.seen_eq (h : Moves s ws s') (hs : s.Good) : s'.seen = settled s.seen ws := by
  induction h with
  | refl => rfl
  | tail h m ih =>
    rw [m.seen_eq (h.good hs), ih]
    simp [settled]

/-- A copy that is held is written, or stays as it is. -/
theorem Moves.touch (s : Store K V) {k : K} {v : V} (v' : V) {dirty dirty' : Bool}
    (held : s.cached k = some (v, dirty)) (h : dirty' = true ∨ (dirty' = dirty ∧ v' = v)) :
    ∃ ws, Moves s ws { s with cached := Function.update s.cached k (some (v', dirty')) } ∧
      (∀ w ∈ ws, w.2 = v') ∧ settled s.seen ws = Function.update s.seen k v' := by
  rcases h with rfl | ⟨rfl, rfl⟩
  · exact ⟨[(k, v')], (Move.write k v').one, by simp, rfl⟩
  · refine ⟨[], ?_, by simp, ?_⟩
    · rw [← held, Function.update_eq_self]
      exact .refl s
    · have hseen : s.seen k = v' := by simp [Store.seen, held]
      rw [← hseen, Function.update_eq_self]
      rfl

/-- What a request that is out reads is what is seen of its key. -/
theorem Store.Good.seen_answered (hs : s.Good) {k : K} {v : V} (absent : s.cached k = none)
    (answer : s.fetch k = .answered v) : s.seen k = v := by
  have hbelow : s.below k = s.memory k := settled_of_clear (hs.clear k (by rw [answer]; simp)) s.memory
  simp only [Store.seen, absent, Option.map_none, Option.getD_none]
  rw [hbelow, hs.fresh k v answer]

end

end

end Layers
