import Mathlib.Data.Finset.Card
import Mathlib.Data.List.Nodup
import Mathlib.Logic.Relation

/- Outstanding requests and their history. A client marks keys and issues
   requests for them; each request is outstanding until it completes, which
   takes its mark away, or is dropped for some cause, which does not. The log
   records these events in order. `Move` lists what can happen to such a book,
   and `Good` is what every sequence of moves keeps: requests for distinct
   marked keys, a bounded number of marks, and a log from which the outstanding
   requests can be read off (`Open`: accepted, and nothing since). The mark of a
   request that was dropped stays (`Unfinished`). -/
namespace Ledger

variable {κ α : Type*}

inductive Event (κ α : Type*) where
  | accepted (key : α)
  | completed (key : α)
  | dropped (cause : κ) (key : α)
  deriving DecidableEq, Repr

def Event.key : Event κ α → α
  | .accepted a => a
  | .completed a => a
  | .dropped _ a => a

/-- A request for `a` was accepted, and only events with `p` have happened since. -/
def Since (p : Event κ α → Prop) (log : List (Event κ α)) (a : α) : Prop :=
  ∃ before after, log = before ++ .accepted a :: after ∧ ∀ e ∈ after, p e

/-- A request for `a` was accepted, and nothing has happened to it since. -/
def Open (log : List (Event κ α)) (a : α) : Prop := Since (fun e => e.key ≠ a) log a

/-- A request for `a` was accepted, and has not completed since. -/
def Unfinished (log : List (Event κ α)) (a : α) : Prop := Since (fun e => e ≠ .completed a) log a

theorem since_cons {p : Event κ α → Prop} {log : List (Event κ α)} {e : Event κ α} {a : α} :
    Since p (e :: log) a ↔ (e = .accepted a ∧ ∀ e' ∈ log, p e') ∨ Since p log a := by
  constructor
  · intro ⟨before, after, hlog, hafter⟩
    cases before with
    | nil =>
      cases hlog
      exact .inl ⟨rfl, hafter⟩
    | cons e' before =>
      cases hlog
      exact .inr ⟨before, after, rfl, hafter⟩
  · rintro (⟨rfl, hafter⟩ | ⟨before, after, rfl, hafter⟩)
    · exact ⟨[], log, rfl, hafter⟩
    · exact ⟨e :: before, after, rfl, hafter⟩

theorem not_since_nil (p : Event κ α → Prop) (a : α) : ¬Since p [] a := by
  intro ⟨before, after, h, _⟩
  simp at h

/-- How one more event changes what has happened since. -/
theorem since_append {p : Event κ α → Prop} {log : List (Event κ α)} {e : Event κ α} {a : α} :
    Since p (log ++ [e]) a ↔ e = .accepted a ∨ (p e ∧ Since p log a) := by
  constructor
  · intro ⟨before, after, hlog, hafter⟩
    rcases after.eq_nil_or_concat with rfl | ⟨init, last, rfl⟩
    · have := List.append_inj' hlog rfl
      simp only [List.cons.injEq, and_true] at this
      exact .inl this.2
    · have hsplit : log ++ [e] = (before ++ .accepted a :: init) ++ [last] := by
        rw [hlog, List.concat_eq_append]
        simp
      have := List.append_inj' hsplit rfl
      simp only [List.cons.injEq, and_true] at this
      obtain ⟨rfl, rfl⟩ := this
      refine .inr ⟨hafter e (by simp), before, init, rfl, ?_⟩
      intro e' he'
      exact hafter e' (by simp [he'])
  · rintro (rfl | ⟨hkey, before, after, rfl, hafter⟩)
    · exact ⟨log, [], by simp, by simp⟩
    · refine ⟨before, after ++ [e], by simp, ?_⟩
      intro e' he'
      rcases List.mem_append.1 he' with h | h
      · exact hafter e' h
      · rw [List.mem_singleton.1 h]
        exact hkey

/-- What leaves the outstanding requests is not open any more. -/
theorem open_closed {log : List (Event κ α)} {out : List α} {a : α} {e : Event κ α}
    (hopen : ∀ a', Open log a' ↔ a' ∈ a :: out) (hfresh : a ∉ out) (hkey : e.key = a)
    (he : ∀ a', e ≠ .accepted a') (a' : α) : Open (log ++ [e]) a' ↔ a' ∈ out := by
  rw [Open, since_append, ← Open, hopen, hkey, List.mem_cons]
  constructor
  · rintro (h | ⟨hne, h⟩)
    · exact absurd h (he a')
    · exact h.resolve_left (Ne.symm hne)
  · intro h
    exact .inr ⟨fun e => hfresh (e ▸ h), .inr h⟩

instance decSince [DecidableEq κ] [DecidableEq α] {p : Event κ α → Prop} [DecidablePred p] :
    ∀ (log : List (Event κ α)) (a : α), Decidable (Since p log a)
  | [], a => isFalse (not_since_nil p a)
  | _ :: log, a =>
    have : Decidable (Since p log a) := decSince log a
    decidable_of_iff' _ since_cons

instance [DecidableEq κ] [DecidableEq α] (log : List (Event κ α)) (a : α) :
    Decidable (Unfinished log a) :=
  inferInstanceAs (Decidable (Since _ log a))

structure Book (κ α : Type*) where
  out : List α
  marked : Finset α
  log : List (Event κ α)

variable {allowed : κ → Prop} {bound : Nat}

structure Good (allowed : κ → Prop) (bound : Nat) (b : Book κ α) : Prop where
  nodup : b.out.Nodup
  marked : ∀ a ∈ b.out, a ∈ b.marked
  bounded : b.marked.card ≤ bound
  open_iff : ∀ a, Open b.log a ↔ a ∈ b.out
  unfinished : ∀ a, Unfinished b.log a → a ∈ b.marked
  causes : ∀ c a, .dropped c a ∈ b.log → allowed c

theorem good_empty : Good allowed bound (⟨[], ∅, []⟩ : Book κ α) where
  nodup := List.nodup_nil
  marked a ha := by simp at ha
  bounded := by simp
  open_iff a := iff_of_false (not_since_nil _ a) (by simp)
  unfinished a h := absurd h (not_since_nil _ a)
  causes c a h := by simp at h

variable [DecidableEq α]

/-- What can happen to a book, with drops for allowed causes only. -/
inductive Move (allowed : κ → Prop) (bound : Nat) : Book κ α → Book κ α → Prop where
  | shuffle {out out' : List α} {marked : Finset α} {log : List (Event κ α)} (same : out.Perm out') :
      Move allowed bound ⟨out, marked, log⟩ ⟨out', marked, log⟩
  | mark {out : List α} {marked marked' : Finset α} {log : List (Event κ α)} (more : marked ⊆ marked')
      (room : marked.card ≤ bound → marked'.card ≤ bound) :
      Move allowed bound ⟨out, marked, log⟩ ⟨out, marked', log⟩
  | accept {out : List α} {marked : Finset α} {log : List (Event κ α)} (a : α) (fresh : a ∉ out)
      (mark : a ∈ marked) :
      Move allowed bound ⟨out, marked, log⟩ ⟨a :: out, marked, log ++ [.accepted a]⟩
  | complete {out : List α} {marked : Finset α} {log : List (Event κ α)} (a : α) :
      Move allowed bound ⟨a :: out, marked, log⟩ ⟨out, marked.erase a, log ++ [.completed a]⟩
  | drop {out : List α} {marked : Finset α} {log : List (Event κ α)} (a : α) (c : κ) (ok : allowed c) :
      Move allowed bound ⟨a :: out, marked, log⟩ ⟨out, marked, log ++ [.dropped c a]⟩

/-- Sequences of moves. -/
abbrev Moves (allowed : κ → Prop) (bound : Nat) : Book κ α → Book κ α → Prop :=
  Relation.ReflTransGen (Move allowed bound)

theorem Move.good {b b' : Book κ α} (h : Move allowed bound b b') (hb : Good allowed bound b) :
    Good allowed bound b' := by
  cases h with
  | shuffle same =>
    exact ⟨same.nodup_iff.1 hb.nodup, fun a ha => hb.marked a (same.mem_iff.2 ha), hb.bounded,
      fun a => (hb.open_iff a).trans same.mem_iff, hb.unfinished, hb.causes⟩
  | mark more room =>
    exact ⟨hb.nodup, fun a ha => more (hb.marked a ha), room hb.bounded, hb.open_iff,
      fun a ha => more (hb.unfinished a ha), hb.causes⟩
  | accept a fresh mark =>
    refine ⟨List.nodup_cons.2 ⟨fresh, hb.nodup⟩, ?_, hb.bounded, ?_, ?_, ?_⟩
    · intro a' ha'
      rcases List.mem_cons.1 ha' with rfl | h
      · exact mark
      · exact hb.marked a' h
    · intro a'
      rw [Open, since_append, ← Open, List.mem_cons, hb.open_iff]
      simp only [Event.accepted.injEq, Event.key]
      constructor
      · rintro (rfl | h)
        · exact .inl rfl
        · exact .inr h.2
      · rintro (rfl | h)
        · exact .inl rfl
        · exact .inr ⟨fun e => fresh (e ▸ h), h⟩
    · intro a' h
      rcases since_append.1 h with h | h
      · cases h
        exact mark
      · exact hb.unfinished a' h.2
    · intro c a' h
      exact hb.causes c a' (by simpa using h)
  | complete a =>
    obtain ⟨hfresh, hnodup⟩ := List.nodup_cons.1 hb.nodup
    refine ⟨hnodup, ?_, le_trans (Finset.card_erase_le) hb.bounded,
      open_closed hb.open_iff hfresh rfl (by simp), ?_, ?_⟩
    · intro a' ha'
      refine Finset.mem_erase.2 ⟨fun e => hfresh (e ▸ ha'), hb.marked a' (List.mem_cons_of_mem _ ha')⟩
    · intro a' h
      obtain ⟨hne, h⟩ := (since_append.1 h).resolve_left (by simp)
      refine Finset.mem_erase.2 ⟨?_, hb.unfinished a' h⟩
      rintro rfl
      exact hne rfl
    · intro c a' h
      exact hb.causes c a' (by simpa using h)
  | drop a c ok =>
    obtain ⟨hfresh, hnodup⟩ := List.nodup_cons.1 hb.nodup
    refine ⟨hnodup, fun a' ha' => hb.marked a' (List.mem_cons_of_mem _ ha'), hb.bounded,
      open_closed hb.open_iff hfresh rfl (by simp), ?_, ?_⟩
    · intro a' h
      exact hb.unfinished a' ((since_append.1 h).resolve_left (by simp)).2
    · intro c' a' h
      rcases List.mem_append.1 h with h | h
      · exact hb.causes c' a' h
      · cases List.mem_singleton.1 h
        exact ok

theorem Moves.drop_all {c : κ} (ok : allowed c) (l out : List α) (marked : Finset α)
    (log : List (Event κ α)) : Moves allowed bound ⟨l ++ out, marked, log⟩
      ⟨out, marked, log ++ l.map (.dropped c)⟩ := by
  induction l generalizing log with
  | nil => simpa using Relation.ReflTransGen.refl
  | cons a l ih =>
    have hrest := ih (log ++ [.dropped c a])
    rw [List.append_assoc, List.singleton_append, ← List.map_cons] at hrest
    exact Relation.ReflTransGen.head (.drop a c ok) hrest

/-- A marked key without a request leaves room for one more. -/
theorem Good.length_lt {b : Book κ α} (hb : Good allowed bound b) {a : α} (hmark : a ∈ b.marked)
    (hfresh : a ∉ b.out) : b.out.length < bound := by
  have hsub : b.out.toFinset ⊆ b.marked.erase a := by
    intro a' ha'
    rw [List.mem_toFinset] at ha'
    exact Finset.mem_erase.2 ⟨fun e => hfresh (e ▸ ha'), hb.marked a' ha'⟩
  have hcard := Finset.card_le_card hsub
  rw [List.toFinset_card_of_nodup hb.nodup, Finset.card_erase_of_mem hmark] at hcard
  have hpos := Finset.card_pos.2 ⟨a, hmark⟩
  have := hb.bounded
  omega

theorem Good.length_le {b : Book κ α} (hb : Good allowed bound b) : b.out.length ≤ b.marked.card := by
  rw [← List.toFinset_card_of_nodup hb.nodup]
  exact Finset.card_le_card fun a ha => hb.marked a (List.mem_toFinset.1 ha)

theorem Moves.good {b b' : Book κ α} (h : Moves allowed bound b b') (hb : Good allowed bound b) :
    Good allowed bound b' := by
  induction h with
  | refl => exact hb
  | tail _ hmove ih => exact hmove.good ih

/-! ## Lost marks -/

/-- The log has gone on, and no request for a key of `keys` was accepted. -/
def Extends (keys : α → Prop) (log log' : List (Event κ α)) : Prop :=
  ∃ new, log' = log ++ new ∧ ∀ a, keys a → .accepted a ∉ new

section

variable {keys : α → Prop} {log log' log'' : List (Event κ α)}

omit [DecidableEq α] in
theorem Extends.refl (keys : α → Prop) (log : List (Event κ α)) : Extends keys log log :=
  ⟨[], by simp, by simp⟩

omit [DecidableEq α] in
theorem Extends.trans (h : Extends keys log log') (h' : Extends keys log' log'') : Extends keys log log'' := by
  obtain ⟨new, rfl, hnew⟩ := h
  obtain ⟨new', rfl, hnew'⟩ := h'
  refine ⟨new ++ new', List.append_assoc .., fun a ha hmem => ?_⟩
  rcases List.mem_append.1 hmem with h | h
  · exact hnew a ha h
  · exact hnew' a ha h

omit [DecidableEq α] in
theorem Extends.append (h : Extends keys log log') {es : List (Event κ α)} (hes : ∀ a, keys a → .accepted a ∉ es) :
    Extends keys log (log' ++ es) :=
  h.trans ⟨es, rfl, hes⟩

end

/-- A key that is marked without a request stays so until a request for it is accepted. -/
theorem Move.lost {b b' : Book κ α} (h : Move allowed bound b b') {a : α} (hmark : a ∈ b.marked)
    (hout : a ∉ b.out) : ∃ new, b'.log = b.log ++ new ∧ (.accepted a ∉ new → a ∈ b'.marked ∧ a ∉ b'.out) := by
  cases h with
  | shuffle same => exact ⟨[], by simp, fun _ => ⟨hmark, fun h => hout (same.mem_iff.2 h)⟩⟩
  | mark more room => exact ⟨[], by simp, fun _ => ⟨more hmark, hout⟩⟩
  | accept a' fresh mark =>
    refine ⟨_, rfl, fun hnew => ⟨hmark, fun h => ?_⟩⟩
    rcases List.mem_cons.1 h with rfl | h
    · exact hnew List.mem_cons_self
    · exact hout h
  | complete a' =>
    have hne : a ≠ a' := fun e => hout (e ▸ List.mem_cons_self)
    exact ⟨_, rfl, fun _ => ⟨Finset.mem_erase.2 ⟨hne, hmark⟩, fun h => hout (List.mem_cons_of_mem _ h)⟩⟩
  | drop a' c ok => exact ⟨_, rfl, fun _ => ⟨hmark, fun h => hout (List.mem_cons_of_mem _ h)⟩⟩

theorem Moves.lost {b b' : Book κ α} (h : Moves allowed bound b b') {a : α} (hmark : a ∈ b.marked)
    (hout : a ∉ b.out) : ∃ new, b'.log = b.log ++ new ∧ (.accepted a ∉ new → a ∈ b'.marked ∧ a ∉ b'.out) := by
  induction h with
  | refl => exact ⟨[], by simp, fun _ => ⟨hmark, hout⟩⟩
  | @tail b₁ b₂ _ hmove ih =>
    obtain ⟨new, hlog, hkeep⟩ := ih
    by_cases hnew : .accepted a ∈ new
    · -- the log only grows
      obtain ⟨new', hlog'⟩ : ∃ new', b₂.log = b₁.log ++ new' := by
        cases hmove with
        | shuffle same => exact ⟨[], by simp⟩
        | mark more room => exact ⟨[], by simp⟩
        | accept a' fresh mark => exact ⟨_, rfl⟩
        | complete a' => exact ⟨_, rfl⟩
        | drop a' c ok => exact ⟨_, rfl⟩
      refine ⟨new ++ new', by rw [hlog', hlog, List.append_assoc], fun h => ?_⟩
      exact absurd (List.mem_append_left _ hnew) h
    · obtain ⟨hmark', hout'⟩ := hkeep hnew
      obtain ⟨new', hlog', hkeep'⟩ := hmove.lost hmark' hout'
      refine ⟨new ++ new', by rw [hlog', hlog, List.append_assoc], fun h => ?_⟩
      exact hkeep' fun h' => h (List.mem_append_right _ h')

theorem Moves.lost_of_extends {b b' : Book κ α} (h : Moves allowed bound b b') {a : α} (hmark : a ∈ b.marked)
    (hout : a ∉ b.out) {keys : α → Prop} (hlog : Extends keys b.log b'.log) (ha : keys a) :
    a ∈ b'.marked ∧ a ∉ b'.out := by
  obtain ⟨new, hnew, hkeep⟩ := h.lost hmark hout
  obtain ⟨new', hnew', hnone⟩ := hlog
  refine hkeep ?_
  rw [List.append_cancel_left (hnew.symm.trans hnew')]
  exact hnone a ha

/-- Marks without a request leave less room for requests. -/
theorem Good.length_add_card_le {b : Book κ α} (hb : Good allowed bound b) {lost : Finset α}
    (hmark : lost ⊆ b.marked) (hout : ∀ a ∈ lost, a ∉ b.out) : b.out.length + lost.card ≤ bound := by
  have hdisjoint : Disjoint b.out.toFinset lost :=
    Finset.disjoint_right.2 fun a ha h => hout a ha (List.mem_toFinset.1 h)
  rw [← List.toFinset_card_of_nodup hb.nodup, ← Finset.card_union_of_disjoint hdisjoint]
  refine Nat.le_trans (Finset.card_le_card ?_) hb.bounded
  intro a ha
  rcases Finset.mem_union.1 ha with h | h
  · exact hb.marked a (List.mem_toFinset.1 h)
  · exact hmark h

end Ledger
