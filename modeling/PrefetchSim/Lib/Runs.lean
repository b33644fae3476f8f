import Mathlib.Data.List.Basic

/- Runs of a deterministic step function. A run is a list of actions; `exec`
   is the state it ends in, `Guarded` says that every action meets a condition
   on the state it is taken from, `Along` that a property holds in every state
   the run passes through. The rules below turn a one-step argument into a
   statement about whole runs: an invariant kept by guarded steps holds along
   every guarded run, and where a step breaks the property exactly when it
   misses the condition, the property holds along a run exactly when the run
   is guarded. -/
namespace Runs

variable {σ α : Type*} {step : σ → α → σ}

/-- The state a list of actions leads to. -/
def exec (step : σ → α → σ) (s : σ) (as : List α) : σ := as.foldl step s

/-- Every action of the run meets `ok` in the state it is taken from. -/
def Guarded (step : σ → α → σ) (ok : σ → α → Prop) : σ → List α → Prop
  | _, [] => True
  | s, a :: as => ok s a ∧ Guarded step ok (step s a) as

/-- `P` holds in every state the run passes through, the first one included. -/
def Along (step : σ → α → σ) (P : σ → Prop) : σ → List α → Prop
  | s, [] => P s
  | s, a :: as => P s ∧ Along step P (step s a) as

instance decGuarded {ok : σ → α → Prop} [∀ s a, Decidable (ok s a)] :
    ∀ (s : σ) (as : List α), Decidable (Guarded step ok s as)
  | _, [] => isTrue trivial
  | s, a :: as =>
    match decGuarded (step s a) as with
    | isTrue h => if h' : ok s a then isTrue ⟨h', h⟩ else isFalse fun k => h' k.1
    | isFalse h => isFalse fun k => h k.2

instance decAlong {P : σ → Prop} [DecidablePred P] :
    ∀ (s : σ) (as : List α), Decidable (Along step P s as)
  | s, [] => inferInstanceAs (Decidable (P s))
  | s, a :: as =>
    match decAlong (step s a) as with
    | isTrue h => if h' : P s then isTrue ⟨h', h⟩ else isFalse fun k => h' k.1
    | isFalse h => isFalse fun k => h k.2

@[simp] theorem exec_nil (s : σ) : exec step s [] = s := rfl

@[simp] theorem exec_cons (s : σ) (a : α) (as : List α) :
    exec step s (a :: as) = exec step (step s a) as := rfl

@[simp] theorem exec_append (s : σ) (as bs : List α) :
    exec step s (as ++ bs) = exec step (exec step s as) bs := by
  simp [exec]

theorem along_first {P : σ → Prop} {s : σ} {as : List α} (h : Along step P s as) : P s := by
  cases as with
  | nil => exact h
  | cons a as => exact h.1

theorem along_exec {P : σ → Prop} :
    ∀ (as : List α) (s : σ), Along step P s as → P (exec step s as)
  | [], _, h => h
  | _ :: as, _, h => along_exec as _ h.2

theorem guarded_of_forall {ok : σ → α → Prop} (h : ∀ s a, ok s a) :
    ∀ (as : List α) (s : σ), Guarded step ok s as
  | [], _ => trivial
  | a :: as, s => ⟨h s a, guarded_of_forall h as _⟩

theorem guarded_mono {ok ok' : σ → α → Prop} (h : ∀ s a, ok s a → ok' s a) :
    ∀ (as : List α) (s : σ), Guarded step ok s as → Guarded step ok' s as
  | [], _, _ => trivial
  | a :: as, s, hg => ⟨h s a hg.1, guarded_mono h as _ hg.2⟩

theorem guarded_append {ok : σ → α → Prop} (as bs : List α) (s : σ) :
    Guarded step ok s (as ++ bs) ↔ Guarded step ok s as ∧ Guarded step ok (exec step s as) bs := by
  induction as generalizing s with
  | nil => simp [Guarded]
  | cons a as ih => simp only [List.cons_append, Guarded, exec_cons, ih, and_assoc]

theorem guarded_and {ok ok' : σ → α → Prop} (as : List α) (s : σ) :
    Guarded step (fun t a => ok t a ∧ ok' t a) s as ↔
      Guarded step ok s as ∧ Guarded step ok' s as := by
  induction as generalizing s with
  | nil => simp [Guarded]
  | cons a as ih =>
    simp only [Guarded, ih]
    constructor
    · rintro ⟨⟨h1, h2⟩, h3, h4⟩
      exact ⟨⟨h1, h3⟩, h2, h4⟩
    · rintro ⟨⟨h1, h3⟩, h2, h4⟩
      exact ⟨⟨h1, h2⟩, h3, h4⟩

/-- An invariant kept by every guarded step holds at the end of a guarded run. -/
theorem exec_invariant {I : σ → Prop} {ok : σ → α → Prop}
    (keep : ∀ s a, I s → ok s a → I (step s a)) :
    ∀ (as : List α) (s : σ), I s → Guarded step ok s as → I (exec step s as)
  | [], _, hi, _ => hi
  | a :: as, s, hi, hg => exec_invariant keep as _ (keep s a hi hg.1) hg.2

/-- The same along the run: the invariant holds in every state passed. -/
theorem along_of_guarded {I : σ → Prop} {ok : σ → α → Prop}
    (keep : ∀ s a, I s → ok s a → I (step s a)) :
    ∀ (as : List α) (s : σ), I s → Guarded step ok s as → Along step I s as
  | [], _, hi, _ => hi
  | a :: as, s, hi, hg => ⟨hi, along_of_guarded keep as _ (keep s a hi hg.1) hg.2⟩

/-- What the invariant and the guard imply of each step. -/
theorem guarded_of_invariant {I : σ → Prop} {ok ok' : σ → α → Prop}
    (keep : ∀ s a, I s → ok s a → I (step s a)) (imp : ∀ s a, I s → ok s a → ok' s a) :
    ∀ (as : List α) (s : σ), I s → Guarded step ok s as → Guarded step ok' s as
  | [], _, _, _ => trivial
  | a :: as, s, hi, hg => ⟨imp s a hi hg.1, guarded_of_invariant keep imp as _ (keep s a hi hg.1) hg.2⟩

theorem along_mono {P Q : σ → Prop} (h : ∀ s, P s → Q s) :
    ∀ (as : List α) (s : σ), Along step P s as → Along step Q s as
  | [], s, hp => h s hp
  | _ :: as, s, hp => ⟨h s hp.1, along_mono h as _ hp.2⟩

/-- Where a step from a good state leads to a good state exactly when it meets
    `ok`, a run stays good exactly when all its steps meet `ok`. `I` is an
    invariant that good guarded steps keep, `en` what the environment may do. -/
theorem along_iff_guarded {I P : σ → Prop} {en ok : σ → α → Prop}
    (keep : ∀ s a, I s → P s → en s a → ok s a → I (step s a) ∧ P (step s a))
    (need : ∀ s a, I s → P s → en s a → P (step s a) → ok s a) :
    ∀ (as : List α) (s : σ), I s → P s → Guarded step en s as →
      (Along step P s as ↔ Guarded step ok s as)
  | [], _, _, hp, _ => by simp [Along, Guarded, hp]
  | a :: as, s, hi, hp, hen => by
    constructor
    · intro h
      have hok := need s a hi hp hen.1 (along_first h.2)
      obtain ⟨hi', hp'⟩ := keep s a hi hp hen.1 hok
      exact ⟨hok, (along_iff_guarded keep need as _ hi' hp' hen.2).1 h.2⟩
    · intro h
      obtain ⟨hi', hp'⟩ := keep s a hi hp hen.1 h.1
      exact ⟨hp, (along_iff_guarded keep need as _ hi' hp' hen.2).2 h.2⟩

/-- Where the good states among those with the invariant are the states that meet
    `C`, and steps from such states keep the invariant, a run stays good exactly
    when all its states meet `C`. -/
theorem along_iff_along {I P C : σ → Prop} {en : σ → α → Prop} (same : ∀ s, I s → (P s ↔ C s))
    (keep : ∀ s a, I s → C s → en s a → I (step s a)) :
    ∀ (as : List α) (s : σ), I s → Guarded step en s as → (Along step P s as ↔ Along step C s as)
  | [], s, hi, _ => same s hi
  | a :: as, s, hi, hen => by
    constructor
    · intro h
      have hc := (same s hi).1 h.1
      exact ⟨hc, (along_iff_along same keep as _ (keep s a hi hc hen.1) hen.2).1 h.2⟩
    · intro h
      have hi' := keep s a hi h.1 hen.1
      exact ⟨(same s hi).2 h.1, (along_iff_along same keep as _ hi' hen.2).2 h.2⟩

/-- A step that may fail, when no step of the run fails. -/
theorem foldlM_invariant {I : σ → Prop} {step : σ → α → Option σ} (hstep : ∀ s a s', I s → step s a = some s' → I s') :
    ∀ (as : List α) (s s' : σ), I s → as.foldlM step s = some s' → I s' := by
  intro as
  induction as with
  | nil =>
    intro s s' hs hrun
    exact Option.some.inj hrun ▸ hs
  | cons a as ih =>
    intro s s' hs hrun
    rw [List.foldlM_cons] at hrun
    obtain ⟨s₁, ha, hrun⟩ := Option.bind_eq_some_iff.1 hrun
    exact ih s₁ s' (hstep s a s₁ hs ha) hrun

end Runs
