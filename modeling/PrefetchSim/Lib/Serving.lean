import Mathlib.Data.List.Perm.Basic
import Mathlib.Logic.Function.Basic
import PrefetchSim.Lib.Runs

/- Servers of a memory.

   Requests arrive at a server, wait, and are answered; meanwhile the server may
   hold the values of the memory wherever it likes. `Meaning` says what a request
   does to the value of its key and what it may be answered, and `Performs` what a
   list of requests does, one after another, to a plain memory. A step of the server
   is accounted for (`Serves`) if some requests are performed in it: each of them was
   waiting or has just arrived, what is seen of the memory changes as they say, and
   their answers are the answers that are new. Then a whole run is accounted for by
   one history (`history`), and after every number of steps by its first part: each
   request takes effect once, at one moment between its arrival and its answer. -/
namespace Serving

variable {K V Q R σ α : Type*}

/-- The key of a request, and what it may do to the value there and be answered. -/
structure Meaning (K V Q R : Type*) where
  key : Q → K
  performs : Q → V → R → V → Prop

/-! ## Requests one after another -/

namespace Meaning

variable {M : Meaning K V Q R}

/-- Requests for one key, performed on its value. -/
inductive Chain (M : Meaning K V Q R) (k : K) : V → List (Q × R) → V → Prop where
  | nil (v : V) : Chain M k v [] v
  | cons {v v' v'' : V} {q : Q} {r : R} {ops : List (Q × R)} (key : M.key q = k)
      (first : M.performs q v r v') (rest : Chain M k v' ops v'') : Chain M k v ((q, r) :: ops) v''

theorem Chain.one {k : K} {v v' : V} {q : Q} {r : R} (key : M.key q = k) (h : M.performs q v r v') :
    M.Chain k v [(q, r)] v' :=
  .cons key h (.nil v')

theorem Chain.append {k : K} {v v' v'' : V} {ops ops' : List (Q × R)} (h : M.Chain k v ops v')
    (h' : M.Chain k v' ops' v'') : M.Chain k v (ops ++ ops') v'' := by
  induction h with
  | nil => exact h'
  | cons key first _ ih => exact .cons key first (ih h')

variable [DecidableEq K]

inductive Performs (M : Meaning K V Q R) : (K → V) → List (Q × R) → (K → V) → Prop where
  | nil (m : K → V) : Performs M m [] m
  | cons {m m' : K → V} {q : Q} {r : R} {v : V} {ops : List (Q × R)}
      (first : M.performs q (m (M.key q)) r v) (rest : Performs M (Function.update m (M.key q) v) ops m') :
      Performs M m ((q, r) :: ops) m'

theorem Performs.append {m m' m'' : K → V} {ops ops' : List (Q × R)} (h : M.Performs m ops m')
    (h' : M.Performs m' ops' m'') : M.Performs m (ops ++ ops') m'' := by
  induction h with
  | nil => exact h'
  | cons first _ ih => exact .cons first (ih h')

theorem Chain.performs {k : K} {v v' : V} {ops : List (Q × R)} (h : M.Chain k v ops v') (m : K → V)
    (hm : m k = v) : M.Performs m ops (Function.update m k v') := by
  induction h generalizing m with
  | nil v =>
    rw [← hm, Function.update_eq_self]
    exact .nil m
  | cons key first _ ih =>
    subst key hm
    have hrest := ih (Function.update m _ _) (Function.update_self ..)
    rw [Function.update_idem] at hrest
    exact .cons first hrest

end Meaning

/-! ## Servers -/

variable [DecidableEq K]

structure Server (σ α : Type*) (M : Meaning K V Q R) where
  step : σ → α → σ
  /-- what is seen of the memory -/
  seen : σ → K → V
  /-- the requests that have arrived and are not performed yet -/
  waiting : σ → List Q
  /-- the answers given so far -/
  answers : σ → List R
  /-- the requests that arrive with a step -/
  arriving : σ → α → List Q

namespace Server

variable {M : Meaning K V Q R} (S : Server σ α M)

/-- The requests `ops` are what happened between two states, with these arrivals. -/
structure Accounts (s : σ) (new : List Q) (ops : List (Q × R)) (s' : σ) : Prop where
  performs : M.Performs (S.seen s) ops (S.seen s')
  requests : (S.waiting s ++ new).Perm (ops.map Prod.fst ++ S.waiting s')
  answers : (S.answers s').Perm (S.answers s ++ ops.map Prod.snd)

def Serves (s : σ) (a : α) : Prop := ∃ ops, S.Accounts s (S.arriving s a) ops (S.step s a)

/-- The requests that arrive in a run. -/
def arrived : σ → List α → List Q
  | _, [] => []
  | s, a :: as => S.arriving s a ++ arrived (S.step s a) as

variable {S}

theorem Accounts.refl (s : σ) : S.Accounts s [] [] s :=
  ⟨.nil _, by simp, by simp⟩

theorem Accounts.trans {s s' s'' : σ} {new new' : List Q} {ops ops' : List (Q × R)}
    (h : S.Accounts s new ops s') (h' : S.Accounts s' new' ops' s'') :
    S.Accounts s (new ++ new') (ops ++ ops') s'' where
  performs := h.performs.append h'.performs
  requests := by
    calc S.waiting s ++ (new ++ new')
        = (S.waiting s ++ new) ++ new' := (List.append_assoc ..).symm
      _ |>.Perm ((ops.map Prod.fst ++ S.waiting s') ++ new') := h.requests.append_right new'
      _ = ops.map Prod.fst ++ (S.waiting s' ++ new') := List.append_assoc ..
      _ |>.Perm (ops.map Prod.fst ++ (ops'.map Prod.fst ++ S.waiting s'')) := h'.requests.append_left _
      _ = (ops ++ ops').map Prod.fst ++ S.waiting s'' := by simp
  answers := by
    refine h'.answers.trans ((h.answers.append_right _).trans (List.Perm.of_eq ?_))
    simp

/-- A run is accounted for by one history, and each of its states by a first part of it. -/
theorem history (as : List α) (s : σ) (h : Runs.Guarded S.step S.Serves s as) :
    ∃ ops : Nat → List (Q × R), ∀ n ≤ as.length, S.Accounts s (S.arrived s (as.take n))
      ((List.range n).flatMap ops) (Runs.exec S.step s (as.take n)) := by
  induction as generalizing s with
  | nil =>
    refine ⟨fun _ => [], fun n hn => ?_⟩
    obtain rfl : n = 0 := Nat.le_zero.1 hn
    exact .refl s
  | cons a as ih =>
    obtain ⟨⟨first, hfirst⟩, hrest⟩ := h
    obtain ⟨ops, hops⟩ := ih _ hrest
    refine ⟨fun n => Nat.casesOn n first ops, fun n hn => ?_⟩
    cases n with
    | zero => exact .refl s
    | succ n =>
      have hnext := hops n (Nat.le_of_succ_le_succ hn)
      rw [List.range_succ_eq_map, List.flatMap_cons, List.flatMap_map]
      exact hfirst.trans hnext

end Server

end Serving
