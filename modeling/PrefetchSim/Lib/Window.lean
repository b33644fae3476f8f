import Mathlib.Data.List.DropRight

/- A bounded buffer that keeps the newest `n` values: `push` appends at the back
   and drops the front element when the buffer would grow past `n`. Pushing a
   whole sequence leaves its last `n` values (`pushAll_eq`). -/
namespace Window

variable {α : Type*} {n : Nat}

/-- Append `x`; drop the oldest value when more than `n` are held. -/
def push (n : Nat) (buf : List α) (x : α) : List α :=
  let buf := buf ++ [x]
  if n < buf.length then buf.tail else buf

theorem push_length {buf : List α} (h : buf.length ≤ n) (x : α) :
    (push n buf x).length ≤ n := by
  simp only [push]
  split <;> simp at * <;> omega

theorem push_rtake (xs : List α) (x : α) :
    push n (xs.rtake n) x = (xs ++ [x]).rtake n := by
  simp only [push, List.rtake, List.length_append, List.length_drop, List.length_cons,
    List.length_nil]
  split
  · -- the buffer was full: one value leaves at the front
    rename_i h
    have hle : n ≤ xs.length := by omega
    by_cases h0 : n = 0
    · subst h0
      simp
    · rw [List.drop_append_of_le_length (by omega), List.tail_append_of_ne_nil (by simp; omega),
        List.tail_drop]
      congr 2
      omega
  · rename_i h
    have hle : xs.length < n := by omega
    rw [show xs.length - n = 0 by omega, show xs.length + (0 + 1) - n = 0 by omega]
    simp

/-- Pushing a sequence into the empty buffer keeps its last `n` values. -/
theorem pushAll_eq (xs : List α) : xs.foldl (push n) [] = xs.rtake n := by
  induction xs using List.reverseRecOn with
  | nil => simp [List.rtake]
  | append_singleton xs x ih => rw [List.foldl_append, ih, List.foldl_cons, List.foldl_nil, push_rtake]

/-- The same from a buffer that is within the bound. -/
theorem pushAll_append {buf : List α} (h : buf.length ≤ n) (xs : List α) :
    xs.foldl (push n) buf = (buf ++ xs).rtake n := by
  have hbuf : buf.foldl (push n) [] = buf := by
    rw [pushAll_eq, List.rtake, Nat.sub_eq_zero_of_le h, List.drop_zero]
  rw [← pushAll_eq, List.foldl_append, hbuf]

end Window
