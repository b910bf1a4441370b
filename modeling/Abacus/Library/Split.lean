import Mathlib.Data.List.Basic
import Mathlib.Tactic.Ring

/-! # Splitting a list into pieces of nearly one length

The remainder of the division is spread over the first pieces, one more element each.
-/

namespace Abacus.Library.Split

section

variable {total n m i : Nat}

def start (total n i : Nat) : Nat := total / n * i + min i (total % n)

def size (total n i : Nat) : Nat := total / n + if i < total % n then 1 else 0

@[simp] theorem start_zero : start total n 0 = 0 := by
  simp [start]

theorem start_succ (total n i : Nat) : start total n (i + 1) = start total n i + size total n i := by
  unfold start size
  rw [Nat.mul_succ]
  split <;> omega

theorem start_self (h : 0 < n) : start total n n = total := by
  have hmod : total % n < n := Nat.mod_lt total h
  unfold start
  rw [Nat.min_eq_right hmod.le, Nat.mul_comm]
  exact Nat.div_add_mod total n

theorem start_le (h : 0 < n) (hi : i ≤ n) : start total n i ≤ total := by
  have hmul : total / n * i ≤ total / n * n := Nat.mul_le_mul_left _ hi
  have hall : start total n n = total := start_self h
  unfold start at hall ⊢
  omega

theorem size_pos (h : 0 < n) (htotal : n ≤ total) : 0 < size total n i := by
  have hdiv : 0 < total / n := Nat.div_pos htotal h
  unfold size
  omega

theorem size_le (htotal : total ≤ n * m) : size total n i ≤ m := by
  have hdiv : total / n ≤ m := Nat.div_le_of_le_mul htotal
  have hall : n * (total / n) + total % n = total := Nat.div_add_mod total n
  unfold size
  split
  · -- a remainder is left over, so the quotient is below the bound
    have hne : total / n ≠ m := by
      intro heq
      rw [heq] at hall
      omega
    omega
  · omega

end

section

variable {α : Type} (l : List α) {n i : Nat}

def piece (n i : Nat) : List α := (l.drop (start l.length n i)).take (size l.length n i)

theorem length_piece (hi : i < n) : (piece l n i).length = size l.length n i := by
  have hle : start l.length n (i + 1) ≤ l.length := start_le (by omega) hi
  rw [start_succ] at hle
  rw [piece, List.length_take, List.length_drop]
  omega

theorem flatMap_piece_range (n k : Nat) : (List.range k).flatMap (piece l n) = l.take (start l.length n k) := by
  induction k with
  | zero => simp
  | succ k ih =>
    rw [List.range_succ, List.flatMap_append, ih, start_succ, List.take_add]
    simp [piece]

theorem flatMap_piece (h : 0 < n) : (List.range n).flatMap (piece l n) = l := by
  rw [flatMap_piece_range, start_self h, List.take_length]

end

end Abacus.Library.Split
