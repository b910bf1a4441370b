import Mathlib.Data.List.Basic

/-! # Lines

A text is cut at a separator. What follows the last separator is a line only if it is not
empty, as with `getline`.
-/

namespace Abacus.Library.Lines

variable {α : Type} [DecidableEq α] (sep : α)

def extend (a : α) : List (List α) → List (List α)
  | [] => [[a]]
  | line :: rest => (a :: line) :: rest

def lines : List α → List (List α)
  | [] => []
  | a :: s => if a = sep then [] :: lines s else extend a (lines s)

variable {sep} {line s : List α}

theorem lines_append_sep (h : sep ∉ line) : lines sep (line ++ sep :: s) = line :: lines sep s := by
  induction line with
  | nil => exact if_pos rfl
  | cons a line ih =>
    obtain ⟨ha, hline⟩ := not_or.mp (List.mem_cons.not.mp h)
    rw [List.cons_append, lines, if_neg (Ne.symm ha), ih hline]
    rfl

theorem notMem_of_mem_lines (h : line ∈ lines sep s) : sep ∉ line := by
  induction s generalizing line with
  | nil => exact absurd h List.not_mem_nil
  | cons a s ih =>
    rw [lines] at h
    split at h
    · obtain rfl | h := List.mem_cons.mp h
      · exact List.not_mem_nil
      · exact ih h
    · next ha =>
      cases hrest : lines sep s with
      | nil =>
        rw [hrest, extend, List.mem_singleton] at h
        subst h
        exact fun hmem => ha (List.mem_singleton.mp hmem).symm
      | cons first rest =>
        rw [hrest, extend] at h
        obtain rfl | h := List.mem_cons.mp h
        · rw [List.mem_cons, not_or]
          exact ⟨Ne.symm ha, ih (hrest ▸ .head rest)⟩
        · exact ih (hrest ▸ .tail first h)

omit [DecidableEq α] in
theorem of_dropWhile_eq_cons {p : α → Bool} {a : α} (h : s.dropWhile p = a :: line) : p a = false := by
  have hne : s.dropWhile p ≠ [] := by
    rw [h]
    exact List.cons_ne_nil a line
  have hhead := List.head_dropWhile_not p hne
  simpa only [h, List.head_cons] using hhead

end Abacus.Library.Lines
