import Mathlib.Data.List.Sort

/-! # Stable sorting

Insertion sort keeps the order of rows that compare equal, so it commutes with filtering.
-/

namespace Abacus.Library.StableSort

variable {α : Type} {r : α → α → Prop} [DecidableRel r] {l : List α}

theorem orderedInsert_of_forall {a : α} (h : ∀ b ∈ l, r a b) : l.orderedInsert r a = a :: l := by
  cases l with
  | nil => rfl
  | cons b l => exact List.orderedInsert_cons_of_le r l (h b (.head l))

theorem filter_orderedInsert [IsTrans α r] (hl : l.Pairwise r) (p : α → Bool) (a : α) :
    (l.orderedInsert r a).filter p = if p a then (l.filter p).orderedInsert r a else l.filter p := by
  induction l with
  | nil =>
    rw [List.orderedInsert_nil, List.filter_cons]
    rfl
  | cons b l ih =>
    obtain ⟨hb, hl⟩ := List.pairwise_cons.mp hl
    by_cases hab : r a b
    · have hall : ∀ x ∈ (b :: l).filter p, r a x := by
        intro x hx
        cases (List.mem_filter.mp hx).1 with
        | head => exact hab
        | tail _ hx => exact IsTrans.trans a b x hab (hb x hx)
      rw [List.orderedInsert_cons_of_le r l hab, List.filter_cons, orderedInsert_of_forall hall]
    · rw [List.orderedInsert_of_not_le r l hab, List.filter_cons, List.filter_cons, ih hl]
      by_cases hpb : p b = true
      · simp only [hpb, if_true]
        rw [List.orderedInsert_of_not_le r _ hab]
        split <;> rfl
      · simp only [hpb]
        rfl

variable [Std.Total r] [IsTrans α r]

theorem filter_insertionSort (p : α → Bool) (l : List α) :
    (l.insertionSort r).filter p = (l.filter p).insertionSort r := by
  induction l with
  | nil => rfl
  | cons a l ih =>
    rw [List.insertionSort_cons, filter_orderedInsert (List.pairwise_insertionSort r l), ih, List.filter_cons]
    split <;> rfl

theorem pairwise_orderedInsert {before : α → α → Prop} {a : α}
    (hl : l.Pairwise fun x y => r x y ∧ (r y x → before x y)) (ha : ∀ x ∈ l, before a x) :
    (l.orderedInsert r a).Pairwise fun x y => r x y ∧ (r y x → before x y) := by
  induction l with
  | nil => exact List.pairwise_singleton _ a
  | cons b l ih =>
    obtain ⟨hb, hl⟩ := List.pairwise_cons.mp hl
    by_cases hab : r a b
    · rw [List.orderedInsert_cons_of_le r l hab]
      refine List.pairwise_cons.mpr ⟨fun x hx => ⟨?_, fun _ => ha x hx⟩, List.pairwise_cons.mpr ⟨hb, hl⟩⟩
      cases hx with
      | head => exact hab
      | tail _ hx => exact IsTrans.trans a b x hab (hb x hx).1
    · rw [List.orderedInsert_of_not_le r l hab]
      refine List.pairwise_cons.mpr ⟨fun x hx => ?_, ih hl fun x hx => ha x (.tail b hx)⟩
      rcases List.mem_orderedInsert r |>.mp hx with rfl | hx
      · exact ⟨(Std.Total.total b x).resolve_right hab, fun h => absurd h hab⟩
      · exact hb x hx

theorem pairwise_insertionSort {before : α → α → Prop} (hl : l.Pairwise before) :
    (l.insertionSort r).Pairwise fun x y => r x y ∧ (r y x → before x y) := by
  induction l with
  | nil => exact .nil
  | cons a l ih =>
    obtain ⟨ha, hl⟩ := List.pairwise_cons.mp hl
    apply pairwise_orderedInsert (ih hl)
    intro x hx
    exact ha x ((List.mem_insertionSort r).mp hx)

omit [DecidableRel r] [Std.Total r] [IsTrans α r] in
theorem takeWhile_eq_filter {p : α → Bool} (hl : l.Pairwise fun x y => p y = true → p x = true) :
    l.takeWhile p = l.filter p := by
  induction l with
  | nil => rfl
  | cons a l ih =>
    obtain ⟨ha, hl⟩ := List.pairwise_cons.mp hl
    by_cases hpa : p a = true
    · rw [List.takeWhile_cons_of_pos hpa, List.filter_cons_of_pos hpa, ih hl]
    · rw [List.takeWhile_cons_of_neg hpa, List.filter_cons_of_neg hpa]
      refine (List.filter_eq_nil_iff.mpr fun x hx hpx => hpa (ha x hx hpx)).symm

theorem filter_eq_append {p q : α → Bool} (hl : l.Pairwise fun x y => p y = true → p x = true)
    (hpq : ∀ x, p x = true → q x = true) : l.filter q = l.filter p ++ l.filter fun x => q x && !p x := by
  induction l with
  | nil => rfl
  | cons a l ih =>
    obtain ⟨ha, hl⟩ := List.pairwise_cons.mp hl
    cases hpa : p a with
    | true => simp [hpa, hpq a hpa, ih hl]
    | false =>
      have hnone : ∀ x ∈ a :: l, p x = false := by
        intro x hx
        cases hx with
        | head => exact hpa
        | tail _ hx => exact Bool.eq_false_iff.mpr fun hpx => Bool.false_ne_true (hpa.symm.trans (ha x hx hpx))
      have hfront : (a :: l).filter p = [] := List.filter_eq_nil_iff.mpr fun x hx => Bool.eq_false_iff.mp (hnone x hx)
      rw [hfront, List.nil_append]
      apply List.filter_congr
      intro x hx
      simp [hnone x hx]

end Abacus.Library.StableSort
