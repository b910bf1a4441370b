import Mathlib.Data.List.Sort
import Mathlib.Algebra.Order.Ring.Int

/-! # Sorted results with unspecified ties

`ORDER BY` fixes the order of rows only up to rows of equal key. An `OrderBy` is one way
of resolving the ties; what holds for every one of them holds whatever the database does.
-/

namespace Abacus.Library

structure OrderBy (α : Type) where
  sort : (α → Int) → List α → List α
  perm : ∀ key rows, (sort key rows).Perm rows
  sorted : ∀ key rows, (sort key rows).Pairwise fun a b => key a ≤ key b

namespace OrderBy

variable {α : Type}

/-- Rows of equal key stay in the order in which they were found. -/
def stable : OrderBy α where
  sort key rows := rows.insertionSort fun a b => key a ≤ key b
  perm _ rows := List.perm_insertionSort _ rows
  sorted key rows :=
    have : Std.Total fun a b => key a ≤ key b := ⟨fun a b => le_total (key a) (key b)⟩
    have : IsTrans α fun a b => key a ≤ key b := ⟨fun _ _ _ => le_trans⟩
    List.pairwise_insertionSort _ rows

/-- A row that comes first if ties are resolved in its favour. -/
def Least (key : α → Int) (rows : List α) (x : α) : Prop := x ∈ rows ∧ ∀ y ∈ rows, key x ≤ key y

/-- Among rows of equal key, those that satisfy `p` come first. -/
def prefer (p : α → Bool) : OrderBy α where
  sort key rows := stable.sort key (rows.filter p ++ rows.filter fun x => !p x)
  perm key rows := (stable.perm key _).trans (List.filter_append_perm p rows)
  sorted key _ := stable.sorted key _

variable {key : α → Int}

theorem head?_stable_append {p : α → Bool} (front back : List α) (hfront : ∀ a ∈ front, p a = true)
    {x : α} (hx : x ∈ front) (hmin : ∀ y ∈ front ++ back, key x ≤ key y) :
    ∃ y, (stable.sort key (front ++ back)).head? = some y ∧ p y = true := by
  induction front with
  | nil => cases hx
  | cons a front ih =>
    have ha := hfront a List.mem_cons_self
    change ∃ y, (List.orderedInsert (fun a b => key a ≤ key b) a (stable.sort key (front ++ back))).head? = some y ∧ _
    cases hrest : stable.sort key (front ++ back) with
    | nil => exact ⟨a, rfl, ha⟩
    | cons z rest =>
      rw [List.orderedInsert_cons]
      split
      · exact ⟨a, rfl, ha⟩
      · next hlt =>
        have hz : z ∈ front ++ back :=
          (stable.perm key _).mem_iff.mp (hrest ▸ List.mem_cons_self)
        obtain rfl | hx := List.mem_cons.mp hx
        · exact absurd (hmin z (List.mem_cons_of_mem _ hz)) hlt
        · obtain ⟨y, hy, hp⟩ := ih (fun b hb => hfront b (List.mem_cons_of_mem _ hb)) hx
            fun y hy => hmin y (List.mem_cons_of_mem _ hy)
          rw [hrest] at hy
          exact ⟨y, hy, hp⟩

variable {rows : List α}

theorem head?_prefer {p : α → Bool} {x : α} (hx : Least key rows x)
    (hp : p x = true) : ∃ y, ((prefer p).sort key rows).head? = some y ∧ p y = true := by
  refine head?_stable_append _ _ (fun a ha => (List.mem_filter.mp ha).2) (List.mem_filter.mpr ⟨hx.1, hp⟩) fun y hy => ?_
  exact hx.2 y ((List.filter_append_perm p rows).mem_iff.mp hy)

theorem head?_sort (o : OrderBy α) {x : α}
    (h : (o.sort key rows).head? = some x) : Least key rows x := by
  have hperm := o.perm key rows
  have hsorted := o.sorted key rows
  cases hrows : o.sort key rows with
  | nil =>
    rw [hrows] at h
    cases h
  | cons z rest =>
    rw [hrows] at h hperm hsorted
    cases h
    refine ⟨hperm.mem_iff.mp List.mem_cons_self, fun y hy => ?_⟩
    obtain rfl | hmem := List.mem_cons.mp (hperm.mem_iff.mpr hy)
    · exact Int.le_refl _
    · exact (List.pairwise_cons.mp hsorted).1 y hmem

theorem head?_sort_eq_none (o : OrderBy α) :
    (o.sort key rows).head? = none ↔ rows = [] := by
  have hlen := (o.perm key rows).length_eq
  rw [List.head?_eq_none_iff, ← List.length_eq_zero_iff, hlen, List.length_eq_zero_iff]

theorem exists_least (key : α → Int) (h : rows ≠ []) : ∃ x, Least key rows x := by
  cases hhead : (stable.sort key rows).head? with
  | none => exact absurd (stable.head?_sort_eq_none.mp hhead) h
  | some x => exact ⟨x, stable.head?_sort hhead⟩

/-- However ties are resolved, some query has a good first row: one of them has rows, and those of least key are
good. -/
theorem forall_exists_head?_iff {ι : Type} (S : ι → Prop) (key : α → Int) (rows : ι → List α) (good : α → Prop) :
    (∀ o : OrderBy α, ∃ i, S i ∧ ∃ x, (o.sort key (rows i)).head? = some x ∧ good x) ↔
      ∃ i, S i ∧ rows i ≠ [] ∧ ∀ x, Least key (rows i) x → good x := by
  classical
  constructor
  · intro hall
    obtain ⟨i, hi, x, hhead, hgood⟩ := hall (prefer fun y => decide ¬good y)
    refine ⟨i, hi, fun hnil => ?_, fun y hy => ?_⟩
    · rw [(head?_sort_eq_none _).mpr hnil] at hhead
      cases hhead
    · by_contra hbad
      obtain ⟨z, hhead', hz⟩ := head?_prefer (p := fun y => decide ¬good y) hy (decide_eq_true hbad)
      rw [hhead] at hhead'
      cases hhead'
      exact (of_decide_eq_true hz) hgood
  · rintro ⟨i, hi, hne, hleast⟩ o
    cases hhead : (o.sort key (rows i)).head? with
    | none => exact absurd (o.head?_sort_eq_none.mp hhead) hne
    | some x => exact ⟨i, hi, x, hhead, hleast x (o.head?_sort hhead)⟩

theorem exists_exists_head?_iff {ι : Type} (S : ι → Prop) (key : α → Int) (rows : ι → List α) (good : α → Prop) :
    (∃ o : OrderBy α, ∃ i, S i ∧ ∃ x, (o.sort key (rows i)).head? = some x ∧ good x) ↔
      ∃ i, S i ∧ ∃ x, Least key (rows i) x ∧ good x := by
  classical
  constructor
  · rintro ⟨o, i, hi, x, hhead, hgood⟩
    exact ⟨i, hi, x, o.head?_sort hhead, hgood⟩
  · rintro ⟨i, hi, x, hx, hgood⟩
    obtain ⟨y, hhead, hy⟩ := head?_prefer (p := fun y => decide (good y)) hx (decide_eq_true hgood)
    exact ⟨prefer fun y => decide (good y), i, hi, y, hhead, of_decide_eq_true hy⟩

end OrderBy

section

variable {α : Type}

structure StrictWeak (lt : α → α → Bool) : Prop where
  asymm : ∀ a b, lt a b = true → lt b a = false
  trans : ∀ a b c, lt b a = false → lt c b = false → lt c a = false

/-- A sorting function that is given the comparison, and promises nothing about elements that compare equal. -/
structure Sorter (α : Type) where
  sort : (α → α → Bool) → List α → List α
  perm : ∀ lt l, (sort lt l).Perm l
  sorted : ∀ lt, StrictWeak lt → ∀ l, (sort lt l).Pairwise fun a b => lt b a = false

def Sorter.insertion : Sorter α where
  sort lt l := l.insertionSort fun a b => lt b a = false
  perm _ l := List.perm_insertionSort _ l
  sorted lt h l :=
    have : Std.Total fun a b => lt b a = false :=
      ⟨fun a b => (Bool.eq_false_or_eq_true (lt b a)).symm.imp_right (h.asymm b a)⟩
    have : IsTrans α fun a b => lt b a = false := ⟨h.trans⟩
    List.pairwise_insertionSort _ l

end

end Abacus.Library
