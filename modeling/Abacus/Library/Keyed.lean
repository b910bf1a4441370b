import Mathlib.Data.List.Perm.Basic
import Mathlib.Data.List.Nodup

/-! # Lists of rows with a key

A row takes the place of the row with the same key, or is added at the end. What a list holds does not
depend on where the rows are.
-/

namespace Abacus.Library.Keyed

variable {κ ρ : Type}

def Distinct (key : ρ → κ) (rows : List ρ) : Prop := (rows.map key).Nodup

variable {key : ρ → κ} {rows new : List ρ} {row : ρ}

theorem distinct_cons {r : ρ} : Distinct key (r :: rows) ↔ (∀ other ∈ rows, key other ≠ key r) ∧ Distinct key rows := by
  rw [Distinct, List.map_cons, List.nodup_cons, List.mem_map, Distinct]
  simp

theorem Distinct.perm {rows' : List ρ} (h : Distinct key rows) (h' : Distinct key rows')
    (hmem : ∀ row, row ∈ rows ↔ row ∈ rows') : rows.Perm rows' :=
  (List.perm_ext_iff_of_nodup (List.Nodup.of_map key h) (List.Nodup.of_map key h')).mpr hmem

variable [DecidableEq κ]

def put (key : ρ → κ) : List ρ → ρ → List ρ
  | [], new => [new]
  | row :: rows, new => if key row = key new then new :: rows else row :: put key rows new

theorem mem_put (h : Distinct key rows) (n : ρ) : row ∈ put key rows n ↔ row = n ∨ row ∈ rows ∧ key row ≠ key n := by
  induction rows with
  | nil => simp [put]
  | cons r rows ih =>
    obtain ⟨hr, hrows⟩ := distinct_cons.mp h
    rw [put]
    split
    · next hkey =>
      rw [List.mem_cons, List.mem_cons]
      constructor
      · rintro (rfl | hmem)
        · exact .inl rfl
        · exact .inr ⟨.inr hmem, fun heq => hr row hmem (heq.trans hkey.symm)⟩
      · rintro (rfl | ⟨rfl | hmem, hne⟩)
        · exact .inl rfl
        · exact absurd hkey hne
        · exact .inr hmem
    · next hkey =>
      rw [List.mem_cons, List.mem_cons, ih hrows]
      constructor
      · rintro (rfl | rfl | ⟨hmem, hne⟩)
        · exact .inr ⟨.inl rfl, hkey⟩
        · exact .inl rfl
        · exact .inr ⟨.inr hmem, hne⟩
      · rintro (rfl | ⟨rfl | hmem, hne⟩)
        · exact .inr (.inl rfl)
        · exact .inl rfl
        · exact .inr (.inr ⟨hmem, hne⟩)

theorem distinct_put (h : Distinct key rows) (n : ρ) : Distinct key (put key rows n) := by
  induction rows with
  | nil => simp [put, Distinct]
  | cons r rows ih =>
    obtain ⟨hr, hrows⟩ := distinct_cons.mp h
    rw [put]
    split
    · next hkey => exact distinct_cons.mpr ⟨fun other hother => hkey ▸ hr other hother, hrows⟩
    · next hkey =>
      refine distinct_cons.mpr ⟨fun other hother => ?_, ih hrows⟩
      obtain rfl | ⟨hmem, -⟩ := (mem_put hrows n).mp hother
      · exact fun heq => hkey heq.symm
      · exact hr other hmem

theorem foldl_put (h : Distinct key rows) (hnew : Distinct key new) : Distinct key (new.foldl (put key) rows) ∧
    ∀ row, row ∈ new.foldl (put key) rows ↔ row ∈ new ∨ row ∈ rows ∧ ∀ n ∈ new, key row ≠ key n := by
  induction new generalizing rows with
  | nil => exact ⟨h, fun row => by simp⟩
  | cons n new ih =>
    obtain ⟨hn, hnew⟩ := distinct_cons.mp hnew
    obtain ⟨hdistinct, hmem⟩ := ih (distinct_put h n) hnew
    refine ⟨hdistinct, fun row => ?_⟩
    rw [List.foldl_cons, hmem, mem_put h, List.mem_cons, List.forall_mem_cons]
    constructor
    · rintro (hrow | ⟨rfl | ⟨hrow, hne⟩, hall⟩)
      · exact .inl (.inr hrow)
      · exact .inl (.inl rfl)
      · exact .inr ⟨hrow, hne, hall⟩
    · rintro ((rfl | hrow) | ⟨hrow, hne, hall⟩)
      · exact .inr ⟨.inl rfl, fun n hn' heq => hn n hn' heq.symm⟩
      · exact .inl hrow
      · exact .inr ⟨.inr ⟨hrow, hne⟩, hall⟩

theorem foldl_put_perm (h : Distinct key new) : (new.foldl (put key) []).Perm new := by
  have hnil : Distinct key [] := List.nodup_nil
  obtain ⟨hdistinct, hmem⟩ := foldl_put hnil h
  refine hdistinct.perm h fun row => ?_
  rw [hmem]
  simp

end Abacus.Library.Keyed
