import Mathlib.Data.Finset.Basic
import Std.Data.ExtTreeMap

/-! # Tables with a primary key

A table is a finite map from its primary key to the other columns, so two rows of one
key cannot exist. An insertion fails on a key that is taken, as it does in the database.
-/

namespace Abacus.Library

instance instOrdPair {α β : Type} [Ord α] [Ord β] : Ord (α × β) := lexOrd

abbrev Table (κ ρ : Type) [Ord κ] := Std.ExtTreeMap κ ρ

namespace Table

variable {κ ρ : Type} [Ord κ] [Std.TransOrd κ] [Std.LawfulEqOrd κ]

theorem getElem?_insert_row (t : Table κ ρ) (k k' : κ) (r : ρ) [DecidableEq κ] :
    (t.insert k r)[k']? = if k = k' then some r else t[k']? := by
  rw [Std.ExtTreeMap.getElem?_insert]
  simp only [Std.LawfulEqOrd.compare_eq_iff_eq]

variable {t : Table κ ρ} {k : κ}

theorem getElem?_insert_kept {k' : κ} {r' : ρ} (hfree : t[k]? = none) (h : t[k']? = some r') (r : ρ)
    [DecidableEq κ] : (t.insert k r)[k']? = some r' := by
  rw [getElem?_insert_row, if_neg]
  · exact h
  · rintro rfl
    rw [hfree] at h
    cases h

theorem getD_insert_row (t : Table κ ρ) (k k' : κ) (r r' : ρ) [DecidableEq κ] :
    (t.insert k r).getD k' r' = if k = k' then r else t.getD k' r' := by
  rw [Std.ExtTreeMap.getD_insert]
  simp only [Std.LawfulEqOrd.compare_eq_iff_eq]

variable {r : ρ}

theorem mem_insert_row {k' : κ} : k' ∈ t.insert k r ↔ k = k' ∨ k' ∈ t := by
  rw [Std.ExtTreeMap.mem_insert, Std.LawfulEqOrd.compare_eq_iff_eq]

omit [Std.LawfulEqOrd κ] in
theorem mem_iff_exists_row : k ∈ t ↔ ∃ r, t[k]? = some r := by
  rw [Std.ExtTreeMap.mem_iff_isSome_getElem?, Option.isSome_iff_exists]

theorem forall_rows {P : κ → ρ → Prop} (h : ∀ row ∈ t.toList, P row.1 row.2) (k : κ) (r : ρ)
    (hr : t[k]? = some r) : P k r :=
  h (k, r) (Std.ExtTreeMap.mem_toList_iff_getElem?_eq_some.mpr hr)

variable {t' : Table κ ρ}

theorem filter_toList_congr (p : κ → Bool) (h : ∀ k, p k = true → t'[k]? = t[k]?) :
    (t'.toList.filter fun r => p r.1) = t.toList.filter fun r => p r.1 := by
  have hfilter : ∀ t : Table κ ρ, (t.toList.filter fun r => p r.1) = (t.filter fun k _ => p k).toList := by
    intro t
    rw [Std.ExtTreeMap.toList_filter]
  have heq : (t'.filter fun k _ => p k) = t.filter fun k _ => p k := by
    ext k : 1
    rw [Std.ExtTreeMap.getElem?_filter', Std.ExtTreeMap.getElem?_filter']
    cases hk : p k with
    | true => rw [h k hk]
    | false => simp
  rw [hfilter, hfilter, heq]

variable {l : List (κ × ρ)}

theorem getElem?_insertMany_iff [BEq κ] [Std.LawfulBEqOrd κ] (h : (l.map Prod.fst).Nodup) :
    ((∅ : Table κ ρ).insertMany l)[k]? = some r ↔ (k, r) ∈ l := by
  have hdistinct : l.Pairwise fun a b => ¬compare a.1 b.1 = .eq := by
    apply (List.pairwise_map.mp h).imp
    intro a b hne heq
    exact hne (Std.LawfulEqOrd.compare_eq_iff_eq.mp heq)
  refine ⟨fun hrow => ?_, Std.ExtTreeMap.getElem?_insertMany_list_of_mem Std.ReflOrd.compare_self hdistinct⟩
  cases hk : (l.map Prod.fst).contains k with
  | true =>
    obtain ⟨k', hkey, heq⟩ := List.contains_iff_exists_mem_beq.mp hk
    obtain rfl : k = k' := Std.LawfulEqOrd.compare_eq_iff_eq.mp (Std.compare_eq_iff_beq.mpr heq)
    obtain ⟨row, hmem, rfl⟩ := List.mem_map.mp hkey
    rw [Std.ExtTreeMap.getElem?_insertMany_list_of_mem Std.ReflOrd.compare_self hdistinct hmem] at hrow
    rwa [← Option.some.inj hrow]
  | false =>
    rw [Std.ExtTreeMap.getElem?_insertMany_list_of_contains_eq_false hk] at hrow
    cases Std.ExtTreeMap.getElem?_empty.symm.trans hrow

theorem insertMany_toList [BEq κ] [Std.LawfulBEqOrd κ] (t : Table κ ρ) : (∅ : Table κ ρ).insertMany t.toList = t := by
  have hnodup : (t.toList.map Prod.fst).Nodup := by
    rw [Std.ExtTreeMap.map_fst_toList_eq_keys]
    exact Std.ExtTreeMap.nodup_keys
  apply Std.ExtTreeMap.ext_getElem?
  intro k
  apply Option.ext
  intro r
  rw [getElem?_insertMany_iff hnodup, Std.ExtTreeMap.mem_toList_iff_getElem?_eq_some]

/-- `INSERT`: no table if the key is taken. -/
def insertNew (t : Table κ ρ) (k : κ) (r : ρ) : Option (Table κ ρ) :=
  if k ∈ t then none else some (t.insert k r)

omit [Std.LawfulEqOrd κ] in
theorem insertNew_eq_some :
    insertNew t k r = some t' ↔ k ∉ t ∧ t' = t.insert k r := by
  unfold insertNew
  by_cases hk : k ∈ t
  · simp [hk]
  · simp [hk, eq_comm]

omit [Std.LawfulEqOrd κ] in
theorem map_insertNew {β : Type} {g : Table κ ρ → β} {b : β} :
    (insertNew t k r).map g = some b ↔ k ∉ t ∧ g (t.insert k r) = b := by
  simp only [Option.map_eq_some_iff, insertNew_eq_some, and_assoc, exists_eq_left, exists_and_left]

omit [Std.LawfulEqOrd κ] in
theorem insertNew_again (h : insertNew t k r = some t') (r' : ρ) :
    insertNew t' k r' = none := by
  obtain ⟨-, rfl⟩ := insertNew_eq_some.mp h
  exact if_pos Std.ExtTreeMap.mem_insert_self

/-- `INSERT` into a table with a second unique column: no row may clash in it. -/
def insertUnique (clash : ρ → Bool) (t : Table κ ρ) (k : κ) (r : ρ) : Option (Table κ ρ) :=
  if t.toList.any fun row => clash row.2 then none else insertNew t k r

variable {clash : ρ → Bool}

theorem insertUnique_eq_some :
    insertUnique clash t k r = some t' ↔
      (∀ (k' : κ) r', t[k']? = some r' → clash r' = false) ∧ k ∉ t ∧ t' = t.insert k r := by
  have hclash : t.toList.any (fun row => clash row.2) = false ↔ ∀ (k' : κ) r', t[k']? = some r' → clash r' = false := by
    rw [List.any_eq_false]
    constructor
    · intro h k' r' hr
      exact Bool.eq_false_iff.mpr (h (k', r') (Std.ExtTreeMap.mem_toList_iff_getElem?_eq_some.mpr hr))
    · rintro h ⟨k', r'⟩ hr
      exact Bool.eq_false_iff.mp (h k' r' (Std.ExtTreeMap.mem_toList_iff_getElem?_eq_some.mp hr))
  rw [← hclash, ← insertNew_eq_some, insertUnique]
  cases t.toList.any fun row => clash row.2 with
  | true | false => simp

theorem map_insertUnique {β : Type} {g : Table κ ρ → β} {b : β} :
    (insertUnique clash t k r).map g = some b ↔
      (∀ (k' : κ) r', t[k']? = some r' → clash r' = false) ∧ k ∉ t ∧ g (t.insert k r) = b := by
  simp only [Option.map_eq_some_iff, insertUnique_eq_some, and_assoc, exists_eq_left, exists_and_left]

theorem insertUnique_again {r' : ρ} (h : insertUnique clash t k r = some t') :
    insertUnique clash t' k r' = none := by
  obtain ⟨-, -, rfl⟩ := insertUnique_eq_some.mp h
  unfold insertUnique
  split
  · rfl
  · exact if_pos Std.ExtTreeMap.mem_insert_self

theorem getElem?_erase_row (t : Table κ ρ) (k k' : κ) [DecidableEq κ] :
    (t.erase k)[k']? = if k = k' then none else t[k']? := by
  rw [Std.ExtTreeMap.getElem?_erase]
  simp only [Std.LawfulEqOrd.compare_eq_iff_eq]

theorem getElem?_modify_row (t : Table κ ρ) (k k' : κ) (f : ρ → ρ) [DecidableEq κ] :
    (t.modify k f)[k']? = if k = k' then (t[k]?).map f else t[k']? := by
  rw [Std.ExtTreeMap.getElem?_modify]
  simp only [Std.LawfulEqOrd.compare_eq_iff_eq]

theorem insertNew_erase [DecidableEq κ] (t : Table κ ρ) (k : κ) (r : ρ) :
    insertNew (t.erase k) k r = some (t.insert k r) := by
  have hfree : k ∉ t.erase k := by simp
  rw [insertNew, if_neg hfree]
  congr 1
  ext k' : 1
  simp only [getElem?_insert_row, getElem?_erase_row]
  split <;> rfl

theorem insert_twice [DecidableEq κ] (t : Table κ ρ) (k : κ) (r : ρ) : (t.insert k r).insert k r = t.insert k r := by
  ext k' : 1
  simp only [getElem?_insert_row]
  split <;> rfl

theorem map_modify_row [DecidableEq κ] {α : Type} (t : Table κ ρ) (k k' : κ) {f : ρ → ρ} {g : ρ → α}
    (hg : ∀ r, g (f r) = g r) : ((t.modify k f)[k']?).map g = (t[k']?).map g := by
  rw [getElem?_modify_row]
  split
  · next hk =>
    rw [← hk, Option.map_map]
    exact congrFun (congrArg Option.map (funext hg)) _
  · rfl

theorem modify_twice [DecidableEq κ] (t : Table κ ρ) (k : κ) (f : ρ → ρ) (hf : ∀ r, f (f r) = f r) :
    (t.modify k f).modify k f = t.modify k f := by
  ext k' : 1
  simp only [getElem?_modify_row]
  by_cases hk : k = k'
  · simp only [hk, if_true, Option.map_map]
    exact congrFun (congrArg Option.map (funext hf)) _
  · simp only [hk, if_false]

theorem insert_unit_of_mem [DecidableEq κ] {t : Table κ Unit} (h : k ∈ t) : t.insert k () = t := by
  ext k' : 1
  rw [getElem?_insert_row]
  split
  · next hk =>
    subst hk
    obtain ⟨r, hr⟩ := mem_iff_exists_row.mp h
    exact hr.symm
  · rfl

/-! ## Rows as a list -/

theorem nodup_toList (t : Table κ ρ) : t.toList.Nodup := by
  apply (Std.ExtTreeMap.distinct_keys_toList (t := t)).imp
  rintro a b hab rfl
  exact hab Std.ReflCmp.compare_self

theorem toList_eq_of_ordered (hl : l.Pairwise fun a b => compare a.1 b.1 = .lt)
    (h : ∀ k r, (k, r) ∈ l ↔ t[k]? = some r) : t.toList = l := by
  have hnodup : l.Nodup := by
    apply hl.imp
    rintro a b hab rfl
    have hself : compare a.1 a.1 = .eq := Std.ReflCmp.compare_self
    rw [hself] at hab
    cases hab
  have hperm : t.toList.Perm l := by
    apply (List.perm_ext_iff_of_nodup (nodup_toList t) hnodup).mpr
    rintro ⟨k, r⟩
    rw [Std.ExtTreeMap.mem_toList_iff_getElem?_eq_some, h]
  apply hperm.eq_of_pairwise _ Std.ExtTreeMap.ordered_keys_toList hl
  intro a b _ _ hab hba
  have hswap : compare a.1 b.1 = (compare b.1 a.1).swap := Std.OrientedCmp.eq_swap
  rw [hswap, hba] at hab
  cases hab

theorem toList_insert_perm [DecidableEq κ] (h : k ∉ t) (r : ρ) :
    (t.insert k r).toList.Perm ((k, r) :: t.toList) := by
  have hnew : (k, r) ∉ t.toList := by
    intro hmem
    exact h (mem_iff_exists_row.mpr ⟨r, Std.ExtTreeMap.mem_toList_iff_getElem?_eq_some.mp hmem⟩)
  apply (List.perm_ext_iff_of_nodup (nodup_toList _) (List.nodup_cons.mpr ⟨hnew, nodup_toList t⟩)).mpr
  rintro ⟨k', r'⟩
  rw [Std.ExtTreeMap.mem_toList_iff_getElem?_eq_some, getElem?_insert_row, List.mem_cons,
    Std.ExtTreeMap.mem_toList_iff_getElem?_eq_some, Prod.mk.injEq]
  by_cases hk : k = k'
  · subst hk
    have hnone : t[k]? = none := Std.ExtTreeMap.getElem?_eq_none h
    simp [hnone, eq_comm]
  · simp [hk, Ne.symm hk]

theorem toList_insertMany_perm [BEq κ] [Std.LawfulBEqOrd κ] (h : (l.map Prod.fst).Nodup) :
    ((∅ : Table κ ρ).insertMany l).toList.Perm l := by
  apply (List.perm_ext_iff_of_nodup (nodup_toList _) (List.Nodup.of_map Prod.fst h)).mpr
  rintro ⟨k, r⟩
  rw [Std.ExtTreeMap.mem_toList_iff_getElem?_eq_some, getElem?_insertMany_iff h]

theorem toList_perm_erase [DecidableEq κ] (h : t[k]? = some r) :
    t.toList.Perm ((k, r) :: (t.erase k).toList) := by
  have hback : (t.erase k).insert k r = t := by
    ext k' : 1
    rw [getElem?_insert_row, getElem?_erase_row]
    split
    · next hk => rw [← hk, h]
    · rfl
  have hfree : k ∉ t.erase k := by simp
  have hperm := toList_insert_perm hfree r
  rwa [hback] at hperm

section

variable {γ δ : Type}

theorem view_foldl {α : Type} {step : γ → α → γ} {view : γ → δ} (h : ∀ c x, view (step c x) = view c) (l : List α)
    (c : γ) : view (l.foldl step c) = view c := by
  induction l generalizing c with
  | nil => rfl
  | cons x l ih => rw [List.foldl_cons, ih, h]

theorem foldl_toList (t : Table κ ρ) (step : γ → κ × ρ → γ) (view : γ → δ) (k : κ) (g : ρ → δ → δ)
    (hhit : ∀ c r, view (step c (k, r)) = g r (view c))
    (hmiss : ∀ c k' r, k' ≠ k → view (step c (k', r)) = view c) (c : γ) :
    view (t.toList.foldl step c) = match t[k]? with
      | some r => g r (view c)
      | none => view c := by
  have hlist : ∀ (l : List (κ × ρ)) (c : γ), l.Pairwise (fun a b => ¬compare a.1 b.1 = .eq) →
      (∀ r, (k, r) ∈ l → view (l.foldl step c) = g r (view c)) ∧
        ((∀ r, (k, r) ∉ l) → view (l.foldl step c) = view c) := by
    intro l
    induction l with
    | nil => exact fun c _ => ⟨fun r hr => absurd hr List.not_mem_nil, fun _ => rfl⟩
    | cons row l ih =>
      intro c hl
      obtain ⟨k', r'⟩ := row
      obtain ⟨hrow, hrest⟩ := List.pairwise_cons.mp hl
      obtain ⟨hin, hout⟩ := ih (step c (k', r')) hrest
      refine ⟨fun r hr => ?_, fun hr => ?_⟩
      · obtain heq | hmem := List.mem_cons.mp hr
        · cases heq
          rw [List.foldl_cons, hout fun r'' hr'' => hrow _ hr'' Std.ReflCmp.compare_self, hhit]
        · have hne : k' ≠ k := by
            rintro rfl
            exact hrow _ hmem Std.ReflCmp.compare_self
          rw [List.foldl_cons, hin r hmem, hmiss c k' r' hne]
      · have hne : k' ≠ k := by
          rintro rfl
          exact hr r' List.mem_cons_self
        rw [List.foldl_cons, hout fun r'' hr'' => hr r'' (List.mem_cons_of_mem _ hr''), hmiss c k' r' hne]
  obtain ⟨hin, hout⟩ := hlist t.toList c Std.ExtTreeMap.distinct_keys_toList
  cases hk : t[k]? with
  | some r => exact hin r (Std.ExtTreeMap.mem_toList_iff_getElem?_eq_some.mpr hk)
  | none =>
    refine hout fun r hr => ?_
    rw [Std.ExtTreeMap.mem_toList_iff_getElem?_eq_some.mp hr] at hk
    cases hk

end

section

variable {μ : Type} (key : μ → κ) (row : μ → ρ)

/-- Each item in turn replaces the row of its key. -/
def insertAll (t : Table κ ρ) (ms : List μ) : Table κ ρ := ms.foldl (fun t m => t.insert (key m) (row m)) t

variable {key row} {t : Table κ ρ} {ms l : List μ} {k : κ} {r : ρ}

omit [Std.LawfulEqOrd κ] in
theorem insertAll_concat (m : μ) :
    insertAll key row t (ms ++ [m]) = (insertAll key row t ms).insert (key m) (row m) := by
  simp [insertAll]

theorem mem_insertAll : k ∈ insertAll key row t ms ↔ k ∈ t ∨ ∃ m ∈ ms, key m = k := by
  induction ms using List.reverseRecOn with
  | nil => simp [insertAll]
  | append_singleton ms m ih =>
    rw [insertAll_concat, mem_insert_row, ih]
    simp only [List.mem_append, List.mem_singleton]
    constructor
    · rintro (hm | ht | ⟨m', hm', hk⟩)
      · exact .inr ⟨m, .inr rfl, hm⟩
      · exact .inl ht
      · exact .inr ⟨m', .inl hm', hk⟩
    · rintro (ht | ⟨m', hm' | rfl, hk⟩)
      · exact .inr (.inl ht)
      · exact .inr (.inr ⟨m', hm', hk⟩)
      · exact .inl hk

/-- A row that some order leaves under the key: of any item of that key, or the old row if there is none. -/
def Entered (key : μ → κ) (row : μ → ρ) (t : Table κ ρ) (ms : List μ) (k : κ) (r : ρ) : Prop :=
  (∃ m ∈ ms, key m = k ∧ row m = r) ∨ ((∀ m ∈ ms, key m ≠ k) ∧ t[k]? = some r)

omit [Std.LawfulEqOrd κ] in
theorem Entered.of_perm (hperm : l.Perm ms) (h : Entered key row t l k r) : Entered key row t ms k r := by
  obtain ⟨m, hm, hrow⟩ | ⟨hne, hold⟩ := h
  · exact .inl ⟨m, hperm.mem_iff.mp hm, hrow⟩
  · exact .inr ⟨fun m hm => hne m (hperm.mem_iff.mpr hm), hold⟩

variable [DecidableEq κ]

theorem getElem?_insertAll_of_forall_ne (h : ∀ m ∈ ms, key m ≠ k) : (insertAll key row t ms)[k]? = t[k]? := by
  induction ms using List.reverseRecOn with
  | nil => rfl
  | append_singleton ms m ih =>
    rw [insertAll_concat, getElem?_insert_row, if_neg (h m (by simp))]
    exact ih fun m' hm' => h m' (List.mem_append_left _ hm')

theorem entered_of_getElem?_insertAll (h : (insertAll key row t ms)[k]? = some r) : Entered key row t ms k r := by
  induction ms using List.reverseRecOn with
  | nil => exact .inr ⟨by simp, h⟩
  | append_singleton ms m ih =>
    rw [insertAll_concat, getElem?_insert_row] at h
    split at h
    · next hk =>
      cases h
      exact .inl ⟨m, by simp, hk, rfl⟩
    · next hk =>
      obtain ⟨m', hm', hrow⟩ | ⟨hne, hold⟩ := ih h
      · exact .inl ⟨m', List.mem_append_left _ hm', hrow⟩
      · refine .inr ⟨fun m' hm' => ?_, hold⟩
        obtain hm' | hm' := List.mem_append.mp hm'
        · exact hne m' hm'
        · rw [List.mem_singleton.mp hm']
          exact hk

theorem Entered.exists_perm (h : Entered key row t ms k r) :
    ∃ l, l.Perm ms ∧ (insertAll key row t l)[k]? = some r := by
  obtain ⟨m, hm, rfl, rfl⟩ | ⟨hne, hold⟩ := h
  · obtain ⟨before, after, rfl⟩ := List.append_of_mem hm
    refine ⟨before ++ after ++ [m], ?_, ?_⟩
    · rw [List.append_assoc]
      exact List.Perm.append_left before List.perm_append_comm
    · rw [insertAll_concat, getElem?_insert_row, if_pos rfl]
  · exact ⟨ms, .refl _, (getElem?_insertAll_of_forall_ne hne).trans hold⟩

end

section

variable {μ : Type} (key : μ → κ) (row : μ → ρ)

def insertMissing (t : Table κ ρ) (ms : List μ) : Table κ ρ :=
  ms.foldl (fun t m => (insertNew t (key m) (row m)).getD t) t

variable {key row} {t : Table κ ρ} {ms : List μ}

theorem mem_getD_insertNew {k' : κ} : k' ∈ (insertNew t k r).getD t ↔ k = k' ∨ k' ∈ t := by
  unfold insertNew
  split
  · next hk =>
    refine ⟨.inr, ?_⟩
    rintro (rfl | h)
    · exact hk
    · exact h
  · exact mem_insert_row

theorem mem_insertMissing_of_mem (h : k ∈ t) : k ∈ insertMissing key row t ms := by
  induction ms generalizing t with
  | nil => exact h
  | cons m ms ih => exact ih (mem_getD_insertNew.mpr (.inr h))

theorem mem_insertMissing {m : μ} (h : m ∈ ms) : key m ∈ insertMissing key row t ms := by
  induction ms generalizing t with
  | nil => cases h
  | cons m' ms ih =>
    obtain _ | ⟨_, h⟩ := h
    · have hmem : key m ∈ (insertNew t (key m) (row m)).getD t := mem_getD_insertNew.mpr (.inl rfl)
      change key m ∈ insertMissing key row ((insertNew t (key m) (row m)).getD t) ms
      exact mem_insertMissing_of_mem hmem
    · exact ih h

omit [Std.LawfulEqOrd κ] in
theorem insertMissing_of_forall_mem (h : ∀ m ∈ ms, key m ∈ t) : insertMissing key row t ms = t := by
  induction ms with
  | nil => rfl
  | cons m ms ih =>
    have hm : insertNew t (key m) (row m) = none := if_pos (h m List.mem_cons_self)
    change insertMissing key row ((insertNew t (key m) (row m)).getD t) ms = t
    rw [hm]
    exact ih fun m' hm' => h m' (List.mem_cons_of_mem _ hm')

theorem insertMissing_take (n : Nat) : insertMissing key row (insertMissing key row t (ms.take n)) ms =
    insertMissing key row t ms := by
  have happend : ∀ t : Table κ ρ, insertMissing key row t ms =
      insertMissing key row (insertMissing key row t (ms.take n)) (ms.drop n) := by
    intro t
    rw [insertMissing, insertMissing, insertMissing, ← List.foldl_append, List.take_append_drop]
  rw [happend, happend t, insertMissing_of_forall_mem fun m hm => mem_insertMissing hm]

end

end Table

end Abacus.Library
