import Mathlib.Data.List.Perm.Basic

/-! # Updates with a version

A store accepts an item unless it holds a later version. Which items are accepted depends on the order of
arrival; those of the latest time always are.
-/

namespace Abacus.Library.Versioned

variable {μ : Type} (time : μ → Nat)

def Current (v : Option Nat) (m : μ) : Prop := ∀ t ∈ v, t ≤ time m

instance (v : Option Nat) (m : μ) : Decidable (Current time v m) := inferInstanceAs (Decidable (∀ t ∈ v, t ≤ time m))

def accepted : Option Nat → List μ → List μ
  | _, [] => []
  | v, m :: ms => if Current time v m then m :: accepted (some (time m)) ms else accepted v ms

def version : Option Nat → List μ → Option Nat
  | v, [] => v
  | v, m :: ms => if Current time v m then version (some (time m)) ms else version v ms

def Newest (v : Option Nat) (ms : List μ) (n : μ) : Prop :=
  n ∈ ms ∧ Current time v n ∧ ∀ m ∈ ms, time m ≤ time n

variable {time} {v : Option Nat} {ms l : List μ} {m n : μ}

theorem mem_of_mem_accepted (h : m ∈ accepted time v ms) : m ∈ ms ∧ Current time v m := by
  induction ms generalizing v with
  | nil => cases h
  | cons a ms ih =>
    rw [accepted] at h
    split at h
    · next ha =>
      obtain rfl | hm := List.mem_cons.mp h
      · exact ⟨List.mem_cons_self, ha⟩
      · obtain ⟨hmem, hcur⟩ := ih hm
        exact ⟨List.mem_cons_of_mem _ hmem, fun t ht => Nat.le_trans (ha t ht) (hcur _ rfl)⟩
    · obtain ⟨hmem, hcur⟩ := ih h
      exact ⟨List.mem_cons_of_mem _ hmem, hcur⟩

theorem pairwise_accepted : (accepted time v ms).Pairwise fun a b => time a ≤ time b := by
  induction ms generalizing v with
  | nil => exact .nil
  | cons a ms ih =>
    rw [accepted]
    split
    · refine List.pairwise_cons.mpr ⟨fun b hb => ?_, ih⟩
      exact (mem_of_mem_accepted hb).2 _ rfl
    · exact ih

theorem mem_accepted_of_newest (h : Newest time v ms n) : n ∈ accepted time v ms := by
  obtain ⟨hmem, hcur, hmax⟩ := h
  induction ms generalizing v with
  | nil => cases hmem
  | cons a ms ih =>
    have hrest : ∀ m ∈ ms, time m ≤ time n := fun m hm => hmax m (List.mem_cons_of_mem _ hm)
    rw [accepted]
    obtain rfl | hmem := List.mem_cons.mp hmem
    · rw [if_pos hcur]
      exact List.mem_cons_self
    · split
      · refine List.mem_cons_of_mem _ (ih hmem ?_ hrest)
        rintro t ⟨⟩
        exact hmax a List.mem_cons_self
      · exact ih hmem hcur hrest

theorem newest_of_mem_after {pre post : List μ} {x : μ} (h : accepted time v ms = pre ++ n :: post)
    (hn : Newest time v ms n) (hx : x ∈ n :: post) : Newest time v ms x := by
  have hmem : x ∈ accepted time v ms := h ▸ List.mem_append_right _ hx
  obtain ⟨hms, hcur⟩ := mem_of_mem_accepted hmem
  have hle : time n ≤ time x := by
    have hpair : (pre ++ n :: post).Pairwise fun a b => time a ≤ time b := h ▸ pairwise_accepted
    obtain rfl | hx := List.mem_cons.mp hx
    · exact Nat.le_refl _
    · exact (List.pairwise_cons.mp (List.pairwise_append.mp hpair).2.1).1 x hx
  exact ⟨hms, hcur, fun m hm => Nat.le_trans (hn.2.2 m hm) hle⟩

theorem Newest.of_perm (h : Newest time v l n) (hperm : l.Perm ms) : Newest time v ms n :=
  ⟨hperm.mem_iff.mp h.1, h.2.1, fun m hm => h.2.2 m (hperm.mem_iff.mpr hm)⟩

theorem exists_newest (hm : m ∈ ms) (hcur : Current time v m) : ∃ n, Newest time v ms n := by
  have hmax : ∃ n ∈ ms, ∀ m ∈ ms, time m ≤ time n := by
    clear hcur
    induction ms generalizing m with
    | nil => cases hm
    | cons a ms ih =>
      cases ms with
      | nil => exact ⟨a, List.mem_cons_self, by simp⟩
      | cons b ms =>
        obtain ⟨n, hn, hle⟩ := ih (m := b) List.mem_cons_self
        obtain h | h := Nat.le_total (time a) (time n)
        · exact ⟨n, List.mem_cons_of_mem _ hn, List.forall_mem_cons.mpr ⟨h, hle⟩⟩
        · refine ⟨a, List.mem_cons_self, List.forall_mem_cons.mpr ⟨Nat.le_refl _, fun m hm => ?_⟩⟩
          exact Nat.le_trans (hle m hm) h
  obtain ⟨n, hn, hle⟩ := hmax
  exact ⟨n, hn, fun t ht => Nat.le_trans (hcur t ht) (hle m hm), hle⟩

theorem accepted_append (v : Option Nat) (pre post : List μ) :
    accepted time v (pre ++ post) = accepted time v pre ++ accepted time (version time v pre) post := by
  induction pre generalizing v with
  | nil => rfl
  | cons a pre ih =>
    rw [List.cons_append, accepted, accepted, version]
    split
    · rw [ih, List.cons_append]
    · exact ih v

theorem mem_version {t : Nat} (h : t ∈ version time v ms) : t ∈ v ∨ ∃ m ∈ ms, time m = t := by
  induction ms generalizing v with
  | nil => exact .inl h
  | cons a ms ih =>
    rw [version] at h
    split at h
    · obtain hta | ⟨m, hm, hmt⟩ := ih h
      · cases hta
        exact .inr ⟨a, List.mem_cons_self, rfl⟩
      · exact .inr ⟨m, List.mem_cons_of_mem _ hm, hmt⟩
    · obtain htv | ⟨m, hm, hmt⟩ := ih h
      · exact .inl htv
      · exact .inr ⟨m, List.mem_cons_of_mem _ hm, hmt⟩

theorem exists_perm_last (hn : Newest time v ms n) : ∃ l pre, l.Perm ms ∧ accepted time v l = pre ++ [n] := by
  obtain ⟨hmem, hcur, hmax⟩ := hn
  obtain ⟨before, after, rfl⟩ := List.append_of_mem hmem
  refine ⟨before ++ after ++ [n], accepted time v (before ++ after), ?_, ?_⟩
  · rw [List.append_assoc]
    exact List.Perm.append_left before List.perm_append_comm
  · have hcur' : Current time (version time v (before ++ after)) n := by
      intro t ht
      obtain htv | ⟨m, hm, rfl⟩ := mem_version ht
      · exact hcur t htv
      · refine hmax m ?_
        simp only [List.mem_append, List.mem_cons] at hm ⊢
        tauto
    rw [accepted_append, accepted, if_pos hcur']
    rfl

theorem accepted_eq_nil (h : ∀ m ∈ ms, ¬Current time v m) : accepted time v ms = [] := by
  induction ms with
  | nil => rfl
  | cons a ms ih =>
    rw [accepted, if_neg (h a List.mem_cons_self)]
    exact ih fun m hm => h m (List.mem_cons_of_mem _ hm)

theorem accepted_same_time {t : Nat} (hms : ∀ m ∈ ms, time m = t) (hv : ∀ t' ∈ v, t' ≤ t) :
    accepted time v ms = ms ∧ (ms ≠ [] → version time v ms = some t) := by
  induction ms generalizing v with
  | nil => exact ⟨rfl, fun h => absurd rfl h⟩
  | cons a ms ih =>
    have ha := hms a List.mem_cons_self
    have hcur : Current time v a := fun t' ht' => ha ▸ hv t' ht'
    have hv' : ∀ t' ∈ some (time a), t' ≤ t := by
      rintro t' ⟨⟩
      exact Nat.le_of_eq ha
    obtain ⟨hacc, hver⟩ := ih (fun m hm => hms m (List.mem_cons_of_mem _ hm)) hv'
    rw [accepted, version, if_pos hcur, if_pos hcur, hacc]
    refine ⟨rfl, fun _ => ?_⟩
    cases ms with
    | nil => rw [version, ha]
    | cons b ms => exact hver (List.cons_ne_nil b ms)

theorem accepted_newest_first {rest : List μ} {t : Nat} (hms : ∀ m ∈ ms, time m = t) (hne : ms ≠ [])
    (hv : ∀ t' ∈ v, t' ≤ t) (hrest : ∀ m ∈ rest, time m < t) : accepted time v (ms ++ rest) = ms := by
  obtain ⟨hacc, hver⟩ := accepted_same_time hms hv
  rw [accepted_append, hacc, hver hne, accepted_eq_nil, List.append_nil]
  intro m hm hcur
  exact absurd (hcur t rfl) (Nat.not_le.mpr (hrest m hm))

def atTime (time : μ → Nat) (ms : List μ) (t : Nat) : List μ := ms.filter fun m => time m = t

variable (hn : Newest time v ms n)

include hn

theorem exists_perm_newest : ∃ l, l.Perm ms ∧ accepted time v l = atTime time ms (time n) := by
  refine ⟨_, List.filter_append_perm (fun m => time m = time n) ms, accepted_newest_first ?_ ?_ hn.2.1 ?_⟩
  · exact fun m hm => of_decide_eq_true (List.mem_filter.mp hm).2
  · exact List.ne_nil_of_mem (List.mem_filter.mpr ⟨hn.1, decide_eq_true rfl⟩)
  · intro m hm
    obtain ⟨hmem, hne⟩ := List.mem_filter.mp hm
    have hle := hn.2.2 m hmem
    simp only [Bool.not_eq_true', decide_eq_false_iff_not] at hne
    omega

theorem exists_perm_before (hm : m ∈ ms) (hcur : Current time v m) (hlt : time m < time n) :
    ∃ l, l.Perm ms ∧ accepted time v l = m :: atTime time ms (time n) := by
  obtain ⟨before, after, rfl⟩ := List.append_of_mem hm
  have hn' : Newest time (some (time m)) (before ++ after) n := by
    refine ⟨?_, ?_, fun a ha => hn.2.2 a ?_⟩
    · obtain hmem | hmem := List.mem_append.mp hn.1
      · exact List.mem_append_left _ hmem
      · obtain rfl | hmem := List.mem_cons.mp hmem
        · omega
        · exact List.mem_append_right _ hmem
    · rintro t ⟨⟩
      exact Nat.le_of_lt hlt
    · simp only [List.mem_append, List.mem_cons] at ha ⊢
      tauto
  obtain ⟨l, hperm, hacc⟩ := exists_perm_newest hn'
  refine ⟨m :: l, (hperm.cons m).trans List.perm_middle.symm, ?_⟩
  have hne : ¬time m = time n := by omega
  rw [accepted, if_pos hcur, hacc, atTime, atTime]
  simp [hne]

omit hn

section

variable {δ : Type} (effect : μ → Option δ)

def replace (x : δ) (ms : List μ) : δ := ms.foldl (fun x m => (effect m).getD x) x

variable {effect} {x d : δ}

theorem replace_cases (effect : μ → Option δ) (x : δ) (ms : List μ) :
    (∀ m ∈ ms, effect m = none) ∧ replace effect x ms = x ∨
      ∃ pre m post, ms = pre ++ m :: post ∧ effect m = some (replace effect x ms) ∧ ∀ m' ∈ post, effect m' = none := by
  induction ms generalizing x with
  | nil => exact .inl ⟨by simp, rfl⟩
  | cons a ms ih =>
    rw [replace, List.foldl_cons, ← replace]
    obtain ⟨hnone, heq⟩ | ⟨pre, m, post, rfl, hm, hpost⟩ := ih ((effect a).getD x)
    · cases ha : effect a with
      | none =>
        rw [ha] at heq
        refine .inl ⟨fun m hm => ?_, heq⟩
        obtain rfl | hm := List.mem_cons.mp hm
        · exact ha
        · exact hnone m hm
      | some d =>
        rw [ha] at heq
        exact .inr ⟨[], a, ms, rfl, ha.trans (congrArg some heq.symm), hnone⟩
    · exact .inr ⟨a :: pre, m, post, rfl, hm, hpost⟩

theorem exists_newest_replace (hn : Newest time v ms n) (heffect : effect n ≠ none) :
    ∃ n', Newest time v ms n' ∧ effect n' = some (replace effect x (accepted time v ms)) := by
  have hmem := mem_accepted_of_newest hn
  obtain ⟨hnone, -⟩ | ⟨pre, m, post, hacc, hm, hpost⟩ := replace_cases effect x (accepted time v ms)
  · exact absurd (hnone n hmem) heffect
  · rw [hacc] at hmem
    obtain hpre | hmem := List.mem_append.mp hmem
    · obtain ⟨p₁, p₂, rfl⟩ := List.append_of_mem hpre
      rw [List.append_assoc, List.cons_append] at hacc
      refine ⟨m, newest_of_mem_after hacc hn ?_, hm⟩
      exact List.mem_cons_of_mem _ (List.mem_append_right _ List.mem_cons_self)
    · obtain rfl | hmem := List.mem_cons.mp hmem
      · exact ⟨n, hn, hm⟩
      · exact absurd (hpost n hmem) heffect

/-- Otherwise the value is the old one, or some item that is not older than the stored version replaces it. -/
theorem replace_accepted_cases (time : μ → Nat) (effect : μ → Option δ) (x : δ) (v : Option Nat) (ms : List μ) :
    replace effect x (accepted time v ms) = x ∨
      ∃ m ∈ ms, Current time v m ∧ effect m = some (replace effect x (accepted time v ms)) := by
  obtain ⟨-, heq⟩ | ⟨pre, m, post, hacc, hm, -⟩ := replace_cases effect x (accepted time v ms)
  · exact .inl heq
  · obtain ⟨hmem, hcur⟩ :=
      mem_of_mem_accepted (hacc ▸ List.mem_append_right pre List.mem_cons_self : m ∈ accepted time v ms)
    exact .inr ⟨m, hmem, hcur, hm⟩

theorem replace_append (x : δ) (pre post : List μ) :
    replace effect x (pre ++ post) = replace effect (replace effect x pre) post :=
  List.foldl_append

theorem replace_of_forall_none (h : ∀ m ∈ ms, effect m = none) : replace effect x ms = x := by
  induction ms with
  | nil => rfl
  | cons a ms ih =>
    rw [replace, List.foldl_cons, h a List.mem_cons_self]
    exact ih fun m hm => h m (List.mem_cons_of_mem _ hm)

/-- The newest items that replace the value agree; and if none of them does, no other item that may be accepted changes
it. -/
structure Settled (time : μ → Nat) (effect : μ → Option δ) (v : Option Nat) (x : δ) (ms : List μ) : Prop where
  newest : ∀ n₁ n₂, Newest time v ms n₁ → Newest time v ms n₂ → ∀ o₁ ∈ effect n₁, ∀ o₂ ∈ effect n₂, o₁ = o₂
  kept : (∃ n, Newest time v ms n) → (∀ n, Newest time v ms n → effect n = none) →
    ∀ m ∈ ms, Current time v m → ∀ o ∈ effect m, o = x

theorem Settled.of_some {f : μ → δ} (h : ∀ n₁ n₂, Newest time v ms n₁ → Newest time v ms n₂ → f n₁ = f n₂) :
    Settled time (fun m => some (f m)) v x ms where
  newest n₁ n₂ h₁ h₂ := by
    rintro _ ⟨⟩ _ ⟨⟩
    exact h n₁ n₂ h₁ h₂
  kept := by
    rintro ⟨n, hn⟩ hnone
    cases hnone n hn

/-- All orders of arrival lead to one value. -/
def Ordered (time : μ → Nat) (effect : μ → Option δ) (v : Option Nat) (x : δ) (ms : List μ) : Prop :=
  ∀ l₁ l₂, l₁.Perm ms → l₂.Perm ms → replace effect x (accepted time v l₁) = replace effect x (accepted time v l₂)

theorem Ordered.settled (h : Ordered time effect v x ms) : Settled time effect v x ms where
  newest n₁ n₂ h₁ h₂ o₁ ho₁ o₂ ho₂ := by
    obtain ⟨l₁, pre₁, hperm₁, hacc₁⟩ := exists_perm_last h₁
    obtain ⟨l₂, pre₂, hperm₂, hacc₂⟩ := exists_perm_last h₂
    have hsame := h l₁ l₂ hperm₁ hperm₂
    rw [hacc₁, hacc₂, replace_append, replace_append] at hsame
    simpa [replace, Option.mem_def.mp ho₁, Option.mem_def.mp ho₂] using hsame
  kept := by
    rintro ⟨n, hn⟩ hkeep m hm hcur o ho
    have hlt : time m < time n := by
      refine Nat.lt_of_le_of_ne (hn.2.2 m hm) fun heq => ?_
      have hnone := hkeep m ⟨hm, hcur, fun m' hm' => heq ▸ hn.2.2 m' hm'⟩
      rw [Option.mem_def.mp ho] at hnone
      cases hnone
    have hnewest : ∀ m' ∈ atTime time ms (time n), effect m' = none := by
      intro m' hm'
      obtain ⟨hmem, htime⟩ := List.mem_filter.mp hm'
      have htime := of_decide_eq_true htime
      exact hkeep m' ⟨hmem, fun t ht => htime ▸ hn.2.1 t ht, fun a ha => htime ▸ hn.2.2 a ha⟩
    -- `m` is accepted if it comes first, and not if the newest items do
    obtain ⟨l₁, hperm₁, hacc₁⟩ := exists_perm_newest hn
    obtain ⟨l₂, hperm₂, hacc₂⟩ := exists_perm_before hn hm hcur hlt
    have hsame := h l₁ l₂ hperm₁ hperm₂
    rw [hacc₁, hacc₂, replace_of_forall_none hnewest, replace, List.foldl_cons, ← replace,
      replace_of_forall_none hnewest, Option.mem_def.mp ho] at hsame
    exact hsame.symm

/-- The value that every order leads to: that of the newest items, or the stored one. -/
theorem Settled.value (h : Settled time effect v x ms) (hn : Newest time v ms n) (hperm : l.Perm ms) :
    let y := replace effect x (accepted time v l)
    (∀ n', Newest time v ms n' → effect n' = none) ∧ y = x ∨ ∃ n', Newest time v ms n' ∧ effect n' = some y := by
  intro y
  by_cases hkeep : ∀ n', Newest time v ms n' → effect n' = none
  · refine .inl ⟨hkeep, ?_⟩
    obtain heq | ⟨m, hm, hcur, ho⟩ := replace_accepted_cases time effect x v l
    · exact heq
    · exact h.kept ⟨n, hn⟩ hkeep m (hperm.mem_iff.mp hm) hcur _ ho
  · obtain ⟨n', hkeep⟩ := not_forall.mp hkeep
    obtain ⟨hn', hne⟩ := Classical.not_imp.mp hkeep
    obtain ⟨n'', hn'', ho⟩ := exists_newest_replace (hn'.of_perm hperm.symm) hne
    exact .inr ⟨n'', hn''.of_perm hperm, ho⟩

theorem Settled.ordered (h : Settled time effect v x ms) : Ordered time effect v x ms := by
  intro l₁ l₂ hperm₁ hperm₂
  by_cases hsome : ∃ n, Newest time v ms n
  · obtain ⟨n, hn⟩ := hsome
    obtain ⟨hkeep, heq₁⟩ | ⟨n₁, hn₁, ho₁⟩ := h.value hn hperm₁
    · obtain ⟨-, heq₂⟩ | ⟨n₂, hn₂, ho₂⟩ := h.value hn hperm₂
      · exact heq₁.trans heq₂.symm
      · cases (hkeep n₂ hn₂).symm.trans ho₂
    · obtain ⟨hkeep, -⟩ | ⟨n₂, hn₂, ho₂⟩ := h.value hn hperm₂
      · cases (hkeep n₁ hn₁).symm.trans ho₁
      · exact h.newest n₁ n₂ hn₁ hn₂ _ ho₁ _ ho₂
  · -- every item is older than the stored version
    have hold : ∀ l, l.Perm ms → accepted time v l = [] := fun l hperm =>
      accepted_eq_nil fun m hm hcur => hsome (exists_newest (hperm.mem_iff.mp hm) hcur)
    rw [hold l₁ hperm₁, hold l₂ hperm₂]

theorem ordered_iff_settled : Ordered time effect v x ms ↔ Settled time effect v x ms :=
  ⟨Ordered.settled, Settled.ordered⟩

end

end Abacus.Library.Versioned
