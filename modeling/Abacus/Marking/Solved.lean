import Abacus.Database.Marks

/-! # Two notions of a solved problem

The dependency check asks for the latest mark of a submission, and the standings for the mark by the user of
least type.
-/

namespace Abacus.Marking.Solved

open Library Library.Bytes Database.Schema Database.Marks

variable (c : Contest)

def SubmissionOf (userId probId submissionId : Nat) : Prop :=
  ∃ s, c.submission[submissionId]? = some s ∧ s.userId = userId ∧ s.probId = probId

def SolvedByState (o : OrderBy (MarkRow × Nat)) (userId probId : Nat) : Prop :=
  ∃ s, SubmissionOf c userId probId s ∧ ∃ st, getSubmissionState c o s = some st ∧ st.state = 0

/-- Both notions give the same answer, however the database orders equal keys. -/
def NotionsAgree (userId probId : Nat) : Prop :=
  ∀ o₁ o₂, hasSolved c o₁ userId probId = true ↔ SolvedByState c o₂ userId probId

def Marked (submissionId markerId : Nat) (m : SubmissionMark) : Prop :=
  c.submissionMark[(submissionId, markerId)]? = some m

def IsNewest (submissionId : Nat) (m : SubmissionMark) : Prop :=
  (∃ marker, Marked c submissionId marker m) ∧ ∀ marker m', Marked c submissionId marker m' → m'.markTime ≤ m.markTime

def MarkedBy (submissionId : Nat) (m : SubmissionMark) (type : Nat) : Prop :=
  ∃ marker user, Marked c submissionId marker m ∧ c.user[marker]? = some user ∧ user.type = type

/-- The mark is by a user, and no user who marked the submission has a lesser type. -/
def IsTop (submissionId : Nat) (m : SubmissionMark) : Prop :=
  ∃ type, MarkedBy c submissionId m type ∧ ∀ m' type', MarkedBy c submissionId m' type' → type ≤ type'

/-- The marks that may decide include none but correct ones. -/
def Certain (decides : Nat → SubmissionMark → Prop) (userId probId : Nat) : Prop :=
  ∃ s, SubmissionOf c userId probId s ∧ (∃ m, decides s m) ∧ ∀ m, decides s m → m.result = 0

/-- The marks that may decide include a correct one. -/
def Possible (decides : Nat → SubmissionMark → Prop) (userId probId : Nat) : Prop :=
  ∃ s, SubmissionOf c userId probId s ∧ ∃ m, decides s m ∧ m.result = 0

theorem mem_markRows {s : Nat} {r : MarkRow} : r ∈ markRows c s ↔ r.1.1 = s ∧ Marked c s r.1.2 r.2 := by
  obtain ⟨⟨s', marker⟩, m⟩ := r
  simp only [markRows, List.mem_filter, decide_eq_true_eq, Marked]
  rw [Std.ExtTreeMap.mem_toList_iff_getElem?_eq_some]
  constructor
  · rintro ⟨hrow, rfl⟩
    exact ⟨rfl, hrow⟩
  · rintro ⟨rfl, hrow⟩
    exact ⟨hrow, rfl⟩

theorem mem_stateRows {s : Nat} {r : MarkRow} {type : Nat} :
    (r, type) ∈ stateRows c s ↔ r ∈ markRows c s ∧ ∃ user, c.user[r.1.2]? = some user ∧ user.type = type := by
  simp only [stateRows, List.mem_filterMap, Option.map_eq_some_iff, Prod.mk.injEq]
  constructor
  · rintro ⟨r', hr', user, huser, rfl, rfl⟩
    exact ⟨hr', user, huser, rfl⟩
  · rintro ⟨hr, user, huser, rfl⟩
    exact ⟨r, hr, user, huser, rfl, rfl⟩

theorem isNewest_iff (s : Nat) (m : SubmissionMark) :
    IsNewest c s m ↔ ∃ r, OrderBy.Least (fun r : MarkRow => -(r.2.markTime : Int)) (markRows c s) r ∧ r.2 = m := by
  constructor
  · rintro ⟨⟨marker, hm⟩, hmax⟩
    refine ⟨((s, marker), m), ⟨(mem_markRows c).mpr ⟨rfl, hm⟩, fun r hr => ?_⟩, rfl⟩
    have hle := hmax r.1.2 r.2 ((mem_markRows c).mp hr).2
    simp only [neg_le_neg_iff, Nat.cast_le]
    exact hle
  · rintro ⟨⟨⟨s', marker⟩, m⟩, ⟨hr, hmax⟩, rfl⟩
    refine ⟨⟨marker, ((mem_markRows c).mp hr).2⟩, fun marker' m' hm' => ?_⟩
    have hle := hmax ((s, marker'), m') ((mem_markRows c).mpr ⟨rfl, hm'⟩)
    simpa using hle

theorem isTop_iff (s : Nat) (m : SubmissionMark) :
    IsTop c s m ↔ ∃ r, OrderBy.Least (fun r : MarkRow × Nat => (r.2 : Int)) (stateRows c s) r ∧ r.1.2 = m := by
  constructor
  · rintro ⟨type, ⟨marker, user, hm, huser, rfl⟩, hmin⟩
    refine ⟨(((s, marker), m), user.type), ⟨?_, ?_⟩, rfl⟩
    · exact (mem_stateRows c).mpr ⟨(mem_markRows c).mpr ⟨rfl, hm⟩, user, huser, rfl⟩
    · rintro ⟨r, type'⟩ hr
      obtain ⟨hmark, user', huser', rfl⟩ := (mem_stateRows c).mp hr
      exact Int.ofNat_le.mpr (hmin r.2 _ ⟨r.1.2, user', ((mem_markRows c).mp hmark).2, huser', rfl⟩)
  · rintro ⟨⟨⟨⟨s', marker⟩, m⟩, type⟩, ⟨hr, hmin⟩, rfl⟩
    obtain ⟨hmark, user, huser, rfl⟩ := (mem_stateRows c).mp hr
    refine ⟨user.type, ⟨marker, user, ((mem_markRows c).mp hmark).2, huser, rfl⟩, ?_⟩
    rintro m' type' ⟨marker', user', hm', huser', rfl⟩
    refine Int.ofNat_le.mp (hmin (((s, marker'), m'), user'.type) ?_)
    exact (mem_stateRows c).mpr ⟨(mem_markRows c).mpr ⟨rfl, hm'⟩, user', huser', rfl⟩

theorem hasSolved_iff (o : OrderBy MarkRow) (userId probId : Nat) :
    hasSolved c o userId probId = true ↔
      ∃ s, SubmissionOf c userId probId s ∧
        ∃ r, (o.sort (fun r => -(r.2.markTime : Int)) (markRows c s)).head? = some r ∧ r.2.result = 0 := by
  simp only [hasSolved, List.any_eq_true, Bool.and_eq_true, decide_eq_true_eq, Option.any_eq_true, newestMark,
    SubmissionOf]
  constructor
  · rintro ⟨⟨s, row⟩, hrow, ⟨huser, hprob⟩, r, hr, hresult⟩
    exact ⟨s, ⟨row, Std.ExtTreeMap.mem_toList_iff_getElem?_eq_some.mp hrow, huser, hprob⟩, r, hr, hresult⟩
  · rintro ⟨s, ⟨row, hrow, huser, hprob⟩, r, hr, hresult⟩
    exact ⟨(s, row), Std.ExtTreeMap.mem_toList_iff_getElem?_eq_some.mpr hrow, ⟨huser, hprob⟩, r, hr, hresult⟩

theorem solvedByState_iff (o : OrderBy (MarkRow × Nat)) (userId probId : Nat) :
    SolvedByState c o userId probId ↔
      ∃ s, SubmissionOf c userId probId s ∧
        ∃ r, (o.sort (fun r => (r.2 : Int)) (stateRows c s)).head? = some r ∧ r.1.2.result = 0 := by
  simp only [SolvedByState, getSubmissionState, Option.map_eq_some_iff]
  constructor
  · rintro ⟨s, hs, _, ⟨r, hr, rfl⟩, hstate⟩
    exact ⟨s, hs, r, hr, Int.ofNat_inj.mp hstate⟩
  · rintro ⟨s, hs, r, hr, hresult⟩
    exact ⟨s, hs, rowState r, ⟨r, hr, rfl⟩, congrArg Int.ofNat hresult⟩

section

variable {α : Type} {key : α → Int} {rows : Nat → List α} {mark : α → SubmissionMark}
  {decides : Nat → SubmissionMark → Prop}
  (hdecides : ∀ s m, decides s m ↔ ∃ r, OrderBy.Least key (rows s) r ∧ mark r = m) (userId probId : Nat)

include hdecides

theorem certain_iff :
    Certain c decides userId probId ↔
      ∃ s, SubmissionOf c userId probId s ∧ rows s ≠ [] ∧ ∀ r, OrderBy.Least key (rows s) r → (mark r).result = 0 := by
  simp only [Certain, hdecides]
  constructor
  · rintro ⟨s, hs, ⟨m, r, hr, rfl⟩, hall⟩
    exact ⟨s, hs, List.ne_nil_of_mem hr.1, fun r hr => hall _ ⟨r, hr, rfl⟩⟩
  · rintro ⟨s, hs, hne, hall⟩
    obtain ⟨r, hr⟩ := OrderBy.exists_least key hne
    refine ⟨s, hs, ⟨_, r, hr, rfl⟩, ?_⟩
    rintro m ⟨r, hr, rfl⟩
    exact hall r hr

theorem possible_iff :
    Possible c decides userId probId ↔
      ∃ s, SubmissionOf c userId probId s ∧ ∃ r, OrderBy.Least key (rows s) r ∧ (mark r).result = 0 := by
  simp only [Possible, hdecides]
  constructor
  · rintro ⟨s, hs, m, ⟨r, hr, rfl⟩, hresult⟩
    exact ⟨s, hs, r, hr, hresult⟩
  · rintro ⟨s, hs, r, hr, hresult⟩
    exact ⟨s, hs, _, ⟨r, hr, rfl⟩, hresult⟩

end

theorem forall_hasSolved_iff (userId probId : Nat) :
    (∀ o, hasSolved c o userId probId = true) ↔ Certain c (IsNewest c) userId probId := by
  rw [certain_iff c (isNewest_iff c) userId probId]
  simp only [hasSolved_iff]
  exact OrderBy.forall_exists_head?_iff (SubmissionOf c userId probId) _ (markRows c) fun r => r.2.result = 0

theorem exists_hasSolved_iff (userId probId : Nat) :
    (∃ o, hasSolved c o userId probId = true) ↔ Possible c (IsNewest c) userId probId := by
  rw [possible_iff c (isNewest_iff c) userId probId]
  simp only [hasSolved_iff]
  exact OrderBy.exists_exists_head?_iff (SubmissionOf c userId probId) _ (markRows c) fun r => r.2.result = 0

theorem forall_solvedByState_iff (userId probId : Nat) :
    (∀ o, SolvedByState c o userId probId) ↔ Certain c (IsTop c) userId probId := by
  rw [certain_iff c (isTop_iff c) userId probId]
  simp only [solvedByState_iff]
  exact OrderBy.forall_exists_head?_iff (SubmissionOf c userId probId) _ (stateRows c) fun r => r.1.2.result = 0

theorem exists_solvedByState_iff (userId probId : Nat) :
    (∃ o, SolvedByState c o userId probId) ↔ Possible c (IsTop c) userId probId := by
  rw [possible_iff c (isTop_iff c) userId probId]
  simp only [solvedByState_iff]
  exact OrderBy.exists_exists_head?_iff (SubmissionOf c userId probId) _ (stateRows c) fun r => r.1.2.result = 0

/-- Both are certain to hold or neither can: one looks at the latest marks, the other at those by users of least
type. -/
theorem notionsAgree_iff (userId probId : Nat) :
    NotionsAgree c userId probId ↔
      (Certain c (IsNewest c) userId probId ∧ Certain c (IsTop c) userId probId) ∨
        (¬Possible c (IsNewest c) userId probId ∧ ¬Possible c (IsTop c) userId probId) := by
  rw [← forall_hasSolved_iff, ← exists_hasSolved_iff, ← forall_solvedByState_iff, ← exists_solvedByState_iff]
  constructor
  · intro hagree
    by_cases hsolved : hasSolved c .stable userId probId = true
    · have hstate : ∀ o, SolvedByState c o userId probId := fun o => (hagree _ o).mp hsolved
      exact .inl ⟨fun o => (hagree o .stable).mpr (hstate _), hstate⟩
    · have hstate : ∀ o, ¬SolvedByState c o userId probId := fun o h => hsolved ((hagree _ o).mpr h)
      refine .inr ⟨?_, ?_⟩
      · rintro ⟨o, ho⟩
        exact hstate .stable ((hagree o _).mp ho)
      · rintro ⟨o, ho⟩
        exact hstate o ho
  · rintro (⟨hsolved, hstate⟩ | ⟨hsolved, hstate⟩) o₁ o₂
    · exact iff_of_true (hsolved o₁) (hstate o₂)
    · exact iff_of_false (fun h => hsolved ⟨o₁, h⟩) fun h => hstate ⟨o₂, h⟩

def userOfType (username : Str) (type : Nat) : User where
  username
  friendlyname := []
  password := []
  type
  group := 1
  bonusPoints := 0
  bonusSeconds := 0

def overruledLater : Contest where
  __ := Contest.empty
  user := (∅ : Table Nat User)
    |>.insert 17 (userOfType (str "judge") 2)
    |>.insert 33 (userOfType (str "team") 3)
    |>.insert 49 (userOfType (str "marker") 4)
  submission := (∅ : Table Nat Submission)
    |>.insert 17 { userId := 33, probId := 1, time := 5, serverId := 1, content := [], language := str "C" }
  submissionMark := (∅ : Table (Nat × Nat) SubmissionMark)
    |>.insert (17, 17) { markTime := 10, result := 1, remark := str "Wrong answer", serverId := 1 }
    |>.insert (17, 49) { markTime := 20, result := 0, remark := str "Correct answer", serverId := 1 }

theorem not_notionsAgree : ¬∀ (c : Contest) (userId probId : Nat), NotionsAgree c userId probId := by
  intro hall
  have hsolved : hasSolved overruledLater .stable 33 1 = true := by decide
  obtain ⟨s, ⟨row, hrow, _⟩, st, hst, hcorrect⟩ := (hall overruledLater 33 1 .stable .stable).mp hsolved
  have honly : ∀ r ∈ overruledLater.submission.toList, r.1 = 17 := by decide
  have hs := honly (s, row) (Std.ExtTreeMap.mem_toList_iff_getElem?_eq_some.mpr hrow)
  have hwrong : ∀ st ∈ getSubmissionState overruledLater .stable 17, st.state = 1 := by decide
  rw [show s = 17 from hs] at hst
  rw [hwrong st hst] at hcorrect
  exact absurd hcorrect (by decide)

end Abacus.Marking.Solved
