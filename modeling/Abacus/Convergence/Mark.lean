import Abacus.Marking.Solved
import Abacus.Peer.Process

/-! # Convergence of marks

A mark replaces the stored mark of the same marker, and the state of a submission is read from a mark by
a user of least type. So it depends on the last mark to arrive from each of those users.
-/

namespace Abacus.Convergence.Mark

open Library Library.Bytes Database.Schema Database.Peer Database.Marks Peer.Classes Peer.Process Marking.Solved

def markKey (m : MarkMessage) : Nat × Nat := (m.submissionId, m.marker)

def markRow (m : MarkMessage) : SubmissionMark where
  markTime := m.time
  result := min m.result maxInt
  remark := m.comment
  serverId := m.serverId

section

def Holds (user : Table Nat User) (marks : Table (Nat × Nat) SubmissionMark) (db : Db) : Prop :=
  db.contest.user = user ∧ db.contest.submissionMark = marks

variable {user : Table Nat User} {marks : Table (Nat × Nat) SubmissionMark}

theorem holds_process_mark {db : Db} (env : Env) (key : MessageKey) (m : MarkMessage) (h : Holds user marks db) :
    Holds user (marks.insert (markKey m) (markRow m)) ((process env key (.mark m)).final db) := by
  obtain ⟨rfl, rfl⟩ := h
  obtain ⟨hfinal, -⟩ := MarkMessage.run_intProcess env m db
  rw [Holds, contest_final_process, intProcess, hfinal]
  exact ⟨rfl, rfl⟩

/-- The run lemma: the marks arrive in the order in which they are processed. -/
theorem holds_processAll (db : Db) {arrivals : List Arrival} {ms : List MarkMessage} (h : Holds user marks db)
    (hms : arrivals.map Arrival.message = ms.map .mark) :
    Holds user (Table.insertAll markKey markRow marks ms) (processAll arrivals db) := by
  induction ms generalizing arrivals db marks with
  | nil =>
    rw [List.map_eq_nil_iff.mp hms]
    exact h
  | cons m ms ih =>
    obtain ⟨a, rest, rfl, ha, hrest⟩ := List.map_eq_cons_iff.mp hms
    have hstep := holds_process_mark a.env a.key m h
    rw [← ha] at hstep
    change Holds user (Table.insertAll markKey markRow (marks.insert (markKey m) (markRow m)) ms) (processAll rest _)
    exact ih _ hstep hrest

end

section

variable {c : Contest} {s : Nat} {st : SubmissionState}

def stateOf (user : User) (row : SubmissionMark) : SubmissionState where
  state := row.result
  utype := user.type
  comment := text row.remark

theorem exists_getSubmissionState_iff :
    (∃ o, getSubmissionState c o s = some st) ↔
      ∃ marker user row, c.user[marker]? = some user ∧ Marked c s marker row ∧ stateOf user row = st ∧
        ∀ marker' user', c.user[marker']? = some user' → (s, marker') ∈ c.submissionMark → user.type ≤ user'.type := by
  have hhead := OrderBy.exists_exists_head?_iff (fun _ : Unit => True) (fun r : MarkRow × Nat => (r.2 : Int))
    (fun _ => stateRows c s) fun r => rowState r = st
  simp only [true_and, exists_const] at hhead
  simp only [getSubmissionState, Option.map_eq_some_iff, hhead]
  constructor
  · rintro ⟨⟨⟨⟨s', marker⟩, row⟩, type⟩, ⟨hr, hmin⟩, rfl⟩
    obtain ⟨hmark, user, huser, rfl⟩ := (mem_stateRows c).mp hr
    obtain ⟨rfl, hmark⟩ := (mem_markRows c).mp hmark
    refine ⟨marker, user, row, huser, hmark, rfl, fun marker' user' huser' hmem => ?_⟩
    obtain ⟨row', hmark'⟩ := Table.mem_iff_exists_row.mp hmem
    refine Int.ofNat_le.mp (hmin (((s', marker'), row'), user'.type) ?_)
    exact (mem_stateRows c).mpr ⟨(mem_markRows c).mpr ⟨rfl, hmark'⟩, user', huser', rfl⟩
  · rintro ⟨marker, user, row, huser, hmark, rfl, hmin⟩
    refine ⟨(((s, marker), row), user.type), ⟨?_, ?_⟩, rfl⟩
    · exact (mem_stateRows c).mpr ⟨(mem_markRows c).mpr ⟨rfl, hmark⟩, user, huser, rfl⟩
    · rintro ⟨⟨⟨s', marker'⟩, row'⟩, type'⟩ hr
      obtain ⟨hmark', user', huser', rfl⟩ := (mem_stateRows c).mp hr
      obtain ⟨rfl, hmark'⟩ := (mem_markRows c).mp hmark'
      exact Int.ofNat_le.mpr (hmin marker' user' huser' (Table.mem_iff_exists_row.mpr ⟨row', hmark'⟩))

theorem getSubmissionState_eq_none_iff (o : OrderBy (MarkRow × Nat)) :
    getSubmissionState c o s = none ↔
      ∀ marker user, c.user[marker]? = some user → (s, marker) ∉ c.submissionMark := by
  rw [getSubmissionState, Option.map_eq_none_iff, OrderBy.head?_sort_eq_none, List.eq_nil_iff_forall_not_mem]
  constructor
  · intro hnone marker user huser hmem
    obtain ⟨row, hmark⟩ := Table.mem_iff_exists_row.mp hmem
    refine hnone (((s, marker), row), user.type) ?_
    exact (mem_stateRows c).mpr ⟨(mem_markRows c).mpr ⟨rfl, hmark⟩, user, huser, rfl⟩
  · rintro hnone ⟨⟨⟨s', marker⟩, row⟩, type⟩ hr
    obtain ⟨hmark, user, huser, -⟩ := (mem_stateRows c).mp hr
    obtain ⟨rfl, hmark⟩ := (mem_markRows c).mp hmark
    exact hnone marker user huser (Table.mem_iff_exists_row.mpr ⟨row, hmark⟩)

end

section

variable (c : Contest) (ms : List MarkMessage) (s : Nat)

/-- The user's mark of the submission is stored or among those to come. -/
def HasMark (marker : Nat) : Prop := (s, marker) ∈ c.submissionMark ∨ ∃ m ∈ ms, markKey m = (s, marker)

/-- No user with a mark of the submission has a lesser type. -/
def Decides (marker : Nat) (user : User) : Prop :=
  c.user[marker]? = some user ∧ HasMark c ms s marker ∧
    ∀ marker' user', c.user[marker']? = some user' → HasMark c ms s marker' → user.type ≤ user'.type

/-- What a mark by a deciding user says: any of those to come, or the stored one if none is to come. -/
def Candidate (st : SubmissionState) : Prop :=
  ∃ marker user row, Decides c ms s marker user ∧
    Table.Entered markKey markRow c.submissionMark ms (s, marker) row ∧ stateOf user row = st

/-- A state that the submission can have when a server with these tables has processed all the marks. -/
def EndsWith (state : Option SubmissionState) : Prop :=
  ∃ (db : Db) (l : List MarkMessage) (arrivals : List Arrival) (o : OrderBy (MarkRow × Nat)),
    db.contest = c ∧ l.Perm ms ∧ arrivals.map Arrival.message = l.map .mark ∧
      getSubmissionState (processAll arrivals db).contest o s = state

/-- Two servers agree on the states of the submissions that they both have. -/
def Converges (c₁ c₂ : Contest) (ms : List MarkMessage) : Prop :=
  ∀ s, s ∈ c₁.submission → s ∈ c₂.submission → ∀ st₁ st₂, EndsWith c₁ ms s st₁ → EndsWith c₂ ms s st₂ → st₁ = st₂

variable {c ms s}

theorem hasMark_iff_of_perm {l : List MarkMessage} (hperm : l.Perm ms) (marker : Nat) :
    (s, marker) ∈ Table.insertAll markKey markRow c.submissionMark l ↔ HasMark c ms s marker := by
  simp only [Table.mem_insertAll, HasMark, hperm.mem_iff]

theorem endsWith_some_iff {st : SubmissionState} : EndsWith c ms s (some st) ↔ Candidate c ms s st := by
  constructor
  · rintro ⟨db, l, arrivals, o, rfl, hperm, harr, hst⟩
    obtain ⟨huser, hmarks⟩ := holds_processAll db ⟨rfl, rfl⟩ harr
    obtain ⟨marker, user, row, hmarker, hrow, hstate, hmin⟩ := exists_getSubmissionState_iff.mp ⟨o, hst⟩
    rw [huser] at hmarker hmin
    rw [Marked, hmarks] at hrow
    simp only [hmarks, hasMark_iff_of_perm hperm] at hmin
    refine ⟨marker, user, row, ⟨hmarker, ?_, hmin⟩, ?_, hstate⟩
    · exact (hasMark_iff_of_perm hperm marker).mp (Table.mem_iff_exists_row.mpr ⟨row, hrow⟩)
    · exact (Table.entered_of_getElem?_insertAll hrow).of_perm hperm
  · rintro ⟨marker, user, row, ⟨hmarker, -, hmin⟩, hentered, hstate⟩
    obtain ⟨l, hperm, hrow⟩ := hentered.exists_perm
    let db : Db := ⟨.empty, c⟩
    let arrivals : List Arrival := l.map fun m => ⟨default, (0, 0), .mark m⟩
    have harr : arrivals.map Arrival.message = l.map .mark := by simp [arrivals]
    obtain ⟨huser, hmarks⟩ := holds_processAll db ⟨rfl, rfl⟩ harr
    have hends : ∃ o, getSubmissionState (processAll arrivals db).contest o s = some st := by
      refine exists_getSubmissionState_iff.mpr ⟨marker, user, row, ?_, ?_, hstate, ?_⟩
      · rw [huser]
        exact hmarker
      · rw [Marked, hmarks]
        exact hrow
      · simp only [huser, hmarks]
        intro marker' user' hmarker' hmem
        exact hmin marker' user' hmarker' ((hasMark_iff_of_perm hperm marker').mp hmem)
    obtain ⟨o, ho⟩ := hends
    exact ⟨db, l, arrivals, o, rfl, hperm, harr, ho⟩

theorem not_candidate_of_endsWith_none (h : EndsWith c ms s none) (st : SubmissionState) : ¬Candidate c ms s st := by
  rintro ⟨marker, user, row, ⟨hmarker, hmark, -⟩, -, -⟩
  obtain ⟨db, l, arrivals, o, rfl, hperm, harr, hnone⟩ := h
  obtain ⟨huser, hmarks⟩ := holds_processAll db ⟨rfl, rfl⟩ harr
  rw [getSubmissionState_eq_none_iff, huser, hmarks] at hnone
  exact hnone marker user hmarker ((hasMark_iff_of_perm hperm marker).mpr hmark)

theorem exists_endsWith (c : Contest) (ms : List MarkMessage) (s : Nat) : ∃ state, EndsWith c ms s state :=
  ⟨_, ⟨.empty, c⟩, ms, ms.map fun m => ⟨default, (0, 0), .mark m⟩, .stable, rfl, .refl _, by simp, rfl⟩

/-- Two servers agree exactly if, for each submission on both, all marks by its deciding users say the same. -/
theorem converges_iff (c₁ c₂ : Contest) (ms : List MarkMessage) :
    Converges c₁ c₂ ms ↔ ∀ s, s ∈ c₁.submission → s ∈ c₂.submission →
      (∀ st₁ st₂, Candidate c₁ ms s st₁ → Candidate c₂ ms s st₂ → st₁ = st₂) ∧
        ((∃ st, Candidate c₁ ms s st) ↔ ∃ st, Candidate c₂ ms s st) := by
  constructor
  · intro hconv s hs₁ hs₂
    refine ⟨fun st₁ st₂ h₁ h₂ => ?_, ?_, ?_⟩
    · exact Option.some.inj (hconv s hs₁ hs₂ _ _ (endsWith_some_iff.mpr h₁) (endsWith_some_iff.mpr h₂))
    · rintro ⟨st, hst⟩
      obtain ⟨state, hends⟩ := exists_endsWith c₂ ms s
      rw [← hconv s hs₁ hs₂ _ _ (endsWith_some_iff.mpr hst) hends] at hends
      exact ⟨st, endsWith_some_iff.mp hends⟩
    · rintro ⟨st, hst⟩
      obtain ⟨state, hends⟩ := exists_endsWith c₁ ms s
      rw [hconv s hs₁ hs₂ _ _ hends (endsWith_some_iff.mpr hst)] at hends
      exact ⟨st, endsWith_some_iff.mp hends⟩
  · intro hagree s hs₁ hs₂ state₁ state₂ h₁ h₂
    obtain ⟨hsame, hiff⟩ := hagree s hs₁ hs₂
    cases state₁ with
    | none =>
      cases state₂ with
      | none => rfl
      | some st =>
        obtain ⟨st', hst'⟩ := hiff.mpr ⟨st, endsWith_some_iff.mp h₂⟩
        exact absurd hst' (not_candidate_of_endsWith_none h₁ st')
    | some st =>
      cases state₂ with
      | none =>
        obtain ⟨st', hst'⟩ := hiff.mp ⟨st, endsWith_some_iff.mp h₁⟩
        exact absurd hst' (not_candidate_of_endsWith_none h₂ st')
      | some st' => rw [hsame st st' (endsWith_some_iff.mp h₁) (endsWith_some_iff.mp h₂)]

def oneSubmission : Contest where
  __ := Contest.empty
  user := (∅ : Table Nat User)
    |>.insert 1 (userOfType (str "admin") 1)
    |>.insert 33 (userOfType (str "team") 3)
  problemAttributes := (∅ : Table (Nat × Str) Str).insert (1, str "shortname") (str "A")
  submission := (∅ : Table Nat Submission)
    |>.insert 17 { userId := 33, probId := 1, time := 5, serverId := 1, content := [], language := str "C" }

def adminMark (time result : Nat) (comment : Str) : MarkMessage where
  submissionId := 17
  marker := 1
  result
  time
  serverId := 1
  comment
  files := []

/-- Two marks of one submission by an administrator arrive in either order. -/
theorem not_converges_two_marks : ¬∀ (c₁ c₂ : Contest) (ms : List MarkMessage),
    (∀ m ∈ ms, m.submissionId ∈ c₁.submission ∧ m.submissionId ∈ c₂.submission) → Converges c₁ c₂ ms := by
  intro hall
  let wrong := adminMark 10 1 (str "Wrong answer")
  let correct := adminMark 20 0 (str "Correct answer")
  have hpresent : ∀ m ∈ [wrong, correct], m.submissionId ∈ oneSubmission.submission ∧
      m.submissionId ∈ oneSubmission.submission := by decide
  let db : Db := ⟨.empty, oneSubmission⟩
  let first : List Arrival := [⟨default, (1, 1), .mark wrong⟩, ⟨default, (1, 2), .mark correct⟩]
  have hsame := hall oneSubmission oneSubmission [wrong, correct] hpresent 17 (by decide) (by decide) _ _
    ⟨db, [wrong, correct], first, .stable, rfl, .refl _, rfl, rfl⟩
    ⟨db, [correct, wrong], first.reverse, .stable, rfl, .swap _ _ _, rfl, rfl⟩
  exact absurd hsame (by decide)

end

end Abacus.Convergence.Mark
