import Abacus.Database.Schema
import Abacus.Library.OrderBy
import Abacus.Misc
import Abacus.Peer.Classes

/-! # Submissions and their marks

The queries on `Submission`, `SubmissionMark` and `SubmissionMarkFile`, and the statements
that write them. A result is `CORRECT` if it is zero.
-/

namespace Abacus.Database.Marks

open Library Library.Bytes Database.Schema Misc Peer.Classes

abbrev AttributeList := StringMap Str

abbrev MarkRow := (Nat × Nat) × SubmissionMark

variable (c : Contest)

/-- The row of a submission joined with its user and the short name of its problem. -/
def submissionAttrs (submissionId : Nat) (s : Submission) : Option AttributeList :=
  match c.user[s.userId]?, c.problemAttributes[(s.probId, str "shortname")]? with
  | some user, some value => some <| (∅ : AttributeList)
      |>.insert (str "submission_id") (decimal submissionId)
      |>.insert (str "time") (decimal s.time)
      |>.insert (str "problem") (text value)
      |>.insert (str "prob_id") (decimal s.probId)
      |>.insert (str "group_id") (decimal user.group)
  | _, _ => none

def getSubmission (submissionId : Nat) : AttributeList :=
  match c.submission[submissionId]? with
  | none => ∅
  | some s => (submissionAttrs c submissionId s).getD ∅

/-- The submissions of a user, or of every user for 0, in the order of their numbers. -/
def getSubmissions (uid : Nat) : List AttributeList :=
  c.submission.toList.filterMap fun (submissionId, s) =>
    if uid = 0 ∨ s.userId = uid then submissionAttrs c submissionId s else none

def markRows (submissionId : Nat) : List MarkRow := c.submissionMark.toList.filter fun r => r.1.1 = submissionId

def stateRows (submissionId : Nat) : List (MarkRow × Nat) :=
  (markRows c submissionId).filterMap fun r => (c.user[r.1.2]?).map fun user => (r, user.type)

structure SubmissionState where
  state : Int
  utype : Nat
  comment : Str
  deriving DecidableEq

def rowState (r : MarkRow × Nat) : SubmissionState where
  state := r.1.2.result
  utype := r.2
  comment := text r.1.2.remark

/-- The mark by the user of least type. -/
def getSubmissionState (o : OrderBy (MarkRow × Nat)) (submissionId : Nat) : Option SubmissionState :=
  ((o.sort (fun r => (r.2 : Int)) (stateRows c submissionId)).head?).map rowState

def newestMark (o : OrderBy MarkRow) (submissionId : Nat) : Option MarkRow :=
  (o.sort (fun r => -(r.2.markTime : Int)) (markRows c submissionId)).head?

def hasSolved (o : OrderBy MarkRow) (userId probId : Nat) : Bool :=
  c.submission.toList.any fun (submissionId, s) =>
    s.userId = userId && s.probId = probId && (newestMark c o submissionId).any fun r => r.2.result = 0

def submission2userId (submissionId : Nat) : Nat :=
  match c.submission[submissionId]? with
  | some s => s.userId
  | none => 4294967295

/-- The content, language and problem of a submission; of another user's only if `userId` is 0. -/
def retrieveSubmission (userId submissionId : Nat) : Option (Str × Str × Nat) :=
  match c.submission[submissionId]? with
  | some s => if userId = 0 ∨ s.userId = userId then some (s.content, text s.language, s.probId) else none
  | none => none

def markFiles (submissionId : Nat) : List (Str × Str) :=
  c.submissionMarkFile.toList.filterMap fun ((s, _, name), content) =>
    if s = submissionId then some (text name, content) else none

def countMarkFiles (submissionId : Nat) : Nat := (markFiles c submissionId).length

def getMarkFile (submissionId fileIndex : Nat) : Option (Str × Str) := (markFiles c submissionId)[fileIndex]?

section

variable {c} {c' : Contest} {submissionId : Nat}

theorem getSubmissionState_congr (o : OrderBy (MarkRow × Nat))
    (hmarks : ∀ marker : Nat, c'.submissionMark[(submissionId, marker)]? = c.submissionMark[(submissionId, marker)]?)
    (htypes : ∀ userId : Nat, (c'.user[userId]?).map User.type = (c.user[userId]?).map User.type) :
    getSubmissionState c' o submissionId = getSubmissionState c o submissionId := by
  have hrows : markRows c' submissionId = markRows c submissionId := by
    apply Table.filter_toList_congr fun k : Nat × Nat => decide (k.1 = submissionId)
    rintro ⟨id, marker⟩ hk
    cases of_decide_eq_true hk
    exact hmarks marker
  have hstate : stateRows c' submissionId = stateRows c submissionId := by
    unfold stateRows
    rw [hrows]
    apply List.filterMap_congr
    intro r _
    have htype := htypes r.1.2
    cases h : c.user[r.1.2]? <;> cases h' : c'.user[r.1.2]? <;> simp_all
  rw [getSubmissionState, getSubmissionState, hstate]

theorem markFiles_eq (c : Contest) (submissionId : Nat) : markFiles c submissionId =
    (c.submissionMarkFile.toList.filter fun r => r.1.1 = submissionId).map fun r => (text r.1.2.2, r.2) := by
  rw [markFiles, ← List.filterMap_eq_map, List.filterMap_filter]
  apply List.filterMap_congr
  rintro ⟨⟨id, marker, name⟩, content⟩ _
  simp

theorem markFiles_congr (hfiles : ∀ (marker : Nat) (name : Str),
    c'.submissionMarkFile[(submissionId, marker, name)]? = c.submissionMarkFile[(submissionId, marker, name)]?) :
    markFiles c' submissionId = markFiles c submissionId := by
  rw [markFiles_eq, markFiles_eq]
  refine congrArg _ (Table.filter_toList_congr (fun k : Nat × Nat × Str => decide (k.1 = submissionId)) ?_)
  rintro ⟨id, marker, name⟩ hk
  cases of_decide_eq_true hk
  exact hfiles marker name

end

def putSubmission (submissionId : Nat) (s : Submission) : Option Contest :=
  (Table.insertNew c.submission submissionId s).map fun submission => { c with submission }

def maxInt : Nat := 2147483647

/-- A mark replaces the earlier one of the same marker. -/
def putMark (submissionId markerId time result : Nat) (comment : Str) (serverId : Nat) : Contest :=
  let row : SubmissionMark := { markTime := time, result := min result maxInt, remark := comment, serverId }
  { c with submissionMark := c.submissionMark.insert (submissionId, markerId) row }

def putMarkFile (submissionId markerId : Nat) (name data : Str) : Option Contest :=
  (Table.insertNew c.submissionMarkFile (submissionId, markerId, name) data).map fun submissionMarkFile =>
    { c with submissionMarkFile }

end Abacus.Database.Marks
