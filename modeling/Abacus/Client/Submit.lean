import Abacus.Client.Contest

/-! # Submissions

The handlers of `submit`, `getproblems`, `getsubmissions`, `getsubmissions_for_user`,
`fetchfile`, `getsubmissionsource` and `getlanguages`.
-/

namespace Abacus.Client.Submit

open Library Library.Bytes Misc Client.Block Client.Permissions Client.Action Client.Contest
open Database.Schema Database.Marks Database.Problems Peer.Process

def splitList (s : Str) : List Str :=
  (pieces s).foldl (fun items item => if item ∈ items then items else items ++ [item]) []

def allLanguages : List Str := splitList (str "C,C++,Python,Java")

/-- All languages, or those of the configuration that are known, in order. -/
def languages (languageSet : Str) : List Str :=
  if languageSet = [] then allLanguages
  else ((splitList languageSet).filter (· ∈ allLanguages)).insertionSort fun a b => (compare a b).isLE

variable (s : Server) (cc : Connection) (mb : MessageBlock)

def maxSubmissionSize : Int := 102400

/-- A submission without content has a null pointer in its place. -/
def submissionContent : ClientProg Str := if mb.contentSize < 0 then .raise .nullPointer else return mb.content

def submitSolution : ClientProg Answer := do
  if mb.contentSize > maxSubmissionSize then
    return .error (str "Your submission is too large (max " ++ Misc.toString maxSubmissionSize ++ str " bytes)")
  let some probId := fromStringU32 (mb.get (str "prob_id")) | return .error (str "prob_id isn't a valid integer")
  let problems ← query getProblems
  if probId ∉ problems then return .error (str "Invalid prob_id - no such id")
  let solved ← query fun c => hasSolved c s.markOrder cc.userId probId
  let multiSubmit ← query fun c => (getProblemAttributes c probId).getD (str "multi_submit") []
  if solved ∧ multiSubmit ≠ str "Yes" then
    return .error (str "You have already solved this problem, you may no longer submit solutions for it")
  let allowed ← query fun c => isSubmissionAllowed c s.markOrder cc.userId probId
  if ¬allowed then return .error (str "You are not allowed to submit a solution for this problem")
  let language := mb.get (str "lang")
  if language ∉ languages s.languageSet then return .error (str "You have not specified the language")
  let submissionId ← nextId s .submission
  if submissionId = 4294967295 then
    return .error (str "Internal server error. Error obtaining new submission id")
  let self ← Prog.read fun db => getId s db.peer
  let content ← submissionContent mb
  return .message (.submission
    { submissionId, userId := cc.userId, probId, time := time32 s, serverId := self, content, language })
    (MessageBlock.ok.set (str "submission_id") (decimal submissionId))

def actSubmit : ClientProg Answer := do
  if ¬running s cc then return .error (str "You cannot submit solutions unless the contest is running")
  submitSolution s cc mb

def visibleProblems (c : Contest) : List Nat :=
  (getProblems c).filter fun p => cc.permissions .seeAllProblems || isSubmissionAllowed c s.markOrder cc.userId p

def problemRecord (c : Contest) (problem : Nat) : AttributeList :=
  let attrs := getProblemAttributes c problem
  record [("id", decimal problem), ("code", attrs.getD (str "shortname") []), ("name", attrs.getD (str "longname") [])]

def actGetProblems : ClientProg MessageBlock := do
  let records ← query fun c => (visibleProblems s cc c).map (problemRecord c)
  return numbered .ok records

/-- Every submission of the list with its number; none if the number of one cannot be read. -/
def submissionsToMB (c : Contest) (list : List AttributeList) : Option MessageBlock :=
  list.zipIdx.foldlM (fun mb r => submissionToMB (env s 0) c r.1 mb (decimal r.2)) .ok

def actGetSubmissions : ClientProg MessageBlock := do
  let reply ← query fun c => submissionsToMB s c (getSubmissions c (userOrAll cc .seeAllSubmissions))
  orThrow reply

def actGetSubmissionsForUser : ClientProg MessageBlock := do
  let userId ← orThrow (fromStringU32 (mb.get (str "user_id")))
  let uid := if cc.permissions .seeAllSubmissions then userId else cc.userId
  let reply ← query fun c => submissionsToMB s c (getSubmissions c uid)
  orThrow reply

def compileFailed : Int := 4

def fetchRefusal (c : Contest) (submissionId : Nat) : Option Str :=
  match cc.permissions .seeSubmissionDetails, getSubmissionState c s.stateOrder submissionId with
  | false, none => some (str "This submission hasn't been marked yet, please be patient :-)")
  | false, some state =>
    if state.state ≠ compileFailed then
      some (str "Not allowed to fetch file data for anything except failed compilations")
    else ownerRefusal
  | true, _ => ownerRefusal
where
  ownerRefusal : Option Str :=
    if cc.permissions .seeAllSubmissions ∨ submission2userId c submissionId = cc.userId then none
    else some (str "This submission doesn't belong to you; I can't let you look at it")

def fetchData (submissionId : Nat) : ClientProg MessageBlock := do
  let index ← orThrow (fromStringU32 (mb.get (str "index")))
  let file ← query fun c => getMarkFile c submissionId index
  match file with
  | none => return .error (str "Mark file not found")
  | some (name, data) =>
    setContent ((MessageBlock.ok.set (str "name") name).set (str "length") (decimal data.length)) data

def actSubmissionFileFetcher : ClientProg MessageBlock := do
  let request := mb.get (str "request")
  let submissionId ← orThrow (fromStringU32 (mb.get (str "submission_id")))
  let refusal ← query fun c => fetchRefusal s cc c submissionId
  match refusal with
  | some msg => return .error msg
  | none =>
    if request = str "count" then do
      let count ← query fun c => countMarkFiles c submissionId
      return MessageBlock.ok.set (str "count") (decimal count)
    else if request = str "data" then fetchData mb submissionId
    else return .ok

def actGetSubmissionSource : ClientProg MessageBlock := do
  let submissionId ← orThrow (fromStringU32 (mb.get (str "submission_id")))
  let source ← query fun c => retrieveSubmission c (userOrAll cc .seeAllSubmissions) submissionId
  match source with
  | none => return .error (str "Unable to retrieve contestant source code")
  | some (content, language, _) => do
    let reply ← setContent .ok content
    return reply.set (str "lang") language

def actGetLanguages : ClientProg MessageBlock := do
  return numbered .ok ((languages s.languageSet).map fun language => record [("language", language)])

section

variable {s : Server} {cc : Connection} {mb : MessageBlock} {E : ClientFault → Prop}

@[grind ←] theorem reads_actGetProblems : Prog.Reads E (actGetProblems s cc) := by grind [actGetProblems]

@[grind ←] theorem reads_actGetLanguages : Prog.Reads E (actGetLanguages s) := by grind [actGetLanguages]

@[grind ←] theorem reads_submissionContent : Prog.Reads (fun _ => True) (submissionContent mb) := by
  grind [submissionContent]

@[grind ←] theorem reads_actSubmit : Prog.Reads (fun _ => True) (actSubmit s cc mb) := by
  dsimp only [actSubmit, submitSolution]
  split
  · exact Prog.reads_pure _
  · split
    · exact Prog.reads_pure _
    · split
      · refine Prog.reads_bind (reads_query _) fun problems => ?_
        split
        · exact Prog.reads_pure _
        · refine Prog.reads_bind (reads_query _) fun solved => Prog.reads_bind (reads_query _) fun multiSubmit => ?_
          grind
      · exact Prog.reads_pure _

@[grind ←] theorem reads_actGetSubmissions : Prog.Reads (fun _ => True) (actGetSubmissions s cc) := by
  grind [actGetSubmissions]

@[grind ←] theorem reads_actGetSubmissionsForUser : Prog.Reads (fun _ => True) (actGetSubmissionsForUser s cc mb) := by
  grind [actGetSubmissionsForUser]

@[grind ←] theorem reads_fetchData (id : Nat) : Prog.Reads (fun _ => True) (fetchData mb id) := by grind [fetchData]

@[grind ←] theorem reads_actSubmissionFileFetcher : Prog.Reads (fun _ => True) (actSubmissionFileFetcher s cc mb) := by
  grind [actSubmissionFileFetcher]

@[grind ←] theorem reads_actGetSubmissionSource : Prog.Reads (fun _ => True) (actGetSubmissionSource cc mb) := by
  grind [actGetSubmissionSource]

end

end Abacus.Client.Submit
