import Abacus.Client.Block
import Abacus.Client.Permissions
import Abacus.Database.People
import Abacus.Database.Problems
import Abacus.Library.Statement
import Abacus.Support.Timer

/-! # Processing messages

`int_process` of each class as a program: its queries, its writes one statement at a time, and what it sends.
An exception ends the program where it is thrown.
-/

namespace Abacus.Peer.Process

open Library Library.Bytes Misc Client.Block Client.Permissions Support.Timer
open Database.Schema Database.Marks Database.Problems Database.People Database.Peer Peer.Classes

inductive Fault
  /-- `bad_string`, thrown by `from_string`. -/
  | badString
  /-- A string assigned from a null pointer. -/
  | nullString
  deriving DecidableEq, Repr

inductive Output
  | broadcastEvent (userId : Nat) (permission : Permission) (mb : MessageBlock)
  | sendMessage (userId : Nat) (mb : MessageBlock)
  /-- To the clients that listen to the event: of one group, or of all groups for 0. -/
  | triggerEvent (event : Str) (groupId : Nat) (mb : MessageBlock)
  | updateStandings (userId : Nat)
  | enqueueSubmission (submissionId : Nat)
  | putAck (serverId messageId ackServer : Nat)
  | addEvent (e : Event)
  | putTimedAction (time : Int)
  | performStartStop (time : Int)
  | updateGroupState (groupId : Nat) (time : Int)

structure Env where
  self : Nat
  now : Int
  timer : TimerSupportModule
  order : OrderBy (MarkRow × Nat)

instance : Inhabited Env := ⟨{ self := 1, now := 0, timer := default, order := .stable }⟩

abbrev DbProg := Prog Db Output Fault

def readContest {α : Type} (f : Contest → α) : DbProg α := Prog.read fun db => f db.contest

def onContest (w : Contest → Option Contest) (db : Db) : Option Db :=
  (w db.contest).map fun contest => { db with contest }

def onPeer (w : PeerTables → Option PeerTables) (db : Db) : Option Db := (w db.peer).map fun peer => { db with peer }

def writeContest (w : Contest → Option Contest) : DbProg Bool := Prog.write (onContest w)

def setContest (w : Contest → Contest) : DbProg Unit := Prog.set fun db => { db with contest := w db.contest }

def pendingState : SubmissionState where
  state := -1
  utype := 0
  comment := str "Pending"

/-- The attributes of a submission with its contest time and state; no block if a number cannot be read. -/
def submissionToMB (env : Env) (c : Contest) (s : AttributeList) (mb : MessageBlock) (suffix : Str) :
    Option MessageBlock := do
  let submissionId ← fromStringU32 (s.getD (str "submission_id") [])
  let time ← fromStringTime (s.getD (str "time") [])
  let groupId ← fromStringU32 (s.getD (str "group_id") [])
  let st := (getSubmissionState c env.order submissionId).getD pendingState
  return (mb.setAll s suffix)
    |>.set (str "contesttime" ++ suffix) (Misc.toString (env.timer.contestTime env.now groupId time))
    |>.set (str "result" ++ suffix) (Misc.toString st.state)
    |>.set (str "comment" ++ suffix) st.comment

theorem isSome_submissionToMB (env env' : Env) (c c' : Contest) (s : AttributeList) (mb : MessageBlock) (suffix : Str) :
    (submissionToMB env c s mb suffix).isSome = (submissionToMB env' c' s mb suffix).isSome := by
  simp only [submissionToMB, Option.bind_eq_bind, Option.pure_def]
  cases fromStringU32 (s.getD (str "submission_id") []) with
  | none => simp only [Option.bind_none]
  | some submissionId =>
    simp only [Option.bind_some]
    cases fromStringTime (s.getD (str "time") []) with
    | none => simp only [Option.bind_none]
    | some time =>
      simp only [Option.bind_some]
      cases fromStringU32 (s.getD (str "group_id") []) with
      | none => simp only [Option.bind_none]
      | some groupId => simp only [Option.bind_some, Option.isSome_some]

def orRaise {α : Type} (fault : Fault) : Option α → DbProg α
  | some a => .ret a
  | none => .raise fault

namespace BonusMessage

def intProcess (m : BonusMessage) : DbProg Bool := do
  setContest fun c => setBonus c m.userId m.points m.seconds
  Prog.output (.updateStandings m.userId)
  return true

end BonusMessage

namespace PasswdMessage

def intProcess (m : PasswdMessage) : DbProg Bool := do
  setContest fun c => setPassword c m.userId m.newpass
  return true

end PasswdMessage

namespace ClarificationMessage

def processRequest (m : ClarificationMessage) : DbProg Bool := do
  let stored ← writeContest fun c => putClarificationRequest c m.clarificationRequestId
    { userId := m.userId, time := m.time, problemId := m.probId, text := m.text }
  if !stored then return false
  let req ← readContest fun c => getClarificationRequest c m.clarificationRequestId
  if req.isEmpty then return false
  let notify := (MessageBlock.ofAction (str "updateclarificationrequests")).setAll req []
  Prog.output (.broadcastEvent m.userId .seeAllClarificationRequests notify)
  return true

/-- The field of the problem says whether the reply is public. -/
def announce (m : ClarificationMessage) (req reply : AttributeList) : DbProg Bool := do
  if req.isEmpty then return false
  let notify := (MessageBlock.ofAction (str "updateclarifications")).setAll reply []
  if m.probId ≠ 0 then
    Prog.output (.broadcastEvent 0 .auth notify)
    return true
  else
    let userId ← orRaise .badString (fromStringU32 (req.getD (str "user_id") []))
    Prog.output (.broadcastEvent userId .seeAllClarifications notify)
    return true

def processReply (m : ClarificationMessage) : DbProg Bool := do
  let req ← readContest fun c => getClarificationRequest c m.clarificationRequestId
  let stored ← writeContest fun c => putClarification c m.clarificationId
    { clarificationReqId := m.clarificationRequestId, userId := m.userId, time := m.time, isPublic := m.probId ≠ 0,
      text := m.text }
  if !stored then return false
  let reply ← readContest fun c => getClarification c m.clarificationId
  let reply ← orRaise .nullString reply
  announce m req reply

def intProcess (m : ClarificationMessage) : DbProg Bool :=
  if m.request ≠ 0 then processRequest m else processReply m

end ClarificationMessage

namespace MarkMessage

/-- A file that cannot be stored is left out. -/
def putFiles (submissionId marker : Nat) : List MarkFile → DbProg Unit
  | [] => return ()
  | file :: files => do
    let _ ← writeContest fun c => putMarkFile c submissionId marker file.name file.data
    putFiles submissionId marker files

def announce (env : Env) (m : MarkMessage) : DbProg Bool := do
  let mb ← readContest fun c =>
    submissionToMB env c (getSubmission c m.submissionId) (MessageBlock.ofAction (str "updatesubmissions")) []
  let mb ← orRaise .badString mb
  let userId ← readContest fun c => submission2userId c m.submissionId
  Prog.output (.broadcastEvent userId .seeAllSubmissions mb)
  if m.result ≠ 5 then Prog.output (.updateStandings userId)
  return true

def intProcess (env : Env) (m : MarkMessage) : DbProg Bool := do
  setContest fun c => putMark c m.submissionId m.marker m.time m.result m.comment m.serverId
  putFiles m.submissionId m.marker m.files
  announce env m

def filesAfter (submissionId marker : Nat) (files : List MarkFile) (c : Contest) : Contest where
  __ := c
  submissionMarkFile := Table.insertMissing (fun file : MarkFile => (submissionId, marker, file.name)) MarkFile.data
    c.submissionMarkFile files

theorem filesAfter_cons (submissionId marker : Nat) (file : MarkFile) (files : List MarkFile) (c : Contest) :
    filesAfter submissionId marker (file :: files) c =
      filesAfter submissionId marker files (filesAfter submissionId marker [file] c) := rfl

theorem onContest_putMarkFile (submissionId marker : Nat) (file : MarkFile) (db : Db) :
    ((onContest fun c => putMarkFile c submissionId marker file.name file.data) db).getD db =
      { db with contest := filesAfter submissionId marker [file] db.contest } := by
  change (((Table.insertNew _ _ _).map _).map _).getD _ =
    { db with contest := { db.contest with submissionMarkFile := (Table.insertNew _ _ _).getD _ } }
  cases Table.insertNew db.contest.submissionMarkFile (submissionId, marker, file.name) file.data with
  | none | some t => rfl

theorem yields_putFiles (submissionId marker : Nat) (files : List MarkFile) (db : Db) :
    Prog.Yields (putFiles submissionId marker files) db
      { db with contest := filesAfter submissionId marker files db.contest } () := by
  induction files generalizing db with
  | nil => exact Prog.yields_pure () db
  | cons file files ih =>
    have hstep := onContest_putMarkFile submissionId marker file db
    cases hput : onContest (fun c => putMarkFile c submissionId marker file.name file.data) db with
    | none =>
      rw [hput] at hstep
      have hsame : filesAfter submissionId marker [file] db.contest = db.contest := (congrArg Db.contest hstep).symm
      refine Prog.yields_bind (Prog.yields_write_none hput) ?_
      rw [filesAfter_cons, hsame]
      exact ih db
    | some db' =>
      rw [hput] at hstep
      refine Prog.yields_bind (Prog.yields_write_some hput) ?_
      cases hstep
      exact ih _

theorem crashAfter_putFiles (submissionId marker : Nat) (files : List MarkFile) (k : Nat) (db : Db) :
    ∃ n, (putFiles submissionId marker files).crashAfter k db =
      { db with contest := filesAfter submissionId marker (files.take n) db.contest } := by
  induction files generalizing k db with
  | nil => exact ⟨0, rfl⟩
  | cons file files ih =>
    cases k with
    | zero => exact ⟨0, Prog.crashAfter_zero _ _⟩
    | succ k =>
      have hstep := onContest_putMarkFile submissionId marker file db
      rw [putFiles, writeContest, Prog.crashAfter_write_bind]
      cases hput : onContest (fun c => putMarkFile c submissionId marker file.name file.data) db with
      | none =>
        rw [hput] at hstep
        have hsame : filesAfter submissionId marker [file] db.contest = db.contest := (congrArg Db.contest hstep).symm
        obtain ⟨n, hn⟩ := ih (k + 1) db
        refine ⟨n + 1, ?_⟩
        rw [List.take_succ_cons, filesAfter_cons, hsame]
        exact hn
      | some db' =>
        rw [hput] at hstep
        cases hstep
        obtain ⟨n, hn⟩ := ih k { db with contest := filesAfter submissionId marker [file] db.contest }
        exact ⟨n + 1, hn⟩

def marked (m : MarkMessage) (c : Contest) : Contest :=
  filesAfter m.submissionId m.marker m.files
    (putMark c m.submissionId m.marker m.time m.result m.comment m.serverId)

theorem getElem?_marked {m : MarkMessage} {c : Contest} {id : Nat} (h : m.submissionId ≠ id) (marker : Nat) :
    (marked m c).submissionMark[(id, marker)]? = c.submissionMark[(id, marker)]? := by
  show (c.submissionMark.insert (m.submissionId, m.marker) _)[(id, marker)]? = _
  rw [Table.getElem?_insert_row, if_neg fun heq => h (congrArg Prod.fst heq)]

theorem run_announce (env : Env) (m : MarkMessage) (db : Db) :
    (announce env m).final db = db ∧ (announce env m).result db =
      if (submissionToMB env db.contest (getSubmission db.contest m.submissionId)
        (MessageBlock.ofAction (str "updatesubmissions")) []).isSome then .ok true else .error .badString := by
  simp only [announce, readContest, Prog.final_read_bind, Prog.result_read_bind]
  cases submissionToMB env _ _ (MessageBlock.ofAction (str "updatesubmissions")) [] with
  | none => exact ⟨rfl, rfl⟩
  | some mb =>
    by_cases hjudge : m.result = 5
    · simp only [hjudge, ne_eq, not_true_eq_false, if_false]
      exact ⟨rfl, rfl⟩
    · simp only [hjudge, ne_eq, not_false_eq_true, if_true]
      exact ⟨rfl, rfl⟩

theorem run_intProcess (env : Env) (m : MarkMessage) (db : Db) :
    (intProcess env m).final db = { db with contest := marked m db.contest } ∧
      (intProcess env m).result db =
        if (submissionToMB env (marked m db.contest) (getSubmission (marked m db.contest) m.submissionId)
          (MessageBlock.ofAction (str "updatesubmissions")) []).isSome then .ok true else .error .badString := by
  obtain ⟨hfinal, hresult⟩ := yields_putFiles m.submissionId m.marker m.files
    { db with contest := putMark db.contest m.submissionId m.marker m.time m.result m.comment m.serverId }
  rw [intProcess, setContest, Prog.final_set_bind, Prog.result_set_bind, Prog.final_bind (putFiles _ _ _),
    Prog.result_bind (putFiles _ _ _), hresult, hfinal]
  exact run_announce env m _

end MarkMessage

namespace SubmissionMessage

def failureNotice (problem : Str) : MessageBlock :=
  (MessageBlock.ofAction (str "submission")).set (str "msg")
    (str "Your submission for '" ++ problem ++ str "' has failed - please notify the contest administrator")

def fail (m : SubmissionMessage) : DbProg Bool := do
  let problem ← readContest fun c => (getProblemAttributes c m.probId).getD (str "shortname") []
  Prog.output (.sendMessage m.userId (failureNotice problem))
  return false

def announce (env : Env) (m : SubmissionMessage) (s : AttributeList) : DbProg Unit := do
  let mb ← readContest fun c => submissionToMB env c s (MessageBlock.ofAction (str "updatesubmissions")) []
  let mb ← orRaise .badString mb
  Prog.output (.broadcastEvent m.userId .seeAllSubmissions mb)

/-- A marking server queues the submission, even one that the queries do not find. -/
def dispatch (env : Env) (m : SubmissionMessage) (listed : Bool) : DbProg Bool := do
  let marks ← readContest fun c => getServerAttribute c env.self (str "marker") == str "yes"
  if marks then Prog.output (.enqueueSubmission m.submissionId)
  if listed then return true else fail m

def notify (env : Env) (m : SubmissionMessage) : DbProg Bool := do
  let s ← readContest fun c => getSubmission c m.submissionId
  if s.isEmpty then dispatch env m false
  else
    announce env m s
    dispatch env m true

def intProcess (env : Env) (m : SubmissionMessage) : DbProg Bool := do
  let stored ← writeContest fun c => putSubmission c m.submissionId
    { userId := m.userId, probId := m.probId, time := m.time, serverId := m.serverId, content := m.content,
      language := m.language }
  if !stored then fail m else notify env m

theorem result_fail (m : SubmissionMessage) (db : Db) : (fail m).result db = .ok false := by
  rw [fail, readContest, Prog.result_read_bind, Prog.result_output_bind, Prog.result_pure]

theorem result_dispatch (env : Env) (m : SubmissionMessage) (listed : Bool) (db : Db) :
    (dispatch env m listed).result db = .ok listed := by
  have hend : (if listed then return true else fail m : DbProg Bool).result db = .ok listed := by
    cases listed with
    | true => rfl
    | false => exact result_fail m db
  rw [dispatch, readContest, Prog.result_read_bind]
  dsimp only
  split
  · rw [Prog.result_output_bind]
    exact hend
  · exact hend

theorem result_notify (env : Env) (m : SubmissionMessage) (db : Db) :
    (notify env m).result db =
      let s := getSubmission db.contest m.submissionId
      if s.isEmpty then .ok false
      else if (submissionToMB env db.contest s (MessageBlock.ofAction (str "updatesubmissions")) []).isSome then
        .ok true
      else .error .badString := by
  rw [notify, readContest, Prog.result_read_bind]
  dsimp only
  split
  · exact result_dispatch env m false db
  · rw [announce, readContest, Prog.result_bind, Prog.result_read_bind, Prog.final_read_bind]
    cases submissionToMB env db.contest _ _ [] with
    | none => rfl
    | some mb => exact result_dispatch env m true db

end SubmissionMessage

namespace MessageCreateGroup

def intProcess (env : Env) (m : MessageCreateGroup) : DbProg Bool := do
  let added ← writeContest fun c => addGroup c m.groupId m.groupname
  Prog.output (.updateGroupState m.groupId env.now)
  return added

end MessageCreateGroup

namespace MessageCreateUser

def intProcess (m : MessageCreateUser) : DbProg Bool := do
  let added ← writeContest fun c => addUser c m.userId m.username m.friendlyname m.password m.type m.groupId
  let text := if added then str "User '" ++ m.username ++ str "' was successfully added."
    else str "Addition of user '" ++ m.username ++ str "' failed!"
  if m.requestorId ≠ 0 then
    let mb := (MessageBlock.ofAction (str "msg")).set (str "title") (str "User addition")
    Prog.output (.sendMessage m.requestorId (mb.set (str "text") text))
  return added

end MessageCreateUser

namespace MessageCreateServer

def setAttributes (serverId : Nat) : List (Str × Str) → DbProg Unit
  | [] => return ()
  | (name, value) :: attribs => do
    setContest fun c => setServerAttribute c serverId name value
    setAttributes serverId attribs

/-- The second statement of `addServer`, which may fail without consequence. -/
def bookMessages (env : Env) (m : MessageCreateServer) : DbProg Unit :=
  if m.serverId ≠ env.self then do
    let _ ← Prog.write (onPeer fun t => insertNoAck t (serverBatch t m.serverId))
    return ()
  else return ()

def intProcess (env : Env) (m : MessageCreateServer) : DbProg Bool := do
  let added ← Prog.write (onPeer fun t => insertServer t m.serverId m.name)
  if !added then return false
  bookMessages env m
  setAttributes m.serverId m.attribs.toList
  Prog.output (.putAck 0 0 m.serverId)
  return true

end MessageCreateServer

namespace MsgStartStop

/-- Once for each end of the contest that lies ahead of some group concerned. -/
def scheduleEnds (now : Int) (timer : TimerSupportModule) (groupId : Nat) : List Nat → List Int → DbProg Unit
  | [], _ => return ()
  | g :: groups, done => do
    let ending := timer.contestEndTime g
    if (groupId = 0 ∨ groupId = g) ∧ ending > now ∧ ending ∉ done then
      Prog.output (.putTimedAction ending)
      scheduleEnds now timer groupId groups (ending :: done)
    else scheduleEnds now timer groupId groups done

def intProcess (env : Env) (m : MsgStartStop) : DbProg Bool := do
  let e : Event := { time := m.time, groupId := m.groupId, action := m.action }
  setContest fun c => putStartStop c m.groupId (if m.action = timerStart then .start else .stop) m.time
  Prog.output (.addEvent e)
  if (m.time : Int) > env.now then
    Prog.output (.putTimedAction m.time)
  else
    Prog.output (.performStartStop env.now)
    Prog.output (.triggerEvent (str "updateclock") m.groupId (MessageBlock.ofAction (str "updateclock")))
    Prog.output (.updateStandings 0)
  let groups ← readContest fun c => (groupList c).map Prod.fst
  scheduleEnds env.now (env.timer.addEvent e) m.groupId groups []
  return true

end MsgStartStop

namespace ProbMessage

def all (p q : DbProg Bool) : DbProg Bool := do
  let ok₁ ← p
  let ok₂ ← q
  return ok₁ && ok₂

def delProblemAttribute (problemId : Nat) (attr : Str) : DbProg Unit := do
  setContest fun c => deleteAttributeRow c problemId attr
  setContest fun c => deleteFileDataRow c problemId attr

def setProblemAttribute (problemId : Nat) (attr value : Str) : DbProg Bool := do
  delProblemAttribute problemId attr
  writeContest fun c => insertAttributeRow c problemId attr value

def setProblemFile (problemId : Nat) (attr fname data : Str) : DbProg Bool := do
  let ok ← setProblemAttribute problemId attr fname
  if !ok then return false
  writeContest fun c => insertFileDataRow c problemId attr data

def named (m : ProbMessage) (attr : Str) : Bool :=
  m.ints.contains attr || m.strings.contains attr || m.files.contains attr

def removeAttributes (m : ProbMessage) : List Str → DbProg Unit
  | [] => return ()
  | attr :: attrs => do
    if !named m attr then delProblemAttribute m.probId attr
    removeAttributes m attrs

/-- A file without a name is kept as it is. -/
def setFiles (problemId : Nat) : List (Str × FileAttrib) → DbProg Bool
  | [] => return true
  | (attr, f) :: files =>
    all (if f.name ≠ [] then setProblemFile problemId attr f.name f.data else return true) (setFiles problemId files)

def setInts (problemId : Nat) : List (Str × Int) → DbProg Bool
  | [] => return true
  | (attr, value) :: ints => all (setProblemAttribute problemId attr (Misc.toString value)) (setInts problemId ints)

def setStrings (problemId : Nat) : List (Str × Str) → DbProg Bool
  | [] => return true
  | (attr, value) :: strings => all (setProblemAttribute problemId attr value) (setStrings problemId strings)

def removeDeps (m : ProbMessage) : List Nat → DbProg Unit
  | [] => return ()
  | d :: olds => do
    if d ∉ m.deps then setContest fun c => delProblemDependency c m.probId d
    removeDeps m olds

def addDeps (problemId : Nat) (olds : List Nat) : List Nat → DbProg Unit
  | [] => return ()
  | d :: deps => do
    if d ∉ olds then
      let _ ← writeContest fun c => addProblemDependency c problemId d
    addDeps problemId olds deps

def setType (m : ProbMessage) (exType : Str) : DbProg Unit :=
  if exType ≠ m.type then setContest fun c => setProblemType c m.probId m.type else return ()

def setAttributes (m : ProbMessage) : DbProg Bool :=
  all (setFiles m.probId m.files.toList)
    (all (setInts m.probId m.ints.toList) (setStrings m.probId m.strings.toList))

/-- The time is set once more if all attributes could be set. -/
def setUpdateTime (m : ProbMessage) (ok : Bool) : DbProg Unit := do
  setContest fun c => setProblemUpdateTime c m.probId m.updateTime
  if ok then setContest fun c => setProblemUpdateTime c m.probId m.updateTime else return ()

def setDependencies (m : ProbMessage) : DbProg Unit := do
  let olds ← readContest fun c => getProblemDependencies c m.probId
  removeDeps m olds
  addDeps m.probId olds m.deps

def apply (m : ProbMessage) (exType : Str) : DbProg Bool := do
  setType m exType
  let ok ← setAttributes m
  setUpdateTime m ok
  setDependencies m
  return ok

def intProcess (m : ProbMessage) : DbProg Bool := do
  if m.probId = 4294967295 then return false
  let exType ← readContest fun c => getProblemType c m.probId
  if exType ≠ [] then
    let updated ← readContest fun c => getProblemUpdateTime c m.probId
    if updated > m.updateTime then return true
    let attrs ← readContest fun c => (getProblemAttributes c m.probId).keys
    removeAttributes m attrs
    apply m exType
  else apply m exType

end ProbMessage

def intProcess (env : Env) : Message → DbProg Bool
  | .createServer m => MessageCreateServer.intProcess env m
  | .createUser m => MessageCreateUser.intProcess m
  | .createGroup m => MessageCreateGroup.intProcess env m
  | .passwd m => PasswdMessage.intProcess m
  | .prob m => ProbMessage.intProcess m
  | .submission m => SubmissionMessage.intProcess env m
  | .startStop m => MsgStartStop.intProcess env m
  | .mark m => MarkMessage.intProcess env m
  | .clarification m => ClarificationMessage.intProcess m
  | .bonus m => BonusMessage.intProcess m

/-- A message that was processed is marked so; one that was not stays to be replayed. -/
def process (env : Env) (key : MessageKey) (m : Message) : DbProg Bool := do
  let status ← intProcess env m
  if status then Prog.set fun db => { db with peer := markProcessed db.peer key }
  return status

theorem contest_final_process (env : Env) (key : MessageKey) (m : Message) (db : Db) :
    ((process env key m).final db).contest = ((intProcess env m).final db).contest := by
  rw [process, Prog.final_bind]
  cases (intProcess env m).result db with
  | error e => rfl
  | ok status => cases status <;> rfl

structure Arrival where
  env : Env
  key : MessageKey
  message : Message

def processAll (arrivals : List Arrival) (db : Db) : Db :=
  arrivals.foldl (fun db a => (process a.env a.key a.message).final db) db

end Abacus.Peer.Process
