import Abacus.Client.Action

/-! # Clarifications, the clock, events and standings

The handlers of `getclarifications`, `getclarificationrequests`, `clarificationrequest`,
`clarification`, `startstop`, `subscribetime`, `contesttime`, `conteststatus`, `eventmap` and
`standings`.
-/

namespace Abacus.Client.Contest

open Library Library.Bytes Misc Client.Block Client.Permissions Client.Action Support.Timer
open Database.Schema Database.Problems Database.People

variable (s : Server) (cc : Connection) (mb : MessageBlock)

/-- 0 stands for all users. -/
def userOrAll (p : Permission) : Nat := if cc.permissions p then 0 else cc.userId

def actGetClarifications : ClientProg MessageBlock := do
  let list ← query fun c => getClarifications c s.clarificationOrder (userOrAll cc .seeAllClarifications)
  match list with
  | none => .raise .nullString
  | some list => return numbered .ok list

def actGetClarificationRequests : ClientProg MessageBlock := do
  let list ← query fun c => getClarificationRequests c s.requestOrder (userOrAll cc .seeAllClarificationRequests)
  return numbered .ok list

/-- A request about the contest in general has problem 0. -/
def requestProblem : ClientProg (Except Str Nat) := do
  let probId := mb.get (str "prob_id")
  if probId = str "0" ∨ probId = [] then return .ok 0
  let some probId := fromStringU32 probId | return .error (str "prob_id isn't a valid integer")
  let problems ← query getProblems
  if probId ∈ problems then return .ok probId
  return .error (str "Invalid prob_id - no such id")

def actClarificationRequest : ClientProg Answer := do
  let problem ← requestProblem mb
  match problem with
  | .error msg => return .error msg
  | .ok probId => do
    let id ← nextId s .clarificationRequest
    if id = 4294967295 then
      return .error (str "Internal server error. Error obtaining new clarification request id")
    let self ← Prog.read fun db => getId s db.peer
    return .message (.clarification
      { request := 1, clarificationRequestId := id, clarificationId := 0, userId := cc.userId, probId,
        time := time32 s, serverId := self, text := mb.get (str "question") }) .ok

def actClarification : ClientProg Answer := do
  let some requestId := fromStringU32 (mb.get (str "clarification_request_id"))
    | return .error (str "clarification_request_id isn't a valid integer")
  let request ← query fun c => getClarificationRequest c requestId
  if request.isEmpty then return .error (str "Invalid clarification_request_id - no such id")
  let id ← nextId s .clarification
  if id = 4294967295 then return .error (str "Internal server error. Error obtaining new clarification id")
  let self ← Prog.read fun db => getId s db.peer
  return .message (.clarification
    { request := 0, clarificationRequestId := requestId, clarificationId := id, userId := cc.userId,
      probId := if mb.get (str "public") = str "1" then 1 else 0, time := time32 s, serverId := self,
      text := mb.get (str "answer") }) .ok

def startStopAction (action : Str) : Option Nat :=
  if action = str "start" then some timerStart else if action = str "stop" then some timerStop else none

/-- No group, or `all`, is group 0. -/
def startStopGroup (groupId : Str) : Option Nat :=
  if groupId = str "all" ∨ groupId = [] then some 0 else fromStringU32 groupId

def actStartStop : ClientProg Answer := do
  let some action := startStopAction (mb.get (str "action"))
    | return .error (str "Invalid 'action', must be either 'start' or 'stop'")
  let some time := (fromStringTime (mb.get (str "time"))).filter (· ≠ 0)
    | return .error (str "Invalid start/stop time specified")
  let some groupId := startStopGroup (mb.get (str "group_id")) | return .error (str "Invalid group_id specified")
  return .message (.startStop { groupId, time := toU32 time, action }) .ok

def eventMap : List (String × PermissionTest) :=
  [("startstop", .base .auth), ("updateclock", .base .auth), ("updateclarifications", .base .auth),
    ("updateclarificationrequests", .base .auth), ("updatesubmissions", .base .auth),
    ("updatestandings", .base .seeStandings)]

def mayListen (event : Str) : Bool :=
  (eventMap.find? fun e => str e.1 = event).any fun e => e.2.matches cc.permissions

def registerEvent (event : Str) : ClientProg Bool :=
  if mayListen cc event then do
    Prog.output (.subscribe event)
    return true
  else return false

def deregisterEvent (event : Str) : ClientProg Bool :=
  if mayListen cc event then do
    Prog.output (.unsubscribe event)
    return true
  else return false

def actSubscribeTime : ClientProg MessageBlock := do
  let started ← registerEvent cc (str "startstop")
  let clock ← if started then registerEvent cc (str "updateclock") else pure false
  return if clock then .ok else .error (str "Unable to subscribe to the 'startstop' event")

def actEventRegistry : ClientProg MessageBlock := do
  let event := mb.get (str "event")
  if mb.get (str "action") = str "subscribe" then do
    let done ← registerEvent cc event
    return if done then .ok else .error (str "No such event or permission denied")
  else if mb.get (str "action") = str "unsubscribe" then do
    let done ← deregisterEvent cc event
    return if done then .ok else .error (str "No such event or permission denied")
  else return .error (str "Unknown action")

def running : Bool := s.timer.contestStatus s.now cc.groupId 0 = timerStart

def actContesttime : ClientProg MessageBlock := do
  let time := s.timer.contestTime s.now cc.groupId 0
  return MessageBlock.ok
    |>.set (str "running") (str (if running s cc then "yes" else "no"))
    |>.set (str "time") (Misc.toString time)
    |>.set (str "remain") (Misc.toString (s.timer.duration - time))
    |>.set (str "blinds") (Misc.toString s.timer.blinds)

def actRunning : ClientProg MessageBlock := do
  return MessageBlock.ok.set (str "status") (str (if running s cc then "running" else "stopped"))

def cellName (row col : Nat) : Str := str "row_" ++ decimal row ++ str "_" ++ decimal col

def columns : List String := ["ID", "Team", "Name", "Group", "Contestant", "Points", "Time"]

def setCells (row : Nat) (cells : List Str) (mb : MessageBlock) : MessageBlock :=
  cells.zipIdx.foldl (fun mb (cell, col) => mb.set (cellName row col) cell) mb

def problemColumn (problems : List Nat) (problem : Nat) : Nat :=
  -- a problem that is not there gets column 0
  if problem ∈ problems then columns.length + problems.idxOf problem else 0

def standingCells (c : Contest) (problems : List Nat) (userId : Nat) (d : StandingsData) : List Str :=
  [decimal userId, username c userId, friendlyname c userId, groupname c (userGroup c userId),
    str (if d.inStandings then "1" else "0"), [], Misc.toString d.time] ++ problems.map fun _ => str "0"

/-- The points are written last, after the numbers of tries. -/
def setStanding (c : Contest) (problems : List Nat) (row : Nat) (r : Nat × StandingsData) (mb : MessageBlock) :
    MessageBlock :=
  let mb := setCells row (standingCells c problems r.1 r.2) mb
  let mb := r.2.tries.toList.foldl
    (fun mb (problem, tries) => mb.set (cellName row (problemColumn problems problem)) (Misc.toString tries)) mb
  mb.set (cellName row 5) (Misc.toString r.2.points)

def getStandingsInternal (c : Contest) (standings : Standings) (uid : Nat) (seeAll : Bool) (mb : MessageBlock) :
    MessageBlock :=
  let problems := getProblems c
  let titles := columns.map str ++ problems.map fun p => (getProblemAttributes c p).getD (str "shortname") []
  let mb := (setCells 0 titles mb).set (str "ncols") (decimal titles.length)
  let rows := (standings.toList.filter fun r => uid = 0 || r.1 = uid).filter fun r => seeAll || r.2.inStandings
  let mb := rows.zipIdx.foldl (fun mb (r, i) => setStanding c problems (i + 1) r mb) mb
  mb.set (str "nrows") (decimal (rows.length + 1))

def getStandings (c : Contest) (final seeAll : Bool) (mb : MessageBlock) : MessageBlock :=
  getStandingsInternal c (if final then s.finalStandings else s.contestantStandings) 0 seeAll mb

def actStandings : ClientProg MessageBlock := do
  query fun c => getStandings s c (cc.permissions .seeFinalStandings) (cc.permissions .seeAllStandings) .ok

section

variable {s : Server} {cc : Connection} {mb : MessageBlock} {E : ClientFault → Prop}

@[grind ←] theorem reads_actGetClarificationRequests : Prog.Reads E (actGetClarificationRequests s cc) := by
  grind [actGetClarificationRequests]

@[grind ←] theorem reads_requestProblem : Prog.Reads E (requestProblem mb) := by grind [requestProblem]

@[grind ←] theorem reads_actClarificationRequest : Prog.Reads E (actClarificationRequest s cc mb) := by
  grind [actClarificationRequest]

@[grind ←] theorem reads_actClarification : Prog.Reads E (actClarification s cc mb) := by grind [actClarification]

@[grind ←] theorem reads_actStartStop : Prog.Reads E (actStartStop mb) := by grind [actStartStop]

@[grind ←] theorem reads_registerEvent (event : Str) : Prog.Reads E (registerEvent cc event) := by grind [registerEvent]

@[grind ←] theorem reads_deregisterEvent (event : Str) : Prog.Reads E (deregisterEvent cc event) := by
  grind [deregisterEvent]

@[grind ←] theorem reads_actSubscribeTime : Prog.Reads E (actSubscribeTime cc) := by grind [actSubscribeTime]

@[grind ←] theorem reads_actEventRegistry : Prog.Reads E (actEventRegistry cc mb) := by grind [actEventRegistry]

@[grind ←] theorem reads_actContesttime : Prog.Reads E (actContesttime s cc) := by grind [actContesttime]

@[grind ←] theorem reads_actRunning : Prog.Reads E (actRunning s cc) := by grind [actRunning]

@[grind ←] theorem reads_actStandings : Prog.Reads E (actStandings s cc) := by grind [actStandings]

@[grind ←] theorem reads_actGetClarifications : Prog.Reads (fun _ => True) (actGetClarifications s cc) := by
  grind [actGetClarifications]

end

end Abacus.Client.Contest
