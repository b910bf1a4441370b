import Abacus.Database.Marks

/-! # Users, groups, servers, clarifications and start/stop times

A user name and a group name are unique as well as their numbers. A text that a left join
leaves without a row is `NULL`, and assigning it to a string is an error.
-/

namespace Abacus.Database.People

open Library Library.Bytes Database.Schema Database.Marks Misc

variable (c : Contest)

def username (userId : Nat) : Str := ((c.user[userId]?).map User.username).getD []

def friendlyname (userId : Nat) : Str := ((c.user[userId]?).map User.friendlyname).getD []

def usertype (userId : Nat) : Nat := ((c.user[userId]?).map User.type).getD 4294967295

def userGroup (userId : Nat) : Nat := ((c.user[userId]?).map User.group).getD 4294967295

def userBonus (userId : Nat) : Option (Int × Int) := (c.user[userId]?).map fun u => (u.bonusPoints, u.bonusSeconds)

def userIdOf (name : Str) : Nat := ((c.user.toList.find? fun r => r.2.username = name).map Prod.fst).getD 0

def authenticate (name hash : Str) : Option (Nat × Nat × Nat) :=
  (c.user.toList.find? fun r => r.2.username = name ∧ r.2.password = hash).map fun r => (r.1, r.2.type, r.2.group)

def groupname (groupId : Nat) : Str := (c.group[groupId]?).getD []

def groupIdOf (name : Str) : Nat := ((c.group.toList.find? fun r => r.2 = name).map Prod.fst).getD 0

def userList : List (Nat × Str) := c.user.toList.map fun r => (r.1, r.2.username)

def groupList : List (Nat × Str) := c.group.toList

def addUser (userId : Nat) (name friendly password : Str) (type group : Nat) : Option Contest :=
  let row : User :=
    { username := name, friendlyname := friendly, password, type, group, bonusPoints := 0, bonusSeconds := 0 }
  (Table.insertUnique (fun u : User => u.username = name) c.user userId row).map fun user => { c with user }

def addGroup (groupId : Nat) (name : Str) : Option Contest :=
  (Table.insertUnique (fun n : Str => n = name) c.group groupId name).map fun group => { c with group }

def setPassword (userId : Nat) (password : Str) : Contest :=
  { c with user := c.user.modify userId fun u => { u with password } }

def setBonus (userId : Nat) (points seconds : Int) : Contest :=
  { c with user := c.user.modify userId fun u => { u with bonusPoints := points, bonusSeconds := seconds } }

def getServerAttribute (serverId : Nat) (attr : Str) : Str :=
  ((c.serverAttributes[(serverId, attr)]?).map text).getD []

def setServerAttribute (serverId : Nat) (attr value : Str) : Contest :=
  { c with serverAttributes := c.serverAttributes.insert (serverId, attr) value }

/-- The column of the group is signed, and a number beyond it is cut off. -/
def putStartStop (groupId : Nat) (action : StartStop) (time : Nat) : Contest :=
  { c with contestStartStop := c.contestStartStop.insert (min groupId maxInt, action, time) () }

def putClarificationRequest (requestId : Nat) (r : ClarificationRequest) : Option Contest :=
  (Table.insertNew c.clarificationRequest requestId r).map fun clarificationRequest => { c with clarificationRequest }

def putClarification (clarificationId : Nat) (r : Clarification) : Option Contest :=
  (Table.insertNew c.clarification clarificationId r).map fun clarification => { c with clarification }

def problemName (problemId : Nat) : Str :=
  ((c.problemAttributes[(problemId, str "shortname")]?).map text).getD (str "General")

def requestAttrs (requestId : Nat) (r : ClarificationRequest) : AttributeList :=
  (∅ : AttributeList)
    |>.insert (str "id") (decimal requestId)
    |>.insert (str "user_id") (decimal r.userId)
    |>.insert (str "problem") (problemName c r.problemId)
    |>.insert (str "time") (decimal r.time)
    |>.insert (str "question") (text r.text)

def getClarificationRequest (requestId : Nat) : AttributeList :=
  ((c.clarificationRequest[requestId]?).map (requestAttrs c requestId)).getD ∅

def getClarificationRequests (o : OrderBy (Nat × ClarificationRequest)) (uid : Nat) : List AttributeList :=
  (o.sort (fun r => (r.2.time : Int)) (c.clarificationRequest.toList.filter fun r => uid = 0 ∨ r.2.userId = uid)).map
    fun r => requestAttrs c r.1 r.2

/-- The question is `NULL` if the request is not there. -/
def clarificationAttrs (clarificationId : Nat) (r : Clarification) : Option AttributeList :=
  (c.clarificationRequest[r.clarificationReqId]?).map fun request =>
    (∅ : AttributeList)
      |>.insert (str "id") (decimal clarificationId)
      |>.insert (str "req_id") (decimal r.clarificationReqId)
      |>.insert (str "problem") (problemName c request.problemId)
      |>.insert (str "time") (decimal r.time)
      |>.insert (str "question") (text request.text)
      |>.insert (str "answer") (text r.text)

def getClarification (clarificationId : Nat) : Option AttributeList :=
  match c.clarification[clarificationId]? with
  | none => some ∅
  | some r => clarificationAttrs c clarificationId r

/-- Public clarifications and those on the user's own requests, or all of them for 0. -/
def getClarifications (o : OrderBy (Nat × Clarification)) (uid : Nat) : Option (List AttributeList) :=
  let visible (r : Clarification) : Bool :=
    r.isPublic || (c.clarificationRequest[r.clarificationReqId]?).any fun request => request.userId = uid
  (o.sort (fun r => (r.2.time : Int)) (c.clarification.toList.filter fun r => uid = 0 ∨ visible r.2)).mapM
    fun r => clarificationAttrs c r.1 r.2

end Abacus.Database.People
