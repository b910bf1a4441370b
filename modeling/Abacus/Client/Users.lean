import Abacus.Client.Action

/-! # Users, groups, servers and bonuses

The handlers of `auth`, `passwd`, `id_passwd`, `getusers`, `adduser`, `addgroup`, `getgroups`,
`addserver`, `getserverlist`, `whatami`, `getbonus` and `setbonus`.
-/

namespace Abacus.Client.Users

open Library Library.Bytes Misc Client.Block Client.Permissions Client.Action
open Database.Schema Database.People Peer.Classes

variable (s : Server) (cc : Connection) (mb : MessageBlock)

/-- A client that was logged in already leaves its subscriptions and its submission. -/
def leave : ClientProg Unit :=
  if cc.userId ≠ 0 then do
    Prog.output .deregisterClient
    Prog.output .preemptMarker
  else return ()

def actAuth : ClientProg MessageBlock := do
  let name := mb.get (str "user")
  let user ← query fun c => authenticate c name (s.hashpw name (mb.get (str "pass")))
  match user with
  | none => return .error (str "Authentication failed.  Invalid username and/or password.")
  | some (userId, userType, groupId) => do
    leave cc
    Prog.output (.login userId groupId userType)
    Prog.output .registerClient
    return MessageBlock.ok.set (str "user") name

/-- The password of a user is hashed with the name; without a user there is none. -/
def hashUserPw (userId : Nat) (pw : Str) (c : Contest) : Str :=
  let name := username c userId
  if name = [] then [] else s.hashpw name pw

def actPasswd : ClientProg Answer := do
  let newpass := mb.get (str "newpass")
  if newpass = [] then return .error (str "Cannot have a blank password!")
  let newpass ← query (hashUserPw s cc.userId newpass)
  if newpass = [] then return .error (str "Error hashing password.")
  return .message (.passwd { userId := cc.userId, newpass }) .ok

def actIdPasswd : ClientProg Answer := do
  let some userId := fromStringU32 (mb.get (str "user_id")) | return .error (str "user_id isn't a valid integer")
  let newpass := mb.get (str "newpass")
  if newpass = [] then return .error (str "Cannot have a blank password!")
  let newpass ← query (hashUserPw s userId newpass)
  if newpass = [] then return .error (str "Invalid user id or hashing error.")
  return .message (.passwd { userId, newpass }) .ok

def typenames : List String := ["none", "admin", "judge", "contestant", "marker", "observer", "proctor"]

def userRecord (c : Contest) (user : Nat × Str) : Option Database.Marks.AttributeList :=
  (typenames[usertype c user.1]?).map fun type =>
    record [("id", decimal user.1), ("username", user.2), ("friendlyname", friendlyname c user.1), ("type", str type)]

def actGetUsers : ClientProg MessageBlock := do
  let records ← query fun c => (userList c).mapM (userRecord c)
  match records with
  | none => return .error (str "Invalid user type")
  | some records => return numbered .ok records

def typemap : List (String × Nat) :=
  [("admin", 1), ("judge", 2), ("contestant", 3), ("marker", 4), ("observer", 5), ("proctor", 6)]

def typeOf (name : Str) : Nat := ((typemap.find? fun t => str t.1 = name).map Prod.snd).getD 0

def actAddUser : ClientProg Answer := do
  let username := mb.get (str "username")
  let passwd := mb.get (str "passwd")
  let type := typeOf (mb.get (str "type"))
  let group := toU32 (strtol (mb.get (str "group")))
  if type = 0 then return .error (str "Invalid user type " ++ mb.get (str "type"))
  if username = [] then return .error (str "Cannot have a blank username")
  if passwd = [] then return .error (str "Cannot set a blank password")
  let groupname ← query fun c => groupname c group
  if groupname = [] then return .error (str "Invalid group ID")
  let password := s.hashpw username passwd
  if password = [] then return .error (str "Password hashing error")
  let friendlyname := if mb.get (str "friendlyname") = [] then username else mb.get (str "friendlyname")
  let taken ← query fun c => userIdOf c username
  if taken = 4294967295 then
    return .error (str "Unexpected error while trying to query availability of username '" ++ username ++ str "'")
  if taken ≠ 0 then return .error (str "Username '" ++ username ++ str "' is already in use")
  let userId ← nextId s .user
  if userId = 4294967295 then return .error (str "Unable to determine next usable user_id")
  return .message
    (.createUser { userId, type, groupId := group, requestorId := cc.userId, username, friendlyname, password }) .ok

def actAddGroup : ClientProg Answer := do
  let groupname := mb.get (str "groupname")
  if groupname = [] then return .error (str "Cannot have a blank group name")
  let taken ← query fun c => groupIdOf c groupname
  if taken = 4294967295 then
    return .error (str "Unexpected error while trying to query availability of group name '" ++ groupname ++ str "'")
  if taken ≠ 0 then return .error (str "Group '" ++ groupname ++ str "' already exists")
  let groupId ← nextId s .group
  if groupId = 4294967295 then return .error (str "Unable to determine next usable group id")
  return .message (.createGroup { groupId, groupname }) .ok

def actGetGroups : ClientProg MessageBlock := do
  let groups ← query groupList
  return numbered .ok (groups.map fun g => record [("id", decimal g.1), ("groupname", g.2)])

/-- Every header but two becomes an attribute of the server. -/
def serverAttribs : StringMap Str :=
  mb.headers.filter fun name _ => name ≠ str "servername" ∧ name ≠ str "content-length"

def actAddServer : ClientProg Answer := do
  let self ← Prog.read fun db => getId s db.peer
  if self ≠ 1 then return .error (str "Can only add servers from the master server")
  let name := mb.get (str "servername")
  if name = [] then return .error (str "Cannot specify an empty server name")
  let taken ← Prog.read fun db => Action.serverId db.peer name
  if taken ≠ 0 then return .error (str "Servername is already in use!")
  let serverId ← nextId s .server
  if serverId = 4294967295 then return .error (str "Unable to determine next server_id")
  return .message (.createServer { serverId, name, attribs := serverAttribs mb }) .ok

def serverListAct : ClientProg MessageBlock := do
  let servers ← Prog.read fun db => db.peer.server.toList
  return numbered .ok (servers.map fun r => record [("server", text r.2)])

def actWhatAmI : ClientProg MessageBlock := do
  let held := permissionNames.filter fun p => cc.permissions p.1
  return numbered .ok (held.map fun p => record [("permission", str p.2)])

def actSetbonus : ClientProg Answer := do
  let some userId := fromStringU32 (mb.get (str "user_id")) | return .error (str "user_id isn't a valid integer")
  let some points := fromStringI32 (mb.get (str "points")) | return .error (str "points isn't a valid integer")
  let some seconds := fromStringI32 (mb.get (str "seconds")) | return .error (str "seconds isn't a valid integer")
  return .message (.bonus { userId, points, seconds }) .ok

def actGetbonus : ClientProg MessageBlock := do
  let some userId := fromStringU32 (mb.get (str "user_id")) | return .error (str "user_id isn't a valid integer")
  let bonus ← query fun c => userBonus c userId
  match bonus with
  | none => return .error (str "could not get bonus for this user")
  | some (points, seconds) =>
    return (MessageBlock.ok.set (str "points") (Misc.toString points)).set (str "seconds") (Misc.toString seconds)

section

variable {s : Server} {cc : Connection} {mb : MessageBlock} {E : ClientFault → Prop}

@[grind ←] theorem reads_leave : Prog.Reads E (leave cc) := by grind [leave]

@[grind ←] theorem reads_actAuth : Prog.Reads E (actAuth s cc mb) := by grind [actAuth]

@[grind ←] theorem reads_actPasswd : Prog.Reads E (actPasswd s cc mb) := by grind [actPasswd]

@[grind ←] theorem reads_actIdPasswd : Prog.Reads E (actIdPasswd s mb) := by grind [actIdPasswd]

@[grind ←] theorem reads_actGetUsers : Prog.Reads E actGetUsers := by grind [actGetUsers]

@[grind ←] theorem reads_actAddUser : Prog.Reads E (actAddUser s cc mb) := by grind [actAddUser]

@[grind ←] theorem reads_actAddGroup : Prog.Reads E (actAddGroup s mb) := by grind [actAddGroup]

@[grind ←] theorem reads_actGetGroups : Prog.Reads E actGetGroups := by grind [actGetGroups]

@[grind ←] theorem reads_actAddServer : Prog.Reads E (actAddServer s mb) := by grind [actAddServer]

@[grind ←] theorem reads_serverListAct : Prog.Reads E serverListAct := by grind [serverListAct]

@[grind ←] theorem reads_actWhatAmI : Prog.Reads E (actWhatAmI cc) := by grind [actWhatAmI]

@[grind ←] theorem reads_actSetbonus : Prog.Reads E (actSetbonus mb) := by grind [actSetbonus]

@[grind ←] theorem reads_actGetbonus : Prog.Reads E (actGetbonus mb) := by grind [actGetbonus]

end

end Abacus.Client.Users
