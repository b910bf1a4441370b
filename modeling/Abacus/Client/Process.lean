import Abacus.Client.Marking
import Abacus.Client.Submit
import Abacus.Client.Users

/-! # Answering requests

`ClientAction::process`: a request is refused, or its handler makes the reply. The reply
gets the id of the request and is put on the queue of the connection.
-/

namespace Abacus.Client.Process

open Library Library.Bytes Client.Block Client.Permissions Client.Action
open Client.Users Client.Contest Client.Submit Client.ProblemManip Client.Marking Database.Schema

inductive ActionName
  | auth
  | passwd
  | idPasswd
  | getusers
  | adduser
  | addgroup
  | getgroups
  | addserver
  | getserverlist
  | whatami
  | getbonus
  | setbonus
  | getclarifications
  | getclarificationrequests
  | clarificationrequest
  | clarification
  | startstop
  | subscribetime
  | contesttime
  | conteststatus
  | eventmap
  | standings
  | submit
  | getproblems
  | getsubmissions
  | getsubmissionsForUser
  | fetchfile
  | getsubmissionsource
  | getlanguages
  | getprobtypes
  | getprobdescript
  | setprobattrs
  | getprobattrs
  | getprobfile
  | subscribemark
  | mark
  | udtcppeermessageget
  deriving DecidableEq, Repr

def actionmap : List (String × ActionName) :=
  [("auth", .auth), ("passwd", .passwd), ("id_passwd", .idPasswd), ("getusers", .getusers), ("adduser", .adduser),
    ("addgroup", .addgroup), ("getgroups", .getgroups), ("addserver", .addserver), ("getserverlist", .getserverlist),
    ("whatami", .whatami), ("getbonus", .getbonus), ("setbonus", .setbonus),
    ("getclarifications", .getclarifications), ("getclarificationrequests", .getclarificationrequests),
    ("clarificationrequest", .clarificationrequest), ("clarification", .clarification), ("startstop", .startstop),
    ("subscribetime", .subscribetime), ("contesttime", .contesttime), ("conteststatus", .conteststatus),
    ("eventmap", .eventmap), ("standings", .standings), ("submit", .submit), ("getproblems", .getproblems),
    ("getsubmissions", .getsubmissions), ("getsubmissions_for_user", .getsubmissionsForUser),
    ("fetchfile", .fetchfile), ("getsubmissionsource", .getsubmissionsource), ("getlanguages", .getlanguages),
    ("getprobtypes", .getprobtypes), ("getprobdescript", .getprobdescript), ("setprobattrs", .setprobattrs),
    ("getprobattrs", .getprobattrs), ("getprobfile", .getprobfile), ("subscribemark", .subscribemark),
    ("mark", .mark), ("udtcppeermessageget", .udtcppeermessageget)]

def findAction (action : Str) : Option ActionName := (actionmap.find? fun a => str a.1 = action).map Prod.snd

def permissionTest : ActionName → PermissionTest
  | .auth => .any
  | .passwd => .base .changePassword
  | .idPasswd => .base .userAdmin
  | .getusers => .base .userAdmin
  | .adduser => .base .userAdmin
  | .addgroup => .base .userAdmin
  | .getgroups => .or (.base .userAdmin) (.base .startStop)
  | .addserver => .base .serverAdmin
  | .getserverlist => .base .serverAdmin
  | .whatami => .any
  | .getbonus => .base .seeStandings
  | .setbonus => .base .setBonus
  | .getclarifications => .base .auth
  | .getclarificationrequests => .base .auth
  | .clarificationrequest => .base .clarificationRequest
  | .clarification => .base .clarificationReply
  | .startstop => .base .startStop
  | .subscribetime => .base .auth
  | .contesttime => .base .auth
  | .conteststatus => .base .auth
  | .eventmap => .any
  | .standings => .base .seeStandings
  | .submit => .base .submit
  | .getproblems => .base .auth
  | .getsubmissions => .base .auth
  | .getsubmissionsForUser => .and (.base .seeAllSubmissions) (.base .seeUserId)
  | .fetchfile => .base .auth
  | .getsubmissionsource => .base .auth
  | .getlanguages => .base .auth
  | .getprobtypes => .base .problemAdmin
  | .getprobdescript => .base .problemAdmin
  | .setprobattrs => .base .problemAdmin
  | .getprobattrs => .base .seeProblemDetails
  | .getprobfile => .base .seeProblemDetails
  | .subscribemark => .base .mark
  | .mark => .or (.base .mark) (.base .judge)
  | .udtcppeermessageget => .not (.base .auth)

variable (s : Server) (cc : Connection) (mb : MessageBlock)

def answer : ActionName → ClientProg Answer
  | .auth => Answer.reply <$> actAuth s cc mb
  | .passwd => actPasswd s cc mb
  | .idPasswd => actIdPasswd s mb
  | .getusers => Answer.reply <$> actGetUsers
  | .adduser => actAddUser s cc mb
  | .addgroup => actAddGroup s mb
  | .getgroups => Answer.reply <$> actGetGroups
  | .addserver => actAddServer s mb
  | .getserverlist => Answer.reply <$> serverListAct
  | .whatami => Answer.reply <$> actWhatAmI cc
  | .getbonus => Answer.reply <$> actGetbonus mb
  | .setbonus => actSetbonus mb
  | .getclarifications => Answer.reply <$> actGetClarifications s cc
  | .getclarificationrequests => Answer.reply <$> actGetClarificationRequests s cc
  | .clarificationrequest => actClarificationRequest s cc mb
  | .clarification => actClarification s cc mb
  | .startstop => actStartStop mb
  | .subscribetime => Answer.reply <$> actSubscribeTime cc
  | .contesttime => Answer.reply <$> actContesttime s cc
  | .conteststatus => Answer.reply <$> actRunning s cc
  | .eventmap => Answer.reply <$> actEventRegistry cc mb
  | .standings => Answer.reply <$> actStandings s cc
  | .submit => actSubmit s cc mb
  | .getproblems => Answer.reply <$> actGetProblems s cc
  | .getsubmissions => Answer.reply <$> actGetSubmissions s cc
  | .getsubmissionsForUser => Answer.reply <$> actGetSubmissionsForUser s cc mb
  | .fetchfile => Answer.reply <$> actSubmissionFileFetcher s cc mb
  | .getsubmissionsource => Answer.reply <$> actGetSubmissionSource cc mb
  | .getlanguages => Answer.reply <$> actGetLanguages s
  | .getprobtypes => Answer.reply <$> actGetProbTypes
  | .getprobdescript => Answer.reply <$> actGetProbDescript mb
  | .setprobattrs => actSetProbAttrs s mb
  | .getprobattrs => Answer.reply <$> actGetProbAttrs mb
  | .getprobfile => Answer.reply <$> actGetProblemFile mb
  | .subscribemark => Answer.reply <$> actSubscribeMark
  | .mark => actPlaceMark s cc mb
  | .udtcppeermessageget => Answer.reply <$> tcpTransmitAction mb

def intProcess (action : ActionName) : ClientProg MessageBlock := do
  let a ← answer s cc mb action
  finish s a

inductive ConnectionOutput
  | effect (e : Effect)
  | sendMessageBlock (mb : MessageBlock)

abbrev ConnectionProg := Prog Db ConnectionOutput ClientFault

def reply : ConnectionProg (Option MessageBlock) := do
  let self ← Prog.read fun db => getId s db.peer
  if self = 0 then return some (.error (str "Server has not yet been initialised - please try again later"))
  match findAction mb.action with
  | none => return some (.error (str "No such action"))
  | some action =>
    if (permissionTest action).matches cc.permissions then do
      let r ← Prog.embed .effect id (intProcess s cc mb action)
      return some r
    else return some (.error (str "Action not permitted"))

def process : ConnectionProg Unit := do
  let r ← reply s cc mb
  let r := r.getD (.error (str "Internal error - no reply generated by " ++ mb.action))
  Prog.output (.sendMessageBlock (r.setMessageId mb.messageId))

end Abacus.Client.Process
