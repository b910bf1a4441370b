import Abacus.Library.Bytes
import Std.Data.ExtTreeMap

/-! # Peer messages

Every change of contest data travels between servers as a message. Each class has
its own fields, stored as a blob and rebuilt from it by the `load` of its class.
-/

namespace Abacus.Peer.Classes

open Library.Bytes

abbrev StringMap (α : Type) := Std.ExtTreeMap Str α

structure MessageCreateServer where
  serverId : Nat
  name : Str
  attribs : StringMap Str
  deriving DecidableEq

structure MessageCreateUser where
  userId : Nat
  type : Nat
  groupId : Nat
  requestorId : Nat
  username : Str
  friendlyname : Str
  password : Str
  deriving DecidableEq

structure MessageCreateGroup where
  groupId : Nat
  groupname : Str
  deriving DecidableEq

structure PasswdMessage where
  userId : Nat
  newpass : Str
  deriving DecidableEq

structure FileAttrib where
  name : Str
  data : Str
  deriving DecidableEq

/-- A problem update. A file whose name is empty stands for the file stored before. -/
structure ProbMessage where
  probId : Nat
  updateTime : Nat
  deps : List Nat
  type : Str
  files : StringMap FileAttrib
  strings : StringMap Str
  ints : StringMap Int
  deriving DecidableEq

structure SubmissionMessage where
  submissionId : Nat
  userId : Nat
  probId : Nat
  time : Nat
  serverId : Nat
  content : Str
  language : Str
  deriving DecidableEq

structure MsgStartStop where
  groupId : Nat
  time : Nat
  action : Nat
  deriving DecidableEq

structure MarkFile where
  name : Str
  data : Str
  deriving DecidableEq

structure MarkMessage where
  submissionId : Nat
  marker : Nat
  result : Nat
  time : Nat
  serverId : Nat
  comment : Str
  files : List MarkFile
  deriving DecidableEq

/-- A request, or a reply to one when `request` is zero: `probId` then says whether it is public. -/
structure ClarificationMessage where
  request : Nat
  clarificationRequestId : Nat
  clarificationId : Nat
  userId : Nat
  probId : Nat
  time : Nat
  serverId : Nat
  text : Str
  deriving DecidableEq

structure BonusMessage where
  userId : Nat
  points : Int
  seconds : Int
  deriving DecidableEq

inductive Message
  | createServer (m : MessageCreateServer)
  | createUser (m : MessageCreateUser)
  | createGroup (m : MessageCreateGroup)
  | passwd (m : PasswdMessage)
  | prob (m : ProbMessage)
  | submission (m : SubmissionMessage)
  | startStop (m : MsgStartStop)
  | mark (m : MarkMessage)
  | clarification (m : ClarificationMessage)
  | bonus (m : BonusMessage)
  deriving DecidableEq

inductive MessageClass
  | createServer
  | createUser
  | createGroup
  | passwd
  | prob
  | submission
  | startStop
  | mark
  | clarification
  | bonus
  deriving DecidableEq, Repr

def Message.class : Message → MessageClass
  | .createServer _ => .createServer
  | .createUser _ => .createUser
  | .createGroup _ => .createGroup
  | .passwd _ => .passwd
  | .prob _ => .prob
  | .submission _ => .submission
  | .startStop _ => .startStop
  | .mark _ => .mark
  | .clarification _ => .clarification
  | .bonus _ => .bonus

def MessageClass.messageTypeId : MessageClass → Nat
  | .createServer => 0x0001
  | .createUser => 0x0002
  | .passwd => 0x0003
  | .prob => 0x0004
  | .submission => 0x0005
  | .startStop => 0x0006
  | .mark => 0x0007
  | .clarification => 0x0008
  | .createGroup => 0x0009
  | .bonus => 0x000a

/-- The classes with a functor: two from the start, the others with the modules of the sample configuration. -/
def MessageClass.registered : MessageClass → Bool
  | .createGroup => false
  | _ => true

def classOfTypeId : Nat → Option MessageClass
  | 0x0001 => some .createServer
  | 0x0002 => some .createUser
  | 0x0003 => some .passwd
  | 0x0004 => some .prob
  | 0x0005 => some .submission
  | 0x0006 => some .startStop
  | 0x0007 => some .mark
  | 0x0008 => some .clarification
  | 0x000a => some .bonus
  | _ => none

theorem classOfTypeId_messageTypeId (c : MessageClass) :
    classOfTypeId c.messageTypeId = if c.registered then some c else none := by
  cases c <;> rfl

end Abacus.Peer.Classes
