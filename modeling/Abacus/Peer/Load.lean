import Abacus.Peer.Classes

/-! # Rebuilding messages from their blobs

One decoder for each class. It raises `reject` where the method returns `~0U`, and otherwise gives the message
and the number of bytes consumed. The remaining size wraps modulo `2 ^ 32`.
-/

namespace Abacus.Peer.Load

open Library.Bytes Peer.Classes

def checkStringTerms (buf : Str) (pos sz nzeros : Nat) : Read Bool := termsAt buf pos sz nzeros

def requireTerms (buf : Str) (pos sz nzeros : Nat) : Read Unit := do
  if ← checkStringTerms buf pos sz nzeros then pure () else throw .reject

namespace BonusMessage

def load (buf : Str) : Read (BonusMessage × Nat) := do
  if buf.length < 12 then throw .reject
  let userId ← u32At buf 0
  let points ← i32At buf 4
  let seconds ← i32At buf 8
  return ({ userId, points, seconds }, 12)

end BonusMessage

namespace MsgStartStop

def load (buf : Str) : Read (MsgStartStop × Nat) := do
  if buf.length < 12 then throw .reject
  let groupId ← u32At buf 0
  let time ← u32At buf 4
  let action ← u32At buf 8
  return ({ groupId, time, action }, 12)

end MsgStartStop

namespace PasswdMessage

def load (buf : Str) : Read (PasswdMessage × Nat) := do
  if buf.length < 4 then throw .reject
  if (← strnlenAt buf 4 (buf.length - 4)) = buf.length - 4 then throw .reject
  let userId ← u32At buf 0
  let newpass ← cstrAt buf 4
  return ({ userId, newpass }, wrap32 (4 + (newpass.length + 1)))

end PasswdMessage

namespace ClarificationMessage

def load (buf : Str) : Read (ClarificationMessage × Nat) := do
  if buf.length ≤ 28 then throw .reject
  let request ← u32At buf 0
  let clarificationRequestId ← u32At buf 4
  let clarificationId ← u32At buf 8
  let userId ← u32At buf 12
  let probId ← u32At buf 16
  let time ← u32At buf 20
  let serverId ← u32At buf 24
  requireTerms buf 28 (sub32 buf.length 28) 1
  let text ← cstrAt buf 28
  return ({ request, clarificationRequestId, clarificationId, userId, probId, time, serverId, text },
    wrap32 (28 + (text.length + 1)))

end ClarificationMessage

namespace SubmissionMessage

/-- The size left after the six numbers is taken to be four bytes more than it is. -/
def load (buf : Str) : Read (SubmissionMessage × Nat) := do
  if buf.length < 24 then throw .reject
  let submissionId ← u32At buf 0
  let userId ← u32At buf 4
  let probId ← u32At buf 8
  let time ← u32At buf 12
  let serverId ← u32At buf 16
  let contentSize ← u32At buf 20
  let size := sub32 buf.length 20
  if size < contentSize then throw .reject
  let content ← bytesAt buf 24 contentSize
  let pos := 24 + contentSize
  let size := sub32 size contentSize
  requireTerms buf pos size 1
  let language ← cstrAt buf pos
  return ({ submissionId, userId, probId, time, serverId, content, language },
    wrap32 (pos + (language.length + 1)))

end SubmissionMessage

namespace MarkMessage

/-- The files at the end of a mark. Every round moves `pos` on, so the length of the buffer bounds the rounds. -/
def loadFiles (buf : Str) : Nat → Nat → Nat → List MarkFile → Read (List MarkFile × Nat)
  | 0, _, _, _ => throw .outOfBounds
  | rounds + 1, pos, size, files => do
    if size > 4 then
      if ← checkStringTerms buf pos (sub32 size 4) 1 then
        let name ← cstrAt buf pos
        let pos := pos + (name.length + 1)
        let size := sub32 size (name.length + 1)
        let len ← u32At buf pos
        let pos := pos + 4
        let size := sub32 size 4
        if size < len then throw .reject
        let data ← bytesAt buf pos len
        loadFiles buf rounds (pos + len) (sub32 size len) (files ++ [{ name, data }])
      else return (files, pos)
    else return (files, pos)

def load (buf : Str) : Read (MarkMessage × Nat) := do
  if buf.length < 20 then throw .reject
  let submissionId ← u32At buf 0
  let marker ← u32At buf 4
  let result ← u32At buf 8
  let time ← u32At buf 12
  let serverId ← u32At buf 16
  let size := sub32 buf.length 20
  requireTerms buf 20 size 1
  let comment ← cstrAt buf 20
  let size := sub32 size (comment.length + 1)
  let (files, pos) ← loadFiles buf buf.length (20 + (comment.length + 1)) size []
  return ({ submissionId, marker, result, time, serverId, comment, files }, wrap32 pos)

end MarkMessage

namespace MessageCreateGroup

def load (buf : Str) : Read (MessageCreateGroup × Nat) := do
  let numzeros ← zerosAt buf 4 (buf.length - 4)
  if numzeros < 1 then throw .reject
  let groupId ← u32At buf 0
  let groupname ← cstrAt buf 4
  return ({ groupId, groupname }, wrap32 (4 + (groupname.length + 1)))

end MessageCreateGroup

namespace MessageCreateServer

def loadAttribs (buf : Str) : Nat → Nat → StringMap Str → Read (StringMap Str × Nat)
  | numzeros + 2, pos, attribs => do
    let attribName ← cstrAt buf pos
    let pos := pos + (attribName.length + 1)
    let attribValue ← cstrAt buf pos
    let pos := pos + (attribValue.length + 1)
    loadAttribs buf numzeros pos (attribs.insert attribName attribValue)
  | _, pos, attribs => return (attribs, pos)

def load (buf : Str) : Read (MessageCreateServer × Nat) := do
  let numzeros ← zerosAt buf 4 (buf.length - 4)
  if numzeros = 0 then throw .reject
  let serverId ← u32At buf 0
  let name ← cstrAt buf 4
  let (attribs, pos) ← loadAttribs buf (numzeros - 1) (4 + (name.length + 1)) ∅
  return ({ serverId, name, attribs }, wrap32 pos)

end MessageCreateServer

namespace MessageCreateUser

def load (buf : Str) : Read (MessageCreateUser × Nat) := do
  let numzeros ← zerosAt buf 16 (buf.length - 16)
  if numzeros < 3 then throw .reject
  let userId ← u32At buf 0
  let type ← u32At buf 4
  let groupId ← u32At buf 8
  let requestorId ← u32At buf 12
  let username ← cstrAt buf 16
  let pos := 16 + (username.length + 1)
  let friendlyname ← cstrAt buf pos
  let pos := pos + (friendlyname.length + 1)
  let password ← cstrAt buf pos
  return ({ userId, type, groupId, requestorId, username, friendlyname, password },
    wrap32 (pos + (password.length + 1)))

end MessageCreateUser

namespace ProbMessage

def addIntAttrib (m : ProbMessage) (name : Str) (value : Int) : ProbMessage :=
  { m with ints := m.ints.insert name value }

def addStringAttrib (m : ProbMessage) (name value : Str) : ProbMessage :=
  { m with strings := m.strings.insert name value }

def addFileAttrib (m : ProbMessage) (name filename data : Str) : ProbMessage :=
  { m with files := m.files.insert name { name := filename, data } }

def keepFileAttrib (m : ProbMessage) (name : Str) : ProbMessage :=
  { m with files := m.files.insert name { name := [], data := [] } }

def loadDeps (buf : Str) : Nat → Nat → Read (List Nat)
  | _, 0 => return []
  | pos, count + 1 => do
    let dep ← u32At buf pos
    let rest ← loadDeps buf (pos + 4) count
    return dep :: rest

def loadString (buf : Str) (pos size : Nat) (m : ProbMessage) : Read (ProbMessage × Nat × Nat) := do
  requireTerms buf pos size 2
  let attr ← cstrAt buf pos
  let pos := pos + (attr.length + 1)
  let value ← cstrAt buf pos
  let pos := pos + (value.length + 1)
  return (addStringAttrib m attr value, pos, sub32 size (attr.length + value.length + 2))

/-- Unlike the other two tags, the size is not compared with four before four is taken off. -/
def loadInt (buf : Str) (pos size : Nat) (m : ProbMessage) : Read (ProbMessage × Nat × Nat) := do
  requireTerms buf pos (sub32 size 4) 1
  let attr ← cstrAt buf pos
  let pos := pos + (attr.length + 1)
  let value ← i32At buf pos
  return (addIntAttrib m attr value, pos + 4, sub32 size (attr.length + 1 + 4))

def loadFile (buf : Str) (pos size : Nat) (m : ProbMessage) : Read (ProbMessage × Nat × Nat) := do
  if size ≤ 4 then throw .reject
  requireTerms buf pos (sub32 size 4) 2
  let attr ← cstrAt buf pos
  let pos := pos + (attr.length + 1)
  let name ← cstrAt buf pos
  let pos := pos + (name.length + 1)
  let filesize ← u32At buf pos
  let pos := pos + 4
  let size := sub32 size (attr.length + name.length + 2 + 4)
  if name = [] then return (keepFileAttrib m attr, pos, size)
  if size < filesize then throw .reject
  let data ← bytesAt buf pos filesize
  return (addFileAttrib m attr name data, pos + filesize, sub32 size filesize)

def loadAttrib (buf : Str) (tag : UInt8) (pos size : Nat) (m : ProbMessage) :
    Read (ProbMessage × Nat × Nat) :=
  if tag = 83 then loadString buf pos size m
  else if tag = 73 then loadInt buf pos size m
  else if tag = 70 then loadFile buf pos size m
  else throw .reject

def loadAttribs (buf : Str) : Nat → Nat → Nat → ProbMessage → Read (ProbMessage × Nat)
  | 0, _, _, _ => throw .outOfBounds
  | rounds + 1, pos, size, m => do
    if size = 0 then return (m, pos)
    let tag ← byteAt buf pos
    let (m, pos, size) ← loadAttrib buf tag (pos + 1) (sub32 size 1) m
    loadAttribs buf rounds pos size m

def load (buf : Str) : Read (ProbMessage × Nat) := do
  if buf.length < 8 then throw .reject
  let probId ← u32At buf 0
  let updateTime ← u32At buf 4
  let size := sub32 buf.length 8
  let depsSize ← u32At buf 8
  let deps ← loadDeps buf 12 depsSize
  let size := sub32 size (wrap32 (1 + depsSize) * 4)
  let pos := 12 + 4 * depsSize
  requireTerms buf pos size 1
  let type ← cstrAt buf pos
  let size := sub32 size (type.length + 1)
  let (m, pos) ← loadAttribs buf (buf.length + 1) (pos + (type.length + 1)) size
    { probId, updateTime, deps, type, files := ∅, strings := ∅, ints := ∅ }
  return (m, wrap32 pos)

end ProbMessage

def mapMessage {α : Type} (f : α → Message) (r : Read (α × Nat)) : Read (Message × Nat) := do
  let (m, used) ← r
  return (f m, used)

def load : MessageClass → Str → Read (Message × Nat)
  | .createServer, buf => mapMessage .createServer (MessageCreateServer.load buf)
  | .createUser, buf => mapMessage .createUser (MessageCreateUser.load buf)
  | .createGroup, buf => mapMessage .createGroup (MessageCreateGroup.load buf)
  | .passwd, buf => mapMessage .passwd (PasswdMessage.load buf)
  | .prob, buf => mapMessage .prob (ProbMessage.load buf)
  | .submission, buf => mapMessage .submission (SubmissionMessage.load buf)
  | .startStop, buf => mapMessage .startStop (MsgStartStop.load buf)
  | .mark, buf => mapMessage .mark (MarkMessage.load buf)
  | .clarification, buf => mapMessage .clarification (ClarificationMessage.load buf)
  | .bonus, buf => mapMessage .bonus (BonusMessage.load buf)

end Abacus.Peer.Load
