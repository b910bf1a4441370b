import Abacus.Database.Peer
import Abacus.Peer.Classes
import Mathlib.Algebra.GroupWithZero.Nat

/-! # Storing messages as blobs

A string is copied up to its first zero byte; where the next piece follows the whole string all the same, the
bytes in between are those of the buffer as it was allocated.
-/

namespace Abacus.Peer.Store

open Library.Bytes Database.Peer Peer.Classes

inductive Field
  | word (n : Nat)
  | int (n : Int)
  | bytes (s : Str)
  | string (s : Str)
  /-- A string whose copied part alone is counted. -/
  | packed (s : Str)
  deriving DecidableEq

def Field.length : Field → Nat
  | .word _ | .int _ => 4
  | .bytes s => s.length
  | .string s | .packed s => s.length + 1

abbrev Fresh := Nat → UInt8

section

variable (fresh : Fresh)

def Field.write (pos : Nat) : Field → Str
  | .word n => le32 (wrap32 n)
  | .int n => le32 (n % 4294967296).toNat
  | .bytes s => s
  | .string s =>
    let copied := cstr s 0 ++ [0]
    copied ++ (List.range (s.length + 1 - copied.length)).map fun i => fresh (pos + copied.length + i)
  | .packed s => cstr s 0 ++ [0]

def writeAll (pos : Nat) : List Field → Str
  | [] => []
  | f :: fs =>
    let chunk := f.write fresh pos
    chunk ++ writeAll (pos + chunk.length) fs

end

def markFile (f : MarkFile) : List Field := [.packed f.name, .word f.data.length, .bytes f.data]

def fileAttrib (a : Str × FileAttrib) : List Field :=
  [.bytes [70], .string a.1, .string a.2.name, .word a.2.data.length, .bytes a.2.data]

def fields : Message → List Field
  | .createServer m =>
    [.word m.serverId, .string m.name] ++ m.attribs.toList.flatMap fun a => [.string a.1, .string a.2]
  | .createUser m =>
    [.word m.userId, .word m.type, .word m.groupId, .word m.requestorId, .string m.username, .string m.friendlyname,
      .string m.password]
  | .createGroup m => [.word m.groupId, .string m.groupname]
  | .passwd m => [.word m.userId, .string m.newpass]
  | .prob m =>
    [.word m.probId, .word m.updateTime, .word m.deps.length] ++ m.deps.map .word ++ [.string m.type] ++
      m.ints.toList.flatMap (fun a => [.bytes [73], .string a.1, .int a.2]) ++
      m.strings.toList.flatMap (fun a => [.bytes [83], .string a.1, .string a.2]) ++ m.files.toList.flatMap fileAttrib
  | .submission m =>
    [.word m.submissionId, .word m.userId, .word m.probId, .word m.time, .word m.serverId, .word m.content.length,
      .bytes m.content, .string m.language]
  | .startStop m => [.word m.groupId, .word m.time, .word m.action]
  | .mark m =>
    [.word m.submissionId, .word m.marker, .word m.result, .word m.time, .word m.serverId, .packed m.comment] ++
      m.files.flatMap markFile
  | .clarification m =>
    [.word m.request, .word m.clarificationRequestId, .word m.clarificationId, .word m.userId, .word m.probId,
      .word m.time, .word m.serverId, .string m.text]
  | .bonus m => [.word m.userId, .int m.points, .int m.seconds]

/-- A problem update without a problem is not packed. -/
def proper : Message → Bool
  | .prob m => m.probId ≠ 4294967295
  | _ => true

/-- The size of the blob, or nothing for `~0U`. -/
def storageRequired (m : Message) : Option Nat :=
  let size := wrap32 ((fields m).map Field.length).sum
  if proper m ∧ size ≠ 4294967295 then some size else none

def store (fresh : Fresh) (m : Message) (size : Nat) : Str :=
  let used := writeAll fresh 0 (fields m)
  used ++ (List.range (size - used.length)).map fun i => fresh (used.length + i)

def Field.copied : Field → Nat
  | .word _ | .int _ => 4
  | .bytes s => s.length
  | .string s | .packed s => (cstr s 0).length + 1

def Field.advance : Field → Nat
  | .packed s => (cstr s 0).length + 1
  | f => f.length

def extent (pos : Nat) : List Field → Nat
  | [] => 0
  | f :: fs => max (if f.copied = 0 then 0 else pos + f.copied) (extent (pos + f.advance) fs)

def blobHeader : Nat := 144

def makeMessage (self now : Nat) (fresh : Fresh) (t : PeerTables) (m : Message) : PeerTables × Option MessageKey :=
  match storageRequired m with
  | none => (t, none)
  | some size => putLocalMessage self t
    { messageTypeId := m.class.messageTypeId, time := now, signature := List.replicate 128 0,
      data := store fresh m size, processed := false }

end Abacus.Peer.Store
