import Abacus.Client.ProblemManip
import Abacus.Peer.Rebuild

/-! # Marks, and messages for other servers

The handlers of `subscribemark` and `mark`, and of `udtcppeermessageget`, with which a server
fetches a message that was too large for a frame.
-/

namespace Abacus.Client.Marking

open Library Library.Bytes Misc Client.Block Client.Permissions Client.Action Client.ProblemManip
open Database.Schema Database.Marks Database.Peer Peer.Classes Peer.Load Peer.Store

variable (s : Server) (cc : Connection) (mb : MessageBlock)

def actSubscribeMark : ClientProg MessageBlock := do
  Prog.output .enqueueMarker
  return .ok

def isPrint (b : UInt8) : Bool := 32 ≤ b && b ≤ 126

def markFileReg (s : Str) : Option (Str × Str × Str) := matchFile (fun n => n ≤ 7) isPrint (text s)

/-- The headers `file0`, `file1`, … up to the first that is missing. -/
def fileDescs : List Str :=
  ((List.range (mb.headers.size + 1)).map fun c => mb.headers[str "file" ++ decimal c]?).takeWhile Option.isSome
    |>.filterMap id

/-- A description that does not match is ignored. Nothing compares the slice with the content. -/
def fileOfMark (desc : Str) : Outcome (Option MarkFile) :=
  match markFileReg desc with
  | none => .ok none
  | some (start, size, name) =>
    match fromStringU32 start, fromStringU32 size with
    | some start, some size => (slice mb start size).bind fun data => .ok (some { name, data })
    | _, _ => .fault .badString

def filesOf : List Str → Outcome (List MarkFile)
  | [] => .ok []
  | desc :: descs => (fileOfMark mb desc).bind fun file => (filesOf descs).bind fun files => .ok (file.toList ++ files)

def judgeResult : Int := 5

/-- A judge decides where a marker deferred to the judges, and no judge has decided. -/
def judgeRefusal : Option SubmissionState → Option Str
  | none => some (str
      "This hasn't been compiled or even run: you really think I'm going to let you fiddle with the marks?")
  | some state =>
    if getPermissions state.utype .judge then
      some (str "Another judge has already judged this submission, sorry!")
    else if state.state ≠ judgeResult then
      some (str ("You cannot change the status of this submission: the decision " ++
      "was black and white; no human required."))
    else none

def markRefusal (c : Contest) (submissionId : Nat) : Option Str :=
  if cc.permissions .judgeOverride then none
  else if cc.permissions .mark then
    if s.issued = submissionId then none else some (str "Markers may only mark submissions issued to them")
  else if cc.permissions .judge then judgeRefusal (getSubmissionState c s.stateOrder submissionId)
  else some (str "You do not have permission to do this")

/-- A marker that sends nonsense loses its submission. -/
def reject (msg : String) : ClientProg Answer := do
  Prog.output .preemptMarker
  return .error (str msg)

def placeMark (submissionId result : Nat) : ClientProg Answer :=
  match filesOf mb (fileDescs mb) with
  | .ok files => do
    Prog.output (.notifyMarked submissionId)
    let self ← Prog.read fun db => getId s db.peer
    return .message (.mark
      { submissionId, marker := cc.userId, result, time := time32 s, serverId := self,
        comment := mb.get (str "comment"), files }) .ok
  | .refused msg => return .error msg
  | .fault f => .raise f

def actPlaceMark : ClientProg Answer := do
  let some submissionId := fromStringU32 (mb.get (str "submission_id")) | reject "Invalid submission_id"
  let refusal ← query fun c => markRefusal s cc c submissionId
  match refusal with
  | some msg => return .error msg
  | none =>
    let some result := fromStringU32 (mb.get (str "result")) | reject "You must specify the result"
    placeMark s cc mb submissionId result

def rebuild (row : PeerMessage) : ClientProg Unit :=
  match classOfTypeId row.messageTypeId with
  | none => .raise .nullPointer
  | some cls =>
    match load cls row.data with
    | .error .outOfBounds => .raise .outOfBounds
    | .error .reject => .raise .nullPointer
    | .ok _ => if blobHeader + row.data.length < 4294967296 then return () else .raise .outOfBounds

/-- The reply refers to the bytes of the blob. They are freed before it is sent. -/
def tcpTransmitAction : ClientProg MessageBlock := do
  let serverId ← orThrow (fromStringU32 (mb.get (str "server_id")))
  let messageId ← orThrow (fromStringU32 (mb.get (str "message_id")))
  let skip ← orThrow (fromStringU32 (mb.get (str "skip")))
  if serverId = 0 ∨ messageId = 0 then return .error (str "Ill-formed message")
  let row ← Prog.read fun db => db.peer.peerMessage[(serverId, messageId)]?
  match row with
  | none => return .error (str "Message not found")
  | some row => do
    rebuild row
    if skip < blobHeader + row.data.length then .raise .freedMemory
    else return .error (str "skip < block_size")

section

variable {s : Server} {cc : Connection} {mb : MessageBlock} {E : ClientFault → Prop}

@[grind ←] theorem reads_actSubscribeMark : Prog.Reads E actSubscribeMark := by grind [actSubscribeMark]

@[grind ←] theorem reads_reject (msg : String) : Prog.Reads E (reject msg) := by grind [reject]

@[grind ←] theorem reads_placeMark (submissionId result : Nat) :
    Prog.Reads (fun _ => True) (placeMark s cc mb submissionId result) := by
  grind [placeMark]

@[grind ←] theorem reads_actPlaceMark : Prog.Reads (fun _ => True) (actPlaceMark s cc mb) := by grind [actPlaceMark]

@[grind ←] theorem reads_rebuild (row : PeerMessage) : Prog.Reads (fun _ => True) (rebuild row) := by grind [rebuild]

@[grind ←] theorem reads_tcpTransmitAction : Prog.Reads (fun _ => True) (tcpTransmitAction mb) := by
  refine Prog.reads_bind (reads_orThrow _) fun serverId => ?_
  refine Prog.reads_bind (reads_orThrow _) fun messageId => ?_
  refine Prog.reads_bind (reads_orThrow _) fun skip => ?_
  grind

end

end Abacus.Client.Marking
