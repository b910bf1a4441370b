import Abacus.Database.Peer

/-! # The contest tables

One map for each table, from its primary key. Text keys are compared byte by byte. The signed column of a
result holds it up to its largest value.
-/

namespace Abacus.Database.Schema

open Library Library.Bytes

/-- A text column as it is read into a string: up to its first zero byte. -/
def text (s : Str) : Str := s.takeWhile (· ≠ 0)

structure User where
  username : Str
  friendlyname : Str
  password : Str
  type : Nat
  group : Nat
  bonusPoints : Int
  bonusSeconds : Int
  deriving DecidableEq

structure Problem where
  updated : Nat
  type : Str
  deriving DecidableEq

structure Submission where
  userId : Nat
  probId : Nat
  time : Nat
  serverId : Nat
  content : Str
  language : Str
  deriving DecidableEq

structure SubmissionMark where
  markTime : Nat
  result : Nat
  remark : Str
  serverId : Nat
  deriving DecidableEq

structure ClarificationRequest where
  userId : Nat
  time : Nat
  problemId : Nat
  text : Str
  deriving DecidableEq

structure Clarification where
  clarificationReqId : Nat
  userId : Nat
  time : Nat
  isPublic : Bool
  text : Str
  deriving DecidableEq

inductive StartStop
  | start
  | stop
  deriving DecidableEq, Ord, Repr

instance : Std.TransOrd StartStop where
  eq_swap {a b} := by cases a <;> cases b <;> rfl
  isLE_trans {a b c} := by cases a <;> cases b <;> cases c <;> decide

instance : Std.LawfulEqOrd StartStop where
  compare_self {a} := by cases a <;> rfl
  eq_of_compare {a b} := by cases a <;> cases b <;> decide

-- named once, so that the tables are the same ones in every module

instance instTransOrdTextKey : Std.TransOrd (Nat × Str) := inferInstance

instance instLawfulEqOrdTextKey : Std.LawfulEqOrd (Nat × Str) := inferInstance

instance instTransOrdFileKey : Std.TransOrd (Nat × Nat × Str) := inferInstance

instance instLawfulEqOrdFileKey : Std.LawfulEqOrd (Nat × Nat × Str) := inferInstance

instance instTransOrdEventKey : Std.TransOrd (Nat × StartStop × Nat) := inferInstance

instance instLawfulEqOrdEventKey : Std.LawfulEqOrd (Nat × StartStop × Nat) := inferInstance

structure Contest where
  user : Table Nat User
  group : Table Nat Str
  serverAttributes : Table (Nat × Str) Str
  problem : Table Nat Problem
  problemAttributes : Table (Nat × Str) Str
  problemFileData : Table (Nat × Str) Str
  problemDependencies : Table (Nat × Nat) Unit
  submission : Table Nat Submission
  submissionMark : Table (Nat × Nat) SubmissionMark
  submissionMarkFile : Table (Nat × Nat × Str) Str
  clarificationRequest : Table Nat ClarificationRequest
  clarification : Table Nat Clarification
  contestStartStop : Table (Nat × StartStop × Nat) Unit
  deriving DecidableEq

structure Db where
  peer : Database.Peer.PeerTables
  contest : Contest
  deriving DecidableEq

def Contest.empty : Contest where
  user := ∅
  group := ∅
  serverAttributes := ∅
  problem := ∅
  problemAttributes := ∅
  problemFileData := ∅
  problemDependencies := ∅
  submission := ∅
  submissionMark := ∅
  submissionMarkFile := ∅
  clarificationRequest := ∅
  clarification := ∅
  contestStartStop := ∅

end Abacus.Database.Schema
