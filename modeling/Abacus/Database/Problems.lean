import Abacus.Database.Marks

/-! # Problems

The queries on the four problem tables and the statements that write them.
-/

namespace Abacus.Database.Problems

open Library Library.Bytes Database.Schema Database.Marks

variable (c : Contest)

def getProblems : List Nat := c.problem.keys

def getProblemType (problemId : Nat) : Str := ((c.problem[problemId]?).map fun r => text r.type).getD []

def getProblemUpdateTime (problemId : Nat) : Nat := ((c.problem[problemId]?).map Problem.updated).getD 4294967295

def getProblemAttributes (problemId : Nat) : AttributeList :=
  Std.ExtTreeMap.ofList <| c.problemAttributes.toList.filterMap fun ((p, attr), value) =>
    if p = problemId then some (attr, text value) else none

def getProblemFileData (problemId : Nat) (attr : Str) : Option Str := c.problemFileData[(problemId, attr)]?

/-- The dependencies that are problems themselves. -/
def getProblemDependencies (problemId : Nat) : List Nat :=
  (c.problemDependencies.keys.filter fun (p, d) => p = problemId ∧ d ∈ c.problem).map Prod.snd

def getDependentProblemsPending (o : OrderBy MarkRow) (userId problemId : Nat) : List Nat :=
  (getProblemDependencies c problemId).filter fun d => !hasSolved c o userId d

def isSubmissionAllowed (o : OrderBy MarkRow) (userId problemId : Nat) : Bool :=
  (getDependentProblemsPending c o userId problemId).isEmpty

/-- A new row has the default update time. -/
def setProblemType (problemId : Nat) (type : Str) : Contest :=
  let updated := ((c.problem[problemId]?).map Problem.updated).getD 0
  { c with problem := c.problem.insert problemId { updated, type } }

def setProblemUpdateTime (problemId time : Nat) : Contest :=
  { c with problem := c.problem.modify problemId fun r => { r with updated := time } }

def deleteAttributeRow (problemId : Nat) (attr : Str) : Contest :=
  { c with problemAttributes := c.problemAttributes.erase (problemId, attr) }

def deleteFileDataRow (problemId : Nat) (attr : Str) : Contest :=
  { c with problemFileData := c.problemFileData.erase (problemId, attr) }

def insertAttributeRow (problemId : Nat) (attr value : Str) : Option Contest :=
  (Table.insertNew c.problemAttributes (problemId, attr) value).map fun problemAttributes =>
    { c with problemAttributes }

def insertFileDataRow (problemId : Nat) (attr data : Str) : Option Contest :=
  (Table.insertNew c.problemFileData (problemId, attr) data).map fun problemFileData => { c with problemFileData }

def delProblemDependency (problemId dependentProblemId : Nat) : Contest :=
  { c with problemDependencies := c.problemDependencies.erase (problemId, dependentProblemId) }

def addProblemDependency (problemId dependentProblemId : Nat) : Option Contest :=
  (Table.insertNew c.problemDependencies (problemId, dependentProblemId) ()).map fun problemDependencies =>
    { c with problemDependencies }

end Abacus.Database.Problems
