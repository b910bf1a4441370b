import Abacus.Library.Machine
import Abacus.Peer.Process
import Abacus.Support.StartStop

/-! # Telling the groups that the contest starts and stops

One thread updates the groups for the moment at which it read the clock, another for the time of an action. Every
call of `updateGroupState` is a step of its own.
-/

namespace Abacus.Support.GroupState

open Library Timer Timeline StartStop Database.Schema Database.People

/-- What is left to do for a message once the events and the groups are up to date. -/
inductive Op
  | updateGroupState (groupId : Nat) (time : Int)
  /-- The clock is read before the update. -/
  | updateNow (groupId : Nat)
  | putTimedAction (time : Int)
  deriving DecidableEq

inductive Thread
  /-- The clock has been read, the event is not yet in the list. -/
  | scheduling (now : Int) (r : Row)
  /-- Whether the database will take the group. -/
  | creating (groupId : Nat) (added : Bool)
  | working (ops : List Op)
  deriving DecidableEq

structure State where
  now : Int
  timer : TimerSupportModule
  groups : List Nat
  groupState : Table Nat Nat
  /-- The times of the actions that have not been begun. -/
  pending : List Int
  message : Thread
  /-- The updates that are left of the action being performed. -/
  action : List (Nat × Int)
  /-- For which moment the state of a group was last computed. -/
  lastUpdate : Table Nat Int

def updateGroupState (groupId : Nat) (time : Int) (s : State) : State :=
  { s with
    groupState := s.groupState.insert groupId (s.timer.contestStatus s.now groupId time)
    lastUpdate := s.lastUpdate.insert groupId time }

def endTimes (now : Int) (timer : TimerSupportModule) (groupId : Nat) : List Nat → List Int → List Int
  | [], _ => []
  | g :: groups, known =>
    let ending := timer.contestEndTime g
    if (groupId = 0 ∨ groupId = g) ∧ ending > now ∧ ending ∉ known then
      ending :: endTimes now timer groupId groups (ending :: known)
    else endTimes now timer groupId groups known

def startStopOps (now : Int) (timer : TimerSupportModule) (groups : List Nat) (r : Row) : List Op :=
  (if (r.2.2 : Int) > now then [.putTimedAction r.2.2] else groups.map fun g => .updateGroupState g now) ++
    (endTimes now timer r.1 groups []).map .putTimedAction

/-- The start of the server: every group is updated, and an action is put for every end and every event ahead. -/
def initialise (now : Int) (timer : TimerSupportModule) (groups : List Nat) : State where
  now := now
  timer := timer
  groups := groups
  groupState := groups.foldl (fun t g => t.insert g (timer.contestStatus now g now)) ∅
  pending := (groups.map timer.contestEndTime).filter (· > now) ++ (timer.evlist.map Event.time).filter (· > now)
  message := .working []
  action := []
  lastUpdate := groups.foldl (fun t g => t.insert g now) ∅

inductive Label
  | tick (seconds : Nat)
  | startStop (r : Row)
  | createGroup (groupId : Nat) (added : Bool)
  /-- The thread that processes messages goes on. -/
  | message
  /-- The other thread takes an action that is due. -/
  | take (time : Int)
  /-- The other thread goes on. -/
  | act

def stepMessage (s : State) : Option State :=
  match s.message with
  | .scheduling now r =>
    let timer := s.timer.addEvent (eventOf r)
    some { s with timer, message := .working (startStopOps now timer s.groups r) }
  | .creating g added =>
    some { s with groups := if added then s.groups ++ [g] else s.groups, message := .working [.updateNow g] }
  | .working [] => none
  | .working (.updateGroupState g time :: ops) => some { updateGroupState g time s with message := .working ops }
  | .working (.updateNow g :: ops) => some { s with message := .working (.updateGroupState g s.now :: ops) }
  | .working (.putTimedAction time :: ops) => some { s with pending := s.pending ++ [time], message := .working ops }

def step (s : State) : Label → Option State
  | .tick seconds => some { s with now := s.now + seconds }
  | .startStop r => if s.message = .working [] then some { s with message := .scheduling s.now r } else none
  | .createGroup g added =>
    if s.message = .working [] ∧ (added = true → g ∉ s.groups) then
      some { s with message := .creating g added } else none
  | .message => stepMessage s
  | .take time =>
    if s.action = [] ∧ time ∈ s.pending ∧ time ≤ s.now then
      some { s with pending := s.pending.erase time, action := s.groups.map fun g => (g, time) }
    else none
  | .act =>
    match s.action with
    | [] => none
    | (g, time) :: action => some { updateGroupState g time s with action }

/-- A server that starts, with a clock that has been set and an event list that was loaded. -/
def Started (s : State) : Prop :=
  ∃ now timer groups, 0 < now ∧ 0 < timer.duration ∧ Chronicle timer.evlist ∧ s = initialise now timer groups

def machine : Machine State Label := Machine.ofFun Started step

/-- When no message is being processed and no action is due, the state of every group is the status of its contest. -/
def Notified (s : State) : Prop :=
  s.message = .working [] → s.action = [] → (∀ time ∈ s.pending, s.now < time) →
    ∀ g ∈ s.groups, s.groupState[g]? = some (s.timer.contestStatus s.now g s.now)

/-- The state of the group has not been computed for a later moment. -/
def InOrder (s : State) (groupId : Nat) (time : Int) : Prop := ∀ last, s.lastUpdate[groupId]? = some last → last ≤ time

/-- An action for the end of a new group's contest has been put already if that end lies ahead. -/
def MessageInOrder (s : State) : Thread → Prop
  | .creating g true => s.timer.contestEndTime g ≤ s.now ∨ s.timer.contestEndTime g ∈ s.pending
  | .working (.updateGroupState g time :: _) => InOrder s g time
  | _ => True

def ActionInOrder (s : State) : List (Nat × Int) → Prop
  | (g, time) :: _ => InOrder s g time
  | [] => True

/-- No state is computed for an earlier moment than before, and new groups find their end on the queue. -/
def Orderly (s : State) : Label → Prop
  | .message => MessageInOrder s s.message
  | .act => ActionInOrder s s.action
  | _ => True

section

open Peer.Classes Peer.Process

def opsOf (groups : List Nat) : Output → List Op
  | .putTimedAction time => [.putTimedAction time]
  | .performStartStop time => groups.map fun g => .updateGroupState g time
  | .updateGroupState g _ => [.updateNow g]
  | _ => []

variable (env : Env) (db : Db)

theorem run_scheduleEnds (now : Int) (timer : TimerSupportModule) (groupId : Nat) (groups : List Nat)
    (known : List Int) : (MsgStartStop.scheduleEnds now timer groupId groups known).run db =
      (db, (endTimes now timer groupId groups known).map .putTimedAction, .ok ()) := by
  induction groups generalizing known with
  | nil => rfl
  | cons g groups ih =>
    rw [MsgStartStop.scheduleEnds, endTimes]
    split
    · rw [Prog.run_output_bind, ih]
      rfl
    · exact ih known

theorem run_tail (timer : TimerSupportModule) (groupId : Nat) :
    (do
      let groups ← readContest fun c => (groupList c).map Prod.fst
      MsgStartStop.scheduleEnds env.now timer groupId groups []
      return true : DbProg Bool).run db =
      (db, (endTimes env.now timer groupId ((groupList db.contest).map Prod.fst) []).map .putTimedAction,
        .ok true) := by
  show Prog.run (MsgStartStop.scheduleEnds env.now timer groupId ((groupList db.contest).map Prod.fst) [] >>=
    fun _ => pure true) db = _
  rw [Prog.run_bind, run_scheduleEnds]
  simp only [Prog.run, pure, List.append_nil]

theorem ops_startStop (r : Row) :
    let groups := (groupList db.contest).map Prod.fst
    let m : MsgStartStop := { groupId := r.1, time := r.2.2, action := actionOf r.2.1 }
    ((MsgStartStop.intProcess env m).run db).2.1.flatMap (opsOf groups) =
      startStopOps env.now (env.timer.addEvent (eventOf r)) groups r := by
  intro groups m
  have hputs : ∀ l : List Int, (l.map Output.putTimedAction).flatMap (opsOf groups) = l.map Op.putTimedAction := by
    intro l
    rw [List.flatMap_map]
    exact List.flatMap_pure_eq_map _ _
  unfold startStopOps MsgStartStop.intProcess
  by_cases hfuture : (r.2.2 : Int) > env.now
  · simp only [m, hfuture, if_true, setContest, Prog.run_set_bind, Prog.run_output_bind]
    rw [run_tail]
    simp only [List.flatMap_cons, hputs]
    rfl
  · simp only [m, hfuture, if_false, setContest, Prog.run_set_bind, Prog.run_output_bind]
    rw [run_tail]
    simp only [List.flatMap_cons, hputs]
    rfl

theorem ops_createGroup (m : MessageCreateGroup) (groups : List Nat) :
    ((MessageCreateGroup.intProcess env m).run db).2.1.flatMap (opsOf groups) = [.updateNow m.groupId] := by
  unfold MessageCreateGroup.intProcess writeContest
  cases hadd : onContest (fun c => addGroup c m.groupId m.groupname) db with
  | none | some db' => simp [Prog.run_bind, Prog.write, Prog.run, hadd, Prog.output, pure, opsOf]

end

end Abacus.Support.GroupState
