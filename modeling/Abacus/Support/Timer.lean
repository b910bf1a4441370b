import Abacus.Library.Bytes
import Mathlib.Algebra.Order.Ring.Int

/-! # The contest clock

The list of start and stop events, in order of time, and what it says about a group at
a moment. An event of group 0 concerns every group.
-/

namespace Abacus.Support.Timer

def timerStart : Nat := 1

def timerStop : Nat := 2

structure Event where
  time : Int
  groupId : Nat
  action : Nat
  deriving DecidableEq

structure TimerSupportModule where
  evlist : List Event
  duration : Int
  blinds : Int
  deriving DecidableEq, Inhabited

structure Clock where
  elapsed : Int
  lastStart : Int
  status : Nat

def Event.concerns (e : Event) (groupId : Nat) : Bool := e.groupId = 0 || e.groupId = groupId

def Clock.event (c : Clock) (e : Event) : Clock :=
  if e.action = c.status then c
  else if e.action = timerStart then { c with status := e.action, lastStart := e.time }
  else { c with status := e.action, elapsed := c.elapsed + (e.time - c.lastStart) }

namespace TimerSupportModule

variable (t : TimerSupportModule)

/-- The events of the group up to a moment; the walk stops at the first later event. -/
def eventsUntil (groupId : Nat) (realTime : Int) : List Event :=
  (t.evlist.takeWhile fun e => e.time ≤ realTime).filter fun e => e.concerns groupId

/-- A time of zero stands for the present moment. -/
def contestTime (now : Int) (groupId : Nat) (realTime : Int) : Int :=
  let realTime := if realTime = 0 then now else realTime
  let c := (t.eventsUntil groupId realTime).foldl Clock.event { elapsed := 0, lastStart := 0, status := timerStop }
  let elapsed := if c.status = timerStart then c.elapsed + (realTime - c.lastStart) else c.elapsed
  if elapsed > t.duration then t.duration else elapsed

def contestStatus (now : Int) (groupId : Nat) (realTime : Int) : Nat :=
  let realTime := if realTime = 0 then now else realTime
  let status := (t.eventsUntil groupId realTime).foldl (fun _ e => e.action) timerStop
  if t.contestTime now groupId realTime ≥ t.duration then timerStop else status

def contestEndTimeFrom (groupId : Nat) : List Event → Nat → Int → Int → Int
  | [], status, remaining, lastStart => if status = timerStart then lastStart + remaining else 0
  | e :: rest, status, remaining, lastStart =>
    if e.concerns groupId && e.action ≠ status then
      if e.action = timerStart then contestEndTimeFrom groupId rest e.action remaining e.time
      else if e.time - lastStart > remaining then lastStart + remaining
      else contestEndTimeFrom groupId rest e.action (remaining - (e.time - lastStart)) lastStart
    else contestEndTimeFrom groupId rest status remaining lastStart

def contestEndTime (groupId : Nat) : Int := contestEndTimeFrom groupId t.evlist timerStop t.duration 0

def allStartStopTimes : List Int := t.evlist.map Event.time

/-- The event goes before the first one that is not earlier. -/
def addEvent (e : Event) : TimerSupportModule :=
  { t with evlist := t.evlist.takeWhile (fun x => x.time < e.time) ++ e :: t.evlist.dropWhile fun x => x.time < e.time }

variable {realTime : Int}

theorem contestTime_now (h : realTime ≠ 0) (now now' : Int) (groupId : Nat) :
    t.contestTime now' groupId realTime = t.contestTime now groupId realTime := by
  unfold contestTime
  rw [if_neg h, if_neg h]

theorem eventsUntil_addEvent {e : Event} (h : realTime < e.time) (groupId : Nat) :
    (t.addEvent e).eventsUntil groupId realTime = t.eventsUntil groupId realTime := by
  unfold eventsUntil addEvent
  congr 1
  induction t.evlist with
  | nil => exact List.takeWhile_cons_of_neg (by simpa using h)
  | cons x rest ih =>
    by_cases hx : x.time < e.time
    · rw [List.takeWhile_cons_of_pos (by simpa using hx), List.dropWhile_cons_of_pos (by simpa using hx),
        List.cons_append, List.takeWhile_cons, List.takeWhile_cons]
      split
      · exact congrArg _ ih
      · rfl
    · rw [List.takeWhile_cons_of_neg (by simpa using hx), List.dropWhile_cons_of_neg (by simpa using hx),
        List.nil_append, List.takeWhile_cons_of_neg (by simpa using h),
        List.takeWhile_cons_of_neg (by simp; omega)]

theorem contestTime_addEvent {e : Event} (hne : realTime ≠ 0) (h : realTime < e.time) (now : Int)
    (groupId : Nat) : (t.addEvent e).contestTime now groupId realTime = t.contestTime now groupId realTime := by
  unfold contestTime
  rw [if_neg hne]
  dsimp only
  rw [eventsUntil_addEvent t h]
  rfl

end TimerSupportModule

end Abacus.Support.Timer
