import Mathlib.Logic.Function.Basic
import Abacus.Library.Machine

/-! # The selector loop and its workers

`WaitableSet::run` collects what every Waitable waits for, polls, and hands each Waitable with activity to a
worker, which deletes it when there are no new events. Each step is done under one lock.
-/

namespace Abacus.Server.Waitable

structure PollFd where
  fd : Int
  events : Nat
  deriving DecidableEq, Repr

/-- The address of a Waitable; no address is used twice. -/
abbrev Ref := Nat

inductive Worker where
  | idle
  | assigned (w : Ref)
  | processing (w : Ref)
  | returned (w : Ref) (newEvents : List PollFd)
  -- after setEvents, before the isFinished of process_finish
  | published (w : Ref)
  | finished (w : Ref)
  | removed (w : Ref)
  -- done with its Waitable, not yet among the idle workers
  | leaving
  deriving DecidableEq, Repr

def Worker.on : Worker → Option Ref
  | .idle | .leaving => none
  | .assigned w | .processing w | .returned w _ | .published w | .finished w | .removed w => some w

def Worker.processes : Worker → Option Ref
  | .processing w | .returned w _ => some w
  | _ => none

inductive Selector where
  | ready
  | collecting (rest : List Ref) (active : List Ref)
  | polling (active : List Ref)
  | dispatching (rest : List Ref)
  -- preprocessed `w`, waiting for an idle worker
  | handing (w : Ref) (rest : List Ref)
  deriving DecidableEq, Repr

def Selector.holdsLock : Selector → Bool
  | .collecting .. => true
  | _ => false

structure State (n : Nat) where
  events : Ref → List PollFd
  waitables : List Ref
  selector : Selector
  workers : Fin n → Worker
  next : Ref
  /-- How often each Waitable has been deleted. -/
  deletions : Ref → Nat
  /-- Whether some `int_process` of the Waitable has returned no events. -/
  closed : Ref → Bool

def start (n : Nat) : State n where
  events _ := []
  waitables := []
  selector := .ready
  workers _ := .idle
  next := 0
  deletions _ := 0
  closed _ := false

inductive Label (n : Nat) where
  | collectStart
  | collectNext
  | collectEnd
  | pollFail
  | poll (revents : List Bool)
  | preprocess
  | handOver (k : Fin n)
  | roundEnd
  | dequeue (k : Fin n)
  | intProcess (k : Fin n) (newEvents : List PollFd)
  | setEvents (k : Fin n)
  | isFinished (k : Fin n)
  | remove (k : Fin n)
  | delete (k : Fin n)
  | workerIdle (k : Fin n)
  | add (events : List PollFd)
  deriving DecidableEq, Repr

/-- The Waitables the loop over `active` processes; the Boolean is `revents != 0`. -/
def signalled : Option Ref → List (Ref × Bool) → List Ref
  | _, [] => []
  | last, (w, activity) :: rest =>
    if some w ≠ last ∧ activity = true then w :: signalled (some w) rest else signalled last rest

variable {n : Nat}

def setWorker (s : State n) (k : Fin n) (c : Worker) : State n :=
  { s with workers := Function.update s.workers k c }

def stepSelector (s : State n) : Label n → Option (State n)
  | .collectStart =>
    match s.selector with
    | .ready => some { s with selector := .collecting s.waitables [] }
    | _ => none
  | .collectNext =>
    match s.selector with
    | .collecting (w :: rest) active =>
      some { s with selector := .collecting rest (active ++ List.replicate (s.events w).length w) }
    | _ => none
  | .collectEnd =>
    match s.selector with
    | .collecting [] active => some { s with selector := .polling active }
    | _ => none
  | .pollFail =>
    match s.selector with
    | .polling _ => some { s with selector := .ready }
    | _ => none
  | .poll revents =>
    match s.selector with
    | .polling active =>
      if revents.length = active.length then
        some { s with selector := .dispatching (signalled none (active.zip revents)) }
      else none
    | _ => none
  | .preprocess =>
    match s.selector with
    | .dispatching (w :: rest) =>
      some { s with events := Function.update s.events w [], selector := .handing w rest }
    | _ => none
  | .handOver k =>
    match s.selector, s.workers k with
    | .handing w rest, .idle => some { setWorker s k (.assigned w) with selector := .dispatching rest }
    | _, _ => none
  | .roundEnd =>
    match s.selector with
    | .dispatching [] => some { s with selector := .ready }
    | _ => none
  | _ => none

def stepWorker (s : State n) : Label n → Option (State n)
  | .dequeue k =>
    match s.workers k with
    | .assigned w => some (setWorker s k (.processing w))
    | _ => none
  | .intProcess k newEvents =>
    match s.workers k with
    | .processing w =>
      some { setWorker s k (.returned w newEvents) with
        closed := Function.update s.closed w (s.closed w || newEvents.isEmpty) }
    | _ => none
  | .setEvents k =>
    match s.workers k with
    | .returned w newEvents =>
      some { setWorker s k (.published w) with events := Function.update s.events w newEvents }
    | _ => none
  | .isFinished k =>
    match s.workers k with
    | .published w => some (setWorker s k (if s.events w = [] then .finished w else .leaving))
    | _ => none
  | .remove k =>
    match s.workers k with
    | .finished w =>
      if s.selector.holdsLock then none
      else some { setWorker s k (.removed w) with waitables := s.waitables.filter (· ≠ w) }
    | _ => none
  | .delete k =>
    match s.workers k with
    | .removed w =>
      some { setWorker s k .leaving with deletions := Function.update s.deletions w (s.deletions w + 1) }
    | _ => none
  | .workerIdle k =>
    match s.workers k with
    | .leaving => some (setWorker s k .idle)
    | _ => none
  | .add events =>
    -- the new object is initialised before it is added, and `add` asserts that it has events
    if s.selector.holdsLock ∨ events = [] then none
    else some { s with
      events := Function.update s.events s.next events
      waitables := s.waitables ++ [s.next]
      next := s.next + 1 }
  | _ => none

def step (s : State n) (l : Label n) : Option (State n) := (stepSelector s l).or (stepWorker s l)

def machine (n : Nat) : Library.Machine (State n) (Label n) := .ofFun (· = start n) step

end Abacus.Server.Waitable
