import Abacus.Library.Machine
import Abacus.Library.Bytes

/-! # The output of a connection

A thread puts a message on the write queue and then a byte into the notify pipe. The thread that runs
`int_process` drains the pipe, and then writes the queue out in pieces of whatever size the socket takes.
-/

namespace Abacus.Server.Output

open Library Library.Bytes

inductive SslError where
  | none
  | wantRead
  | wantWrite
  | zeroReturn
  | other
  deriving DecidableEq

/-- `POLLIN` or `POLLOUT`; anything else that stops reading or writing is an error. -/
def SslError.pollEvent : SslError → Option Nat
  | .wantRead => some 1
  | .wantWrite => some 4
  | _ => Option.none

structure Status where
  processed : Nat
  err : SslError

inductive Fd where
  | socket
  | writeNotify
  deriving DecidableEq

structure PollFd where
  fd : Fd
  events : Nat
  deriving DecidableEq

def awaited (readStatus writeStatus : Nat) : List PollFd :=
  (if readStatus ||| writeStatus ≠ 0 then [⟨.socket, readStatus ||| writeStatus⟩] else []) ++
    if writeStatus = 0 then [⟨.writeNotify, 1⟩] else []

inductive Phase where
  | returned (fds : List PollFd)
  | initiating
  | reading
  -- a request that was read has put its reply on the queue
  | replying
  | draining (readStatus : Nat)
  | testing (readStatus : Nat)
  | dequeuing (readStatus : Nat)
  | writing (readStatus : Nat)
  deriving DecidableEq

structure State where
  phase : Phase
  connected : Bool
  writeMsg : Str
  writeProgress : Nat
  writeQueue : List Str
  /-- The number of bytes in the pipe. -/
  writeNotify : Nat
  /-- The other threads that are between the queue and the pipe. -/
  sending : Nat → Bool
  /-- All messages that were ever put on the queue. -/
  enqueued : List Str
  /-- All bytes that the socket has taken. -/
  written : Str

def start : State where
  phase := .returned [⟨.socket, 1 ||| 4⟩]
  connected := false
  writeMsg := []
  writeProgress := 0
  writeQueue := []
  writeNotify := 0
  sending _ := false
  enqueued := []
  written := []

inductive Label where
  | intProcess
  | initiateSsl (err : SslError)
  | reply (raw : Str)
  | replyNotify
  | readEnd (err : SslError)
  | drain
  | test
  | dequeue
  | write (status : Status)
  | enqueue (thread : Nat) (raw : Str)
  | notify (thread : Nat)

def State.enqueue (s : State) (raw : Str) : State :=
  { s with writeQueue := s.writeQueue ++ [raw], enqueued := s.enqueued ++ [raw] }

section

variable (capacity : Nat)

/-- Neither end of the pipe blocks: a byte that does not fit is not written. -/
def State.notify (s : State) : State :=
  { s with writeNotify := if s.writeNotify < capacity then s.writeNotify + 1 else s.writeNotify }

/-- One call of `ThreadSSL::write` and what `write_data` makes of its status. -/
def State.write (s : State) (readStatus : Nat) (status : Status) : State :=
  if status.processed = 0 then
    match status.err.pollEvent with
    | some event => { s with phase := .returned (awaited readStatus event) }
    | none => { s with phase := .returned [] }
  else
    let written := s.written ++ (s.writeMsg.drop s.writeProgress).take status.processed
    let writeProgress := s.writeProgress + status.processed
    if writeProgress = s.writeMsg.length then
      { s with phase := .testing readStatus, writeMsg := [], writeProgress := 0, written }
    else { s with phase := .testing readStatus, writeProgress, written }

def stepThread (s : State) : Phase → Label → Option State
  | .returned fds, .intProcess =>
    -- without events the connection is deleted
    if fds = [] then none else some { s with phase := if s.connected then .reading else .initiating }
  | .initiating, .initiateSsl err =>
    if err = .none then some { s with phase := .reading, connected := true }
    else match err.pollEvent with
      | some event => some { s with phase := .returned [⟨.socket, event⟩] }
      | none => some { s with phase := .returned [] }
  | .reading, .reply raw => some (if raw = [] then s else { s.enqueue raw with phase := .replying })
  | .replying, .replyNotify => some { s.notify capacity with phase := .reading }
  | .reading, .readEnd err =>
    match err.pollEvent with
    | some event => some { s with phase := .draining event }
    | none => some { s with phase := .returned [] }
  | .draining readStatus, .drain =>
    if s.writeNotify = 0 then some { s with phase := .testing readStatus }
    else some { s with writeNotify := s.writeNotify - 64 }
  | .testing readStatus, .test =>
    if s.writeMsg ≠ [] then some { s with phase := .writing readStatus }
    else if s.writeQueue = [] then some { s with phase := .returned (awaited readStatus 0) }
    else some { s with phase := .dequeuing readStatus }
  | .dequeuing readStatus, .dequeue =>
    match s.writeQueue with
    | [] => none
    | raw :: writeQueue => some { s with phase := .writing readStatus, writeMsg := raw, writeQueue }
  | .writing readStatus, .write status =>
    -- the assertion of `write_data`; and the socket takes no more than it is given
    if s.writeProgress < s.writeMsg.length ∧ status.processed ≤ s.writeMsg.length - s.writeProgress then
      some (s.write readStatus status)
    else none
  | _, _ => none

def stepSender (s : State) : Label → Option State
  | .enqueue thread raw =>
    if s.sending thread = true then none
    else some (if raw = [] then s else { s.enqueue raw with sending := Function.update s.sending thread true })
  | .notify thread =>
    if s.sending thread = true then
      some { s.notify capacity with sending := Function.update s.sending thread false }
    else none
  | _ => none

def step (s : State) (l : Label) : Option State := (stepThread capacity s s.phase l).or (stepSender capacity s l)

def machine : Machine State Label := .ofFun (· = start) (step capacity)

end

/-- The thread has returned and is to be called again when the pipe is readable. -/
def Waits (s : State) : Prop := ∃ fds, s.phase = .returned fds ∧ .writeNotify ∈ fds.map PollFd.fd

section

/-- What was enqueued has been written, or is left of the current message, or is on the queue. -/
structure Flow (s : State) : Prop where
  bytes : s.written ++ (s.writeMsg.drop s.writeProgress ++ s.writeQueue.flatten) = s.enqueued.flatten
  progress : s.writeMsg = [] ∧ s.writeProgress = 0 ∨ s.writeProgress < s.writeMsg.length
  filled : ∀ raw ∈ s.writeQueue, raw ≠ []

/-- The next call will find what is on the queue. -/
def Woken (s : State) : Prop := s.writeQueue ≠ [] → 0 < s.writeNotify ∨ ∃ thread, s.sending thread = true

def Stage (s : State) : Phase → Prop
  | .returned fds => .writeNotify ∈ fds.map PollFd.fd → s.writeMsg = [] ∧ Woken s
  | .dequeuing _ => s.writeMsg = [] ∧ s.writeQueue ≠ []
  | .writing _ => s.writeMsg ≠ []
  | _ => True

structure Sound (s : State) : Prop where
  flow : Flow s
  stage : Stage s s.phase

variable {capacity : Nat} {s s' : State} {l : Label}

theorem SslError.pollEvent_ne_zero {err : SslError} {event : Nat} (h : err.pollEvent = some event) : event ≠ 0 := by
  cases err <;> cases h <;> decide

theorem mem_awaited (readStatus writeStatus : Nat) :
    .writeNotify ∈ (awaited readStatus writeStatus).map PollFd.fd ↔ writeStatus = 0 := by
  unfold awaited
  split <;> split <;> simp [*]

theorem Flow.kept (h : Flow s) (phase : Phase) (connected : Bool) (writeNotify : Nat) (sending : Nat → Bool) :
    Flow { s with phase, connected, writeNotify, sending } := ⟨h.bytes, h.progress, h.filled⟩

theorem Flow.enqueue (h : Flow s) {raw : Str} (hraw : raw ≠ []) : Flow (s.enqueue raw) where
  bytes := by simp [State.enqueue, ← h.bytes]
  progress := h.progress
  filled := List.forall_mem_append.mpr ⟨h.filled, List.forall_mem_singleton.mpr hraw⟩

theorem Flow.dequeue (h : Flow s) {raw : Str} {writeQueue : List Str} (hempty : s.writeMsg = [])
    (hqueue : s.writeQueue = raw :: writeQueue) : Flow { s with writeMsg := raw, writeQueue } := by
  have hzero : s.writeProgress = 0 := h.progress.elim And.right fun hlt => by simp [hempty] at hlt
  have hbytes := h.bytes
  have hfilled := h.filled
  rw [hqueue] at hfilled hbytes
  obtain ⟨hraw, hrest⟩ := List.forall_mem_cons.mp hfilled
  refine ⟨?_, .inr ?_, hrest⟩
  · rw [hempty] at hbytes
    simpa [hzero] using hbytes
  · rw [hzero]
    exact List.length_pos_iff.mpr hraw

theorem Sound.write (h : Sound s) (readStatus : Nat) {status : Status} (hlt : s.writeProgress < s.writeMsg.length)
    (hle : status.processed ≤ s.writeMsg.length - s.writeProgress) : Sound (s.write readStatus status) := by
  unfold State.write
  split
  · split
    · next event hevent =>
      refine ⟨h.flow.kept _ _ _ _, fun hmem => ?_⟩
      exact absurd ((mem_awaited _ _).mp hmem) (SslError.pollEvent_ne_zero hevent)
    · exact ⟨h.flow.kept _ _ _ _, fun hmem => absurd hmem List.not_mem_nil⟩
  · have hbytes : s.written ++ (s.writeMsg.drop s.writeProgress).take status.processed ++
        (s.writeMsg.drop (s.writeProgress + status.processed) ++ s.writeQueue.flatten) = s.enqueued.flatten := by
      rw [List.append_assoc, ← List.append_assoc (List.take _ _), ← List.drop_drop, List.take_append_drop]
      exact h.flow.bytes
    dsimp only
    split
    · next hend =>
      rw [hend, List.drop_length] at hbytes
      exact ⟨⟨hbytes, .inl ⟨rfl, rfl⟩, h.flow.filled⟩, trivial⟩
    · refine ⟨⟨hbytes, .inr ?_, h.flow.filled⟩, trivial⟩
      dsimp only
      omega

theorem Sound.stepThread (h : Sound s) (hstep : stepThread capacity s s.phase l = some s') : Sound s' := by
  obtain ⟨hflow, hstage⟩ := h
  generalize hphase : s.phase = phase at hstep hstage
  -- one case for each clause of the step, in its order
  unfold Output.stepThread at hstep
  split at hstep
  · split at hstep
    · cases hstep
    · cases hstep
      refine ⟨hflow.kept _ _ _ _, ?_⟩
      dsimp only
      split <;> trivial
  · split at hstep
    · cases hstep
      exact ⟨hflow.kept _ _ _ _, trivial⟩
    · split at hstep <;> cases hstep
      · exact ⟨hflow.kept _ _ _ _, by simp [Stage]⟩
      · exact ⟨hflow.kept _ _ _ _, by simp [Stage]⟩
  · next raw =>
    cases hstep
    split
    · exact ⟨hflow, hphase ▸ trivial⟩
    · next hraw =>
      have hnext := hflow.enqueue hraw
      exact ⟨hnext.kept _ _ _ _, trivial⟩
  · cases hstep
    exact ⟨hflow.kept _ _ _ _, trivial⟩
  · split at hstep <;> cases hstep
    · exact ⟨hflow.kept _ _ _ _, trivial⟩
    · exact ⟨hflow.kept _ _ _ _, by simp [Stage]⟩
  · split at hstep <;> cases hstep
    · exact ⟨hflow.kept _ _ _ _, trivial⟩
    · exact ⟨hflow.kept _ _ _ _, hphase ▸ trivial⟩
  · split at hstep
    · next hmsg =>
      cases hstep
      exact ⟨hflow.kept _ _ _ _, hmsg⟩
    · next hmsg =>
      split at hstep <;> cases hstep
      · next hqueue =>
        exact ⟨hflow.kept _ _ _ _, fun _ => ⟨not_not.mp hmsg, fun hne => absurd hqueue hne⟩⟩
      · next hqueue => exact ⟨hflow.kept _ _ _ _, not_not.mp hmsg, hqueue⟩
  · split at hstep
    · cases hstep
    · next raw writeQueue hqueue =>
      cases hstep
      have hnext := hflow.dequeue hstage.1 hqueue
      have hraw : raw ≠ [] := hflow.filled raw (hqueue ▸ .head _)
      exact ⟨hnext.kept _ _ _ _, hraw⟩
  · split at hstep
    · next hfits =>
      cases hstep
      exact Sound.write ⟨hflow, hphase ▸ hstage⟩ _ hfits.1 hfits.2
    · cases hstep
  · cases hstep

theorem notify_pos (hcapacity : 0 < capacity) (s : State) : 0 < (s.notify capacity).writeNotify := by
  dsimp only [State.notify]
  split <;> omega

theorem Stage.enqueue {phase : Phase} (h : Stage s phase) (raw : Str) (thread : Nat) :
    Stage { s.enqueue raw with sending := Function.update s.sending thread true } phase := by
  cases phase with
  | returned fds => exact fun hmem => ⟨(h hmem).1, fun _ => .inr ⟨thread, Function.update_self ..⟩⟩
  | dequeuing readStatus => exact ⟨h.1, by simp [State.enqueue]⟩
  | writing readStatus => exact h
  | initiating | reading | replying | draining readStatus | testing readStatus => trivial

theorem Stage.notify (hcapacity : 0 < capacity) {phase : Phase} (h : Stage s phase) (sending : Nat → Bool) :
    Stage { s.notify capacity with sending } phase := by
  cases phase with
  | returned fds => exact fun hmem => ⟨(h hmem).1, fun _ => .inl (notify_pos hcapacity s)⟩
  | dequeuing readStatus | writing readStatus => exact h
  | initiating | reading | replying | draining readStatus | testing readStatus => trivial

theorem Sound.stepSender (hcapacity : 0 < capacity) (h : Sound s) (hstep : stepSender capacity s l = some s') :
    Sound s' := by
  obtain ⟨hflow, hstage⟩ := h
  unfold Output.stepSender at hstep
  split at hstep
  · next thread raw =>
    split at hstep
    · cases hstep
    · cases hstep
      split
      · exact ⟨hflow, hstage⟩
      · next hraw => exact ⟨(hflow.enqueue hraw).kept _ _ _ _, hstage.enqueue raw thread⟩
  · next thread =>
    split at hstep
    · cases hstep
      exact ⟨hflow.kept _ _ _ _, hstage.notify hcapacity _⟩
    · cases hstep
  · cases hstep

theorem sound_of_reachable (hcapacity : 0 < capacity) (h : (machine capacity).Reachable s) : Sound s := by
  apply h.invariant
  · rintro s rfl
    exact ⟨⟨rfl, .inl ⟨rfl, rfl⟩, List.forall_mem_nil _⟩, by simp [start, Stage]⟩
  · intro s l s' hsound _ hstep
    obtain hthread | ⟨-, hsender⟩ := Option.or_eq_some_iff.mp hstep
    · exact hsound.stepThread hthread
    · exact hsound.stepSender hcapacity hsender

/-- The assertion of `write_data` holds, and its thread is never stuck on an empty queue. -/
theorem ready_of_reachable (hcapacity : 0 < capacity) (h : (machine capacity).Reachable s) :
    (∀ readStatus, s.phase = .writing readStatus → s.writeProgress < s.writeMsg.length) ∧
      ∀ readStatus, s.phase = .dequeuing readStatus → s.writeQueue ≠ [] := by
  obtain ⟨hflow, hstage⟩ := sound_of_reachable hcapacity h
  constructor
  · intro readStatus hphase
    rw [hphase] at hstage
    exact hflow.progress.resolve_left fun hempty => hstage hempty.1
  · intro readStatus hphase
    rw [hphase] at hstage
    exact hstage.2

/-- When the thread waits for the pipe and nothing is on the queue, everything has been written. -/
theorem written_of_waits (hcapacity : 0 < capacity) (h : (machine capacity).Reachable s) (hwaits : Waits s)
    (hqueue : s.writeQueue = []) : s.written = s.enqueued.flatten := by
  obtain ⟨hflow, hstage⟩ := sound_of_reachable hcapacity h
  obtain ⟨fds, hphase, hmem⟩ := hwaits
  rw [hphase] at hstage
  rw [← hflow.bytes, (hstage hmem).1, hqueue]
  simp

end

theorem woken_and_ordered (capacity : Nat) (hcapacity : 0 < capacity) (s : State) (h : (machine capacity).Reachable s) :
    (Waits s → s.writeQueue ≠ [] → 0 < s.writeNotify ∨ ∃ thread, s.sending thread = true) ∧
      s.written <+: s.enqueued.flatten := by
  obtain ⟨hflow, hstage⟩ := sound_of_reachable hcapacity h
  constructor
  · rintro ⟨fds, hphase, hmem⟩
    rw [hphase] at hstage
    exact (hstage hmem).2
  · rw [← hflow.bytes]
    exact List.prefix_append ..

/-- The thread has drained the pipe and finds the queue empty, while two messages come in between. -/
def interleaved : List Label :=
  [.intProcess, .initiateSsl .none, .reply [1, 2, 3], .replyNotify, .readEnd .wantRead, .drain, .drain, .test, .dequeue,
    .write ⟨2, .none⟩, .enqueue 7 [4], .test, .write ⟨1, .none⟩, .notify 7, .test, .dequeue, .write ⟨1, .none⟩, .test,
    .enqueue 7 [5, 6]]

theorem ready_interleaved :
    ∃ s, (machine 65536).Reachable s ∧ s.phase = .writing 1 ∧ s.writeProgress < s.writeMsg.length := by
  obtain ⟨s, hplay, hphase⟩ : ∃ s, play (step 65536) (fun _ _ => True) start (interleaved.take 9) = some s ∧
      s.phase = .writing 1 := by decide +kernel
  have hreach : (machine 65536).Reachable s := Machine.Reach.play (.init rfl) hplay
  exact ⟨s, hreach, hphase, (ready_of_reachable (by decide) hreach).1 _ hphase⟩

/-- It waits with a message on the queue; the pipe has the byte of the message before. -/
theorem woken_interleaved : ∃ s, (machine 65536).Reachable s ∧ Waits s ∧ s.writeQueue = [[5, 6]] ∧
    (0 < s.writeNotify ∨ ∃ thread, s.sending thread = true) ∧ s.written = [1, 2, 3, 4] ∧
    s.written <+: s.enqueued.flatten := by
  have hplay : ∃ s, play (step 65536) (fun _ _ => True) start interleaved = some s ∧
      s.phase = .returned [⟨.socket, 1⟩, ⟨.writeNotify, 1⟩] ∧ s.writeQueue = [[5, 6]] ∧ s.written = [1, 2, 3, 4] := by
    decide +kernel
  obtain ⟨s, hplay, hphase, hqueue, hwritten⟩ := hplay
  have hreach : (machine 65536).Reachable s := Machine.Reach.play (.init rfl) hplay
  have hwaits : Waits s := ⟨_, hphase, by decide⟩
  obtain ⟨hwoken, hordered⟩ := woken_and_ordered 65536 (by decide) s hreach
  exact ⟨s, hreach, hwaits, hqueue, hwoken hwaits (by simp [hqueue]), hwritten, hordered⟩

end Abacus.Server.Output
