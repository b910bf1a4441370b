import Abacus.Standings.Rows

/-! # Messages that touch the standings

A mark, a bonus and a start or stop time are followed by an update of the standings; no other message is.
-/

namespace Abacus.Standings.Messages

open Library Library.Bytes Database.Schema Database.Marks Database.People Database.Peer
open Support.Timer Peer.Classes Peer.Process Client.Block Update Rows

structure Host where
  self : Nat
  order : OrderBy (MarkRow × Nat)

structure Memory where
  timer : TimerSupportModule
  cache : Cache
  /-- The updates that were broadcast, the latest at the end. -/
  sent : List Notice

structure Server where
  db : Db
  memory : Memory
  /-- When the last message was processed. -/
  now : Int

structure Arrival where
  now : Int
  key : MessageKey
  message : Message

variable (host : Host)

def envAt (now : Int) (timer : TimerSupportModule) : Env := ⟨host.self, now, timer, host.order⟩

def act (now : Int) (db : Db) (o : Output) (memory : Memory) : Option Memory :=
  match o with
  | .updateStandings uid =>
    (updateStandings (envAt host now memory.timer) db.contest uid memory.cache).map fun r =>
      { memory with cache := r.1, sent := memory.sent ++ r.2 }
  | .addEvent e => some { memory with timer := memory.timer.addEvent e }
  | _ => some memory

/-- No server if an exception ends it. -/
def processAt (s : Server) (a : Arrival) : Option Server :=
  match (process (envAt host a.now s.memory.timer) a.key a.message).perform (act host a.now) s.db s.memory with
  | some (db, memory, .ok _) => some ⟨db, memory, a.now⟩
  | _ => none

def contestAfter (m : Message) (c : Contest) : Contest :=
  match m with
  | .mark m => MarkMessage.marked m c
  | .bonus m => setBonus c m.userId m.points m.seconds
  | .startStop m => putStartStop c m.groupId (if m.action = timerStart then .start else .stop) m.time
  | _ => c

def timerAfter (m : Message) (t : TimerSupportModule) : TimerSupportModule :=
  match m with
  | .startStop m => t.addEvent { time := m.time, groupId := m.groupId, action := m.action }
  | _ => t

def updateAfter (now : Int) (m : Message) (c : Contest) : Option Nat :=
  match m with
  | .mark m => if m.result = 5 then none else some (submission2userId c m.submissionId)
  | .bonus m => some m.userId
  | .startStop m => if (m.time : Int) > now then none else some 0
  | _ => none

def Message.scores : Message → Bool
  | .mark _ | .bonus _ | .startStop _ => true
  | _ => false

section

variable {host} {env : Env} {now : Int} {db : Db} {memory : Memory}

def updated (env : Env) (c : Contest) (uid : Option Nat) (memory : Memory) : Option Memory :=
  match uid with
  | none => some memory
  | some uid => (updateStandings env c uid memory.cache).map fun r =>
      { memory with cache := r.1, sent := memory.sent ++ r.2 }

theorem perform_putFiles (submissionId marker : Nat) (files : List MarkFile) :
    (MarkMessage.putFiles submissionId marker files).perform (act host now) db memory =
      some ({ db with contest := MarkMessage.filesAfter submissionId marker files db.contest }, memory, .ok ()) := by
  obtain ⟨hfinal, hresult⟩ := MarkMessage.yields_putFiles submissionId marker files db
  rw [← hfinal]
  clear hfinal hresult
  induction files generalizing db with
  | nil => rfl
  | cons file files ih =>
    rw [MarkMessage.putFiles, writeContest, Prog.perform_bind, Prog.final_write_bind]
    cases hwrite : onContest (fun c => putMarkFile c submissionId marker file.name file.data) db with
    | none | some db' => simpa only [Prog.write, Prog.perform, hwrite, Option.bind_some] using ih

/-- The clients hear of a mark first; a number that cannot be read ends the server there. -/
def announced (env : Env) (m : Message) (c : Contest) : Bool :=
  match m with
  | .mark m =>
    (submissionToMB env c (getSubmission c m.submissionId) (MessageBlock.ofAction (str "updatesubmissions")) []).isSome
  | _ => true

theorem perform_announce (m : MarkMessage) : (MarkMessage.announce env m).perform (act host now) db memory =
    if announced env (.mark m) db.contest then
      (updated (envAt host now memory.timer) db.contest (updateAfter now (.mark m) db.contest) memory).map
        fun memory' => (db, memory', .ok true)
    else some (db, memory, .error .badString) := by
  simp only [MarkMessage.announce, readContest, Prog.perform_read_bind]
  cases hmb : submissionToMB env db.contest (getSubmission db.contest m.submissionId)
      (MessageBlock.ofAction (str "updatesubmissions")) [] with
  | none =>
    have hsilent : announced env (.mark m) db.contest = false := congrArg Option.isSome hmb
    rw [hsilent]
    rfl
  | some mb =>
    have hheard : announced env (.mark m) db.contest = true := congrArg Option.isSome hmb
    rw [hheard, if_pos rfl, Option.map_eq_bind, updateAfter]
    by_cases hjudge : m.result = 5
    · simp only [hjudge, ne_eq, not_true_eq_false, if_false, if_true]
      rfl
    · simp only [hjudge, ne_eq, not_false_eq_true, if_true, if_false]
      rfl

theorem perform_mark (m : MarkMessage) : (MarkMessage.intProcess env m).perform (act host now) db memory =
    let c := MarkMessage.marked m db.contest
    if announced env (.mark m) c then
      (updated (envAt host now memory.timer) c (updateAfter now (.mark m) c) memory).map
        fun memory' => ({ db with contest := c }, memory', .ok true)
    else some ({ db with contest := c }, memory, .error .badString) := by
  rw [MarkMessage.intProcess, setContest, Prog.perform_set_bind, Prog.perform_bind, perform_putFiles]
  exact perform_announce m

theorem perform_bonus (m : BonusMessage) : (BonusMessage.intProcess m).perform (act host now) db memory =
    let c := setBonus db.contest m.userId m.points m.seconds
    (updated (envAt host now memory.timer) c (some m.userId) memory).map
      fun memory' => ({ db with contest := c }, memory', .ok true) := by
  dsimp only
  rw [Option.map_eq_bind]
  rfl

theorem perform_scheduleEnds (timer : TimerSupportModule) (groupId : Nat) (groups : List Nat) (done : List Int) :
    (MsgStartStop.scheduleEnds now timer groupId groups done).perform (act host now) db memory =
      some (db, memory, .ok ()) := by
  induction groups generalizing done with
  | nil => rfl
  | cons g groups ih =>
    rw [MsgStartStop.scheduleEnds]
    split
    · exact ih _
    · exact ih done

theorem perform_tail (timer : TimerSupportModule) (groupId : Nat) :
    (do
      let groups ← readContest fun c => (groupList c).map Prod.fst
      MsgStartStop.scheduleEnds now timer groupId groups []
      return true : DbProg Bool).perform (act host now) db memory = some (db, memory, .ok true) := by
  rw [readContest, Prog.perform_read_bind, Prog.perform_bind, perform_scheduleEnds]
  rfl

theorem perform_startStop (m : MsgStartStop) (henv : env.now = now) :
    (MsgStartStop.intProcess env m).perform (act host now) db memory =
      let c := contestAfter (.startStop m) db.contest
      let memory := { memory with timer := timerAfter (.startStop m) memory.timer }
      (updated (envAt host now memory.timer) c (updateAfter now (.startStop m) c) memory).map
        fun memory' => ({ db with contest := c }, memory', .ok true) := by
  subst henv
  simp only [MsgStartStop.intProcess, setContest, Prog.perform_set_bind, Prog.perform_output_bind, act,
    Option.bind_some]
  unfold updateAfter
  dsimp only
  split
  · simp only [Prog.perform_output_bind, act, Option.bind_some]
    exact perform_tail ..
  · simp only [Prog.perform_output_bind, act, Option.bind_some]
    simp only [perform_tail]
    exact Option.map_eq_bind.symm

theorem perform_intProcess {m : Message} (hscores : Message.scores m = true) (henv : env.now = now) :
    (intProcess env m).perform (act host now) db memory =
      let c := contestAfter m db.contest
      let memory := { memory with timer := timerAfter m memory.timer }
      if announced env m c then
        (updated (envAt host now memory.timer) c (updateAfter now m c) memory).map
          fun memory' => ({ db with contest := c }, memory', .ok true)
      else some ({ db with contest := c }, memory, .error .badString) := by
  cases m with
  | mark m => exact perform_mark m
  | bonus m => exact perform_bonus m
  | startStop m => exact perform_startStop m henv
  | createServer | createUser | createGroup | passwd | prob | submission | clarification => cases hscores

/-- Processing a mark, a bonus or a start or stop time, as far as the standings are concerned. -/
theorem processAt_eq {s : Server} {a : Arrival} (hscores : Message.scores a.message = true) :
    processAt host s a =
      let c := contestAfter a.message s.db.contest
      let memory := { s.memory with timer := timerAfter a.message s.memory.timer }
      if announced (envAt host a.now s.memory.timer) a.message c then
        (updated (envAt host a.now memory.timer) c (updateAfter a.now a.message c) memory).map
          fun memory' => ⟨⟨markProcessed s.db.peer a.key, c⟩, memory', a.now⟩
      else none := by
  have henv : (envAt host a.now s.memory.timer).now = a.now := rfl
  rw [processAt, process, Prog.perform_bind, perform_intProcess hscores henv]
  dsimp only
  cases announced (envAt host a.now s.memory.timer) a.message (contestAfter a.message s.db.contest) with
  | false => rfl
  | true =>
    rw [if_pos rfl, if_pos rfl]
    cases updated (envAt host a.now (timerAfter a.message s.memory.timer)) (contestAfter a.message s.db.contest)
        (updateAfter a.now a.message (contestAfter a.message s.db.contest))
        { s.memory with timer := timerAfter a.message s.memory.timer } with
    | none => rfl
    | some memory' => rfl

theorem processAt_cases {s s' : Server} {a : Arrival} (hscores : Message.scores a.message = true)
    (h : processAt host s a = some s') :
    s'.db.contest = contestAfter a.message s.db.contest ∧ s'.now = a.now ∧
      updated (envAt host a.now (timerAfter a.message s.memory.timer)) s'.db.contest
        (updateAfter a.now a.message s'.db.contest)
        { s.memory with timer := timerAfter a.message s.memory.timer } = some s'.memory := by
  rw [processAt_eq hscores] at h
  dsimp only at h
  split at h
  · obtain ⟨memory', hupdated, rfl⟩ := Option.map_eq_some_iff.mp h
    exact ⟨rfl, rfl, hupdated⟩
  · cases h

end

end Abacus.Standings.Messages
