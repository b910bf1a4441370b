import Abacus.Peer.Rebuild
import Abacus.Recovery.ProbReplay

/-! # Restarting after a crash

A server that stops in the first message of its queue finds the queue unprocessed, in the order of the query,
and starts over. Messages that open with an `INSERT` fail on the row they left behind; a group cannot be
rebuilt at all.
-/

namespace Abacus.Recovery.Replay

open Library Library.Bytes Database.Schema Database.Peer Database.Marks Database.People
open Peer.Classes Peer.Process Peer.Statements Peer.Rebuild Peer.ProbUpdate Recovery.ProbReplay

/-- A message is stored before it is queued. -/
def Stored (key : MessageKey) (m : Message) (t : PeerTables) : Prop :=
  ∃ row, t.peerMessage[key]? = some row ∧ row.processed = false ∧ Holds m row

abbrev Queued := MessageKey × Message

def queued (a : Arrival) : Queued := (a.key, a.message)

def replay (env : Env) (queue : List Queued) (db : Db) : Db :=
  processAll (queue.map fun r => { env, key := r.1, message := r.2 }) db

/-- Start-up: the messages that were not processed are processed in the order of the query. -/
def restart (o : OrderBy MessageRow) (env : Env) (db : Db) : Db := replay env (getUnprocessedMessages o db.peer) db

def Processed (key : MessageKey) (t : PeerTables) : Prop := ∀ row, t.peerMessage[key]? = some row → row.processed = true

/-- After a crash in the first message of the queue and a restart the contest is as it is without them, and the message
is marked. -/
def Recovers (o : OrderBy MessageRow) (env : Env) (a : Arrival) (queue : List Arrival) (db : Db) (k : Nat) : Prop :=
  let restarted := restart o env ((intProcess a.env a.message).crashAfter k db)
  restarted.contest = (processAll (a :: queue) db).contest ∧ Processed a.key restarted.peer

/-- Whatever the database, the two lead to the same one in either order. -/
def Commutes (r r' : Queued) : Prop := ∀ env db, replay env [r, r'] db = replay env [r', r] db

/-- The queue, but for the order of messages that commute. -/
inductive Reordered (queue : List Queued) : List Queued → Prop
  | refl : Reordered queue queue
  | swap {front back : List Queued} {r r' : Queued} : Reordered queue (front ++ r :: r' :: back) → Commutes r r' →
      Reordered queue (front ++ r' :: r :: back)

/-- Processing the message from `d` succeeds, with the outcome it has from `db`. -/
def Replays (env : Env) (m : Message) (db d : Db) : Prop :=
  (intProcess env m).result d = .ok true ∧ (intProcess env m).final d = (intProcess env m).final db

section

variable {env env' : Env} {queue queue' : List Queued} {key : MessageKey} {m : Message} {db d : Db}

theorem replay_append (env : Env) (queue queue' : List Queued) (db : Db) :
    replay env (queue ++ queue') db = replay env queue' (replay env queue db) := by
  rw [replay, List.map_append, processAll, List.foldl_append]
  rfl

theorem Reordered.perm (h : Reordered queue queue') : queue'.Perm queue := by
  induction h with
  | refl => exact .refl _
  | swap _ _ ih => exact ((List.Perm.swap _ _ _).append_left _).trans ih

theorem Reordered.replay_eq (h : Reordered queue queue') (env : Env) (db : Db) :
    replay env queue' db = replay env queue db := by
  induction h with
  | refl => rfl
  | @swap front back r r' _ hcommutes ih =>
    have hsplit : ∀ r r', replay env (front ++ r :: r' :: back) db =
        replay env back (replay env [r, r'] (replay env front db)) := fun r r' =>
      (replay_append env front ([r, r'] ++ back) db).trans (replay_append env [r, r'] back _)
    rw [← ih, hsplit, hsplit, hcommutes]

theorem final_process (env : Env) (key : MessageKey) (m : Message) (db : Db) :
    (process env key m).final db =
      let db' := (intProcess env m).final db
      if (intProcess env m).result db = .ok true then { db' with peer := markProcessed db'.peer key } else db' := by
  rw [process, Prog.final_bind]
  rcases (intProcess env m).result db with fault | status
  · rfl
  · cases status <;> rfl

theorem peerMessage_process (env : Env) (key : MessageKey) (m : Message) (db : Db) :
    ((process env key m).final db).peer.peerMessage =
      if (intProcess env m).result db = .ok true then
        db.peer.peerMessage.modify key fun row => { row with processed := true }
      else db.peer.peerMessage := by
  rw [final_process, ← peerMessage_final env m db]
  dsimp only
  split <;> rfl

theorem processed_process_iff (env : Env) {row : PeerMessage} (hrow : db.peer.peerMessage[key]? = some row)
    (hnot : row.processed = false) :
    Processed key ((process env key m).final db).peer ↔ (intProcess env m).result db = .ok true := by
  rw [Processed, peerMessage_process]
  split
  · next hok =>
    refine iff_of_true (fun row' hrow' => ?_) hok
    rw [Table.getElem?_modify_row, if_pos rfl, hrow] at hrow'
    cases hrow'
    rfl
  · next hok =>
    refine iff_of_false (fun h => ?_) hok
    cases hnot.symm.trans (h row hrow)

theorem getElem?_replay (h : ∀ r ∈ queue, r.1 ≠ key) :
    (replay env queue db).peer.peerMessage[key]? = db.peer.peerMessage[key]? := by
  induction queue generalizing db with
  | nil => rfl
  | cons r queue ih =>
    obtain ⟨hr, hrest⟩ := List.forall_mem_cons.mp h
    refine (ih hrest).trans ?_
    rw [peerMessage_process]
    split
    · rw [Table.getElem?_modify_row, if_neg hr]
    · rfl

theorem Processed.replay (h : Processed key db.peer) : Processed key (replay env queue db).peer := by
  induction queue generalizing db with
  | nil => exact h
  | cons r queue ih =>
    refine ih fun row hrow => ?_
    rw [peerMessage_process] at hrow
    split at hrow
    · rw [Table.getElem?_modify_row] at hrow
      split at hrow
      · obtain ⟨row', -, rfl⟩ := Option.map_eq_some_iff.mp hrow
        rfl
      · exact h row hrow
    · exact h row hrow

theorem yields_scheduleEnds (now : Int) (timer : Support.Timer.TimerSupportModule) (groupId : Nat) (groups : List Nat)
    (done : List Int) (db : Db) : Prog.Yields (MsgStartStop.scheduleEnds now timer groupId groups done) db db () := by
  induction groups generalizing done with
  | nil => exact Prog.yields_pure () db
  | cons g groups ih =>
    rw [MsgStartStop.scheduleEnds]
    split
    · exact ih _
    · exact ih _

theorem yields_startStop (m : MsgStartStop) (env : Env) (db : Db) :
    Prog.Yields (intProcess env (.startStop m)) db { db with
      contest := putStartStop db.contest m.groupId
        (if m.action = Support.Timer.timerStart then .start else .stop) m.time } true := by
  rw [intProcess, MsgStartStop.intProcess]
  refine Prog.yields_bind (yields_setContest _) ?_
  have hrest : ∀ db groups, Prog.Yields (do
      MsgStartStop.scheduleEnds env.now
        (env.timer.addEvent { time := m.time, groupId := m.groupId, action := m.action }) m.groupId groups []
      return true : DbProg Bool) db db true := fun db groups =>
    Prog.yields_bind (yields_scheduleEnds _ _ _ groups [] db) (Prog.yields_pure true db)
  dsimp only
  split
  · exact hrest _ _
  · exact hrest _ _

/-- The outcome does not depend on the time or the other circumstances, but for the number of the server. -/
theorem run_env (hself : env.self = env'.self) (m : Message) (db : Db) :
    (intProcess env m).final db = (intProcess env' m).final db ∧
      (intProcess env m).result db = (intProcess env' m).result db := by
  cases m with
  | createUser m | passwd m | prob m | clarification m | bonus m => exact ⟨rfl, rfl⟩
  | createServer m =>
    have hbook : MessageCreateServer.bookMessages env m = MessageCreateServer.bookMessages env' m := by
      rw [MessageCreateServer.bookMessages, MessageCreateServer.bookMessages, hself]
    rw [intProcess, intProcess, MessageCreateServer.intProcess, MessageCreateServer.intProcess, hbook]
    exact ⟨rfl, rfl⟩
  | createGroup m =>
    simp only [intProcess, MessageCreateGroup.intProcess, writeContest, Prog.final_write_bind, Prog.result_write_bind]
    cases onContest _ db with
    | none | some db' => exact ⟨rfl, rfl⟩
  | startStop m =>
    obtain ⟨hfinal, hresult⟩ := yields_startStop m env db
    obtain ⟨hfinal', hresult'⟩ := yields_startStop m env' db
    exact ⟨hfinal.trans hfinal'.symm, hresult.trans hresult'.symm⟩
  | mark m =>
    obtain ⟨hfinal, hresult⟩ := MarkMessage.run_intProcess env m db
    obtain ⟨hfinal', hresult'⟩ := MarkMessage.run_intProcess env' m db
    rw [isSome_submissionToMB env env'] at hresult
    exact ⟨hfinal.trans hfinal'.symm, hresult.trans hresult'.symm⟩
  | submission m =>
    simp only [intProcess, SubmissionMessage.intProcess, writeContest, Prog.final_write_bind, Prog.result_write_bind]
    cases onContest _ db with
    | none => simp
    | some db' =>
      simp only [Bool.not_true, Bool.false_eq_true, if_false]
      have hnotify : ∀ env, (SubmissionMessage.notify env m).final db' = db' := fun env =>
        Prog.Limits.final_eq (limits_notify env m (E := fun _ => True) trivial) db'
      refine ⟨(hnotify env).trans (hnotify env').symm, ?_⟩
      have hresult := SubmissionMessage.result_notify env m db'
      dsimp only at hresult
      rw [isSome_submissionToMB env env'] at hresult
      exact hresult.trans (SubmissionMessage.result_notify env' m db').symm

theorem replay_map {queue : List Arrival} (h : ∀ b ∈ queue, b.env.self = env.self) :
    replay env (queue.map queued) db = processAll queue db := by
  induction queue generalizing db with
  | nil => rfl
  | cons b queue ih =>
    obtain ⟨hb, hrest⟩ := List.forall_mem_cons.mp h
    have hprocess : (process env b.key b.message).final db = (process b.env b.key b.message).final db := by
      obtain ⟨hfinal, hresult⟩ := run_env hb b.message db
      rw [final_process, final_process, hfinal, hresult]
    refine (ih hrest).trans ?_
    exact congrArg (processAll queue) hprocess

theorem Replays.process (h : Replays env m db d) (hok : (intProcess env m).result db = .ok true) (key : MessageKey) :
    (process env key m).final d = (process env key m).final db := by
  rw [final_process, final_process, h.1, h.2, hok]

theorem peer_crashAfter (hpeer : ∀ g, ¬PeerStatement m g) (env : Env) (k : Nat) (db : Db) :
    ((intProcess env m).crashAfter k db).peer = db.peer := by
  refine Prog.Limits.crashAfter (I := fun d : Db => d.peer = db.peer) ?_ (limits_intProcess env m) k rfl
  rintro _ (⟨f, -, rfl⟩ | ⟨f, hf, -⟩) d d' hd h
  · obtain ⟨c, -, rfl⟩ := Option.map_eq_some_iff.mp h
    exact hd
  · exact absurd hf (hpeer f)

theorem replays_of_idempotent {w : Contest → Contest} (env env' : Env)
    (hyields : ∀ env db, Prog.Yields (intProcess env m) db { db with contest := w db.contest } true)
    (hidem : ∀ c, w (w c) = w c) (hstatement : ∀ f, Statement .any m f → f = fun c => some (w c))
    (hpeer : ∀ g, ¬PeerStatement m g) (db : Db) (k : Nat) :
    Replays env' m db ((intProcess env m).crashAfter k db) := by
  have hpeer := peer_crashAfter hpeer env k db
  have hcrash : w ((intProcess env m).crashAfter k db).contest = w db.contest := by
    refine Prog.Limits.crashAfter (I := fun d : Db => w d.contest = w db.contest) ?_ (limits_intProcess env m) k rfl
    refine keeps_executes (J := fun c => w c = w db.contest) fun f hf c c' hc hstep => ?_
    rw [hstatement f hf] at hstep
    cases hstep
    rw [hidem, hc]
  obtain ⟨hfinal, hresult⟩ := hyields env' ((intProcess env m).crashAfter k db)
  refine ⟨hresult, ?_⟩
  rw [hfinal, (hyields env' db).1, hcrash, hpeer]

theorem replays_bonus (m : BonusMessage) (env env' : Env) (db : Db) (k : Nat) :
    Replays env' (.bonus m) db ((intProcess env (.bonus m)).crashAfter k db) := by
  refine replays_of_idempotent (m := .bonus m) env env' (w := fun c => setBonus c m.userId m.points m.seconds)
    (fun _ _ => ⟨rfl, rfl⟩) (fun c => ?_) (fun f hf => ?_) (fun _ => nofun) db k
  · exact congrArg (fun user => { c with user })
      (Table.modify_twice c.user m.userId (fun u => { u with bonusPoints := m.points, bonusSeconds := m.seconds }) fun
        _ => rfl)
  · cases hf
    rfl

theorem replays_passwd (m : PasswdMessage) (env env' : Env) (db : Db) (k : Nat) :
    Replays env' (.passwd m) db ((intProcess env (.passwd m)).crashAfter k db) := by
  refine replays_of_idempotent (m := .passwd m) env env' (w := fun c => setPassword c m.userId m.newpass)
    (fun _ _ => ⟨rfl, rfl⟩) (fun c => ?_) (fun f hf => ?_) (fun _ => nofun) db k
  · exact congrArg (fun user => { c with user })
      (Table.modify_twice c.user m.userId (fun u => { u with password := m.newpass }) fun _ => rfl)
  · cases hf
    rfl

theorem replays_startStop (m : MsgStartStop) (env env' : Env) (db : Db) (k : Nat) :
    Replays env' (.startStop m) db ((intProcess env (.startStop m)).crashAfter k db) := by
  refine replays_of_idempotent env env' (w := fun c =>
      putStartStop c m.groupId (if m.action = Support.Timer.timerStart then .start else .stop) m.time)
    (yields_startStop m) (fun c => ?_) (fun f hf => ?_) (fun _ => nofun) db k
  · exact congrArg (fun contestStartStop => { c with contestStartStop })
      (Table.insert_unit_of_mem Std.ExtTreeMap.mem_insert_self)
  · cases hf
    rfl

theorem replays_mark (m : MarkMessage) (env : Env) (hok : (intProcess env' (.mark m)).result db = .ok true) (k : Nat) :
    Replays env' (.mark m) db ((intProcess env (.mark m)).crashAfter k db) := by
  have hpeer := peer_crashAfter (m := .mark m) (fun _ => nofun) env k db
  have hmarked : MarkMessage.marked m ((intProcess env (.mark m)).crashAfter k db).contest =
      MarkMessage.marked m db.contest := by
    cases k with
    | zero => rw [Prog.crashAfter_zero]
    | succ k =>
      rw [intProcess, MarkMessage.intProcess, setContest, Prog.crashAfter_set_bind,
        Prog.crashAfter_bind (E := fun _ => True) fun _ => limits_announce env m trivial]
      obtain ⟨n, hn⟩ := MarkMessage.crashAfter_putFiles m.submissionId m.marker m.files k
        { db with contest := putMark db.contest m.submissionId m.marker m.time m.result m.comment m.serverId }
      rw [hn]
      exact congrArg₂ (fun submissionMark submissionMarkFile => { db.contest with submissionMark, submissionMarkFile })
        (Table.insert_twice _ _ _) (Table.insertMissing_take n)
  generalize (intProcess env (.mark m)).crashAfter k db = d at hmarked hpeer ⊢
  obtain ⟨hfinal, hresult⟩ := MarkMessage.run_intProcess env' m db
  obtain ⟨hfinal', hresult'⟩ := MarkMessage.run_intProcess env' m d
  rw [hmarked] at hfinal' hresult'
  refine ⟨hresult'.trans (hresult.symm.trans hok), ?_⟩
  rw [intProcess, hfinal, hfinal', hpeer]

end

section

variable {env env' : Env} {db : Db} {m : Message} {w : Db → Option Db} {f : Contest → Option Contest}

/-- A message that opens with an `INSERT` fails once the row is there. -/
theorem result_insert_iff {next : Bool → DbProg Bool}
    (hlimits : Limited (fun _ => True) .any m (Prog.write w >>= next))
    (hcrash : ∀ k, (intProcess env m).crashAfter k db = (Prog.write w >>= next).crashAfter k db)
    (hfails : ∀ d, w d = none → (intProcess env' m).result d = .ok false)
    (hkeeps : ∀ w', Executes .any m w' → ∀ d d', w d = none → w' d = some d' → w d' = none)
    (hagain : ∀ d d', w d = some d' → w d' = none) (hok : (intProcess env' m).result db = .ok true) (k : Nat) :
    (intProcess env' m).result ((intProcess env m).crashAfter k db) = .ok true ↔ k = 0 := by
  cases k with
  | zero =>
    rw [Prog.crashAfter_zero]
    exact iff_of_true hok rfl
  | succ k =>
    cases hput : w db with
    | none => cases (hfails db hput).symm.trans hok
    | some db' =>
      have hrest : Prog.Limits (fun d => w d = none) (Executes .any m) (Throws m) (next true) :=
        Prog.Limits.mono (hlimits.2 true) (fun _ _ => trivial) (fun _ h => h) fun _ h => h
      rw [hcrash, Prog.crashAfter_write_bind, hput,
        hfails _ (Prog.Limits.crashAfter hkeeps hrest k (hagain db db' hput))]
      exact iff_of_false nofun (Nat.succ_ne_zero k)

theorem onContest_again (hf : ∀ c c', f c = some c' → f c' = none) (d d' : Db) (h : onContest f d = some d') :
    onContest f d' = none := by
  obtain ⟨c, hc, rfl⟩ := Option.map_eq_some_iff.mp h
  exact congrArg (Option.map _) (hf d.contest c hc)

theorem keeps_failing (hstatement : ∀ g, Statement .any m g → g = f)
    (hpeer : ∀ g, ¬PeerStatement m g) (w' : Db → Option Db) (hw' : Executes .any m w') (d d' : Db)
    (hd : onContest f d = none) (h : w' d = some d') : onContest f d' = none := by
  obtain ⟨g, hg, rfl⟩ | ⟨g, hg, -⟩ := hw'
  · rw [hstatement g hg, hd] at h
    cases h
  · exact absurd hg (hpeer g)

theorem result_submission_iff (m : SubmissionMessage) (hok : (intProcess env' (.submission m)).result db = .ok true)
    (k : Nat) :
    (intProcess env' (.submission m)).result ((intProcess env (.submission m)).crashAfter k db) = .ok true ↔ k = 0 := by
  refine result_insert_iff (m := .submission m) (limits_submission env m) (fun _ => rfl) (fun d hd => ?_)
    (keeps_failing ?_ fun _ => nofun) (onContest_again fun c c' hc => ?_) hok k
  · rw [intProcess, SubmissionMessage.intProcess, writeContest, Prog.result_write_bind, hd]
    rfl
  · rintro _ ⟨⟩
    rfl
  · obtain ⟨t, ht, rfl⟩ := Option.map_eq_some_iff.mp hc
    exact congrArg (Option.map _) (Table.insertNew_again ht _)

theorem result_createUser_iff (m : MessageCreateUser) (hok : (intProcess env' (.createUser m)).result db = .ok true)
    (k : Nat) :
    (intProcess env' (.createUser m)).result ((intProcess env (.createUser m)).crashAfter k db) = .ok true ↔ k = 0 := by
  refine result_insert_iff (m := .createUser m) (limits_createUser m) (fun _ => rfl) (fun d hd => ?_)
    (keeps_failing ?_ fun _ => nofun) (onContest_again fun c c' hc => ?_) hok k
  · rw [intProcess, MessageCreateUser.intProcess, writeContest, Prog.result_write_bind, hd]
    dsimp only
    split <;> rfl
  · rintro _ ⟨⟩
    rfl
  · obtain ⟨t, ht, rfl⟩ := Option.map_eq_some_iff.mp hc
    exact congrArg (Option.map _) (Table.insertUnique_again ht)

theorem result_clarification_iff (m : ClarificationMessage)
    (hok : (intProcess env' (.clarification m)).result db = .ok true) (k : Nat) :
    (intProcess env' (.clarification m)).result ((intProcess env (.clarification m)).crashAfter k db) = .ok true ↔
      k = 0 := by
  by_cases hrequest : m.request = 0
  · have hprocess : ∀ env, intProcess env (.clarification m) = ClarificationMessage.processReply m := fun _ =>
      if_neg (not_not.mpr hrequest)
    have hlimits : Limited (fun _ => True) .any (.clarification m) (ClarificationMessage.processReply m) :=
      limits_processReply m hrequest
    refine result_insert_iff (m := .clarification m) (hlimits db trivial) (fun _ => ?_) (fun d hd => ?_)
      (keeps_failing ?_ fun _ => nofun) (onContest_again fun c c' hc => ?_) hok k
    · rw [hprocess]
      rfl
    · rw [hprocess, ClarificationMessage.processReply, readContest, Prog.result_read_bind, writeContest,
        Prog.result_write_bind, hd]
      rfl
    · rintro _ ⟨⟩
      · contradiction
      · rfl
    · obtain ⟨t, ht, rfl⟩ := Option.map_eq_some_iff.mp hc
      exact congrArg (Option.map _) (Table.insertNew_again ht _)
  · have hprocess : ∀ env, intProcess env (.clarification m) = ClarificationMessage.processRequest m := fun _ =>
      if_pos hrequest
    refine result_insert_iff (m := .clarification m) (limits_processRequest m hrequest) (fun _ => ?_) (fun d hd => ?_)
      (keeps_failing ?_ fun _ => nofun) (onContest_again fun c c' hc => ?_) hok k
    · rw [hprocess]
      rfl
    · rw [hprocess, ClarificationMessage.processRequest, writeContest, Prog.result_write_bind, hd]
      rfl
    · rintro _ ⟨⟩
      · rfl
      · contradiction
    · obtain ⟨t, ht, rfl⟩ := Option.map_eq_some_iff.mp hc
      exact congrArg (Option.map _) (Table.insertNew_again ht _)

theorem result_createServer_iff (m : MessageCreateServer)
    (hok : (intProcess env' (.createServer m)).result db = .ok true) (k : Nat) :
    (intProcess env' (.createServer m)).result ((intProcess env (.createServer m)).crashAfter k db) = .ok true ↔
      k = 0 := by
  have hnone : ∀ d : Db, onPeer (fun t => insertServer t m.serverId m.name) d = none ↔ m.serverId ∈ d.peer.server := by
    intro d
    rw [onPeer, insertServer, Option.map_eq_none_iff, Option.map_eq_none_iff, Table.insertNew]
    split
    · next hmem => exact iff_of_true rfl hmem
    · next hmem => exact iff_of_false (by simp) hmem
  refine result_insert_iff (m := .createServer m) (limits_createServer env m) (fun _ => rfl) (fun d hd => ?_)
    (fun w' hw' d d' hd h => ?_) (fun d d' hput => ?_) hok k
  · rw [intProcess, MessageCreateServer.intProcess, Prog.result_write_bind, hd]
    rfl
  · rw [hnone] at hd ⊢
    obtain ⟨f, hf, rfl⟩ | ⟨f, hf, rfl⟩ := hw'
    · obtain ⟨c, -, rfl⟩ := Option.map_eq_some_iff.mp h
      exact hd
    · obtain ⟨t, ht, rfl⟩ := Option.map_eq_some_iff.mp h
      cases hf with
      | insertServer =>
        obtain ⟨hfree, rfl⟩ := Table.map_insertNew.mp ht
        exact absurd hd hfree
      | insertNoAck =>
        dsimp only [insertNoAck] at ht
        split at ht
        · cases ht
          exact hd
        · cases ht
  · obtain ⟨t, ht, rfl⟩ := Option.map_eq_some_iff.mp hput
    obtain ⟨-, rfl⟩ := Table.map_insertNew.mp ht
    exact (hnone _).mpr Std.ExtTreeMap.mem_insert_self

end

section

variable {env env' : Env} {db : Db}

theorem replays_prob_iff (m : ProbMessage) (hok : (intProcess env' (.prob m)).result db = .ok true)
    (htyped : Outdated m db.contest ∨ Typed m.probId db.contest) (k : Nat) :
    let d := (intProcess env (.prob m)).crashAfter k db
    (Outdated m db.contest ∨ Clean m db.contest k → Replays env' (.prob m) db d) ∧
      (((intProcess env' (.prob m)).final d).contest = ((intProcess env' (.prob m)).final db).contest →
        Outdated m db.contest ∨ Clean m db.contest k) := by
  have hprob : m.probId ≠ 4294967295 := by
    intro hprob
    rw [intProcess, ProbMessage.intProcess, if_pos hprob] at hok
    cases hok
  by_cases hold : Outdated m db.contest
  · have hcrash : (ProbMessage.intProcess m).crashAfter k db = db := by
      rw [ProbMessage.intProcess, if_neg hprob, readContest, Prog.crashAfter_read_bind, if_pos hold.1, readContest,
        Prog.crashAfter_read_bind, if_pos hold.2]
      rfl
    refine ⟨fun _ => ?_, fun _ => .inl hold⟩
    rw [intProcess, hcrash]
    exact ⟨hok, rfl⟩
  · have htyped := htyped.resolve_left hold
    have hpeer := peer_crashAfter (m := .prob m) (fun _ h => by cases h) env k db
    have hclean := update_eq_iff_clean hprob htyped hold k
    obtain ⟨hfinal, -⟩ := yields_intProcess hprob hold
    obtain ⟨hfinal', hresult'⟩ := yields_intProcess hprob (interrupted_intProcess hprob htyped hold k).not_outdated
    dsimp only [Replays, intProcess] at hpeer ⊢
    rw [or_iff_right hold, ← hclean, hfinal, hfinal']
    refine ⟨fun hsame => ⟨hresult', ?_⟩, fun hsame => hsame⟩
    rw [hsame, hpeer]

end

/-- A crash after `k` statements in a contest `c` can be recovered from. -/
def Recoverable (k : Nat) (c : Contest) : Message → Prop
  | .createGroup _ => False
  | .createServer _ | .createUser _ | .submission _ | .clarification _ => k = 0
  | .passwd _ | .startStop _ | .mark _ | .bonus _ => True
  | .prob m => Outdated m c ∨ Typed m.probId c ∧ Clean m c k

section

variable {env env' : Env} {m : Message} {db : Db} {k : Nat}

theorem replays_of_recoverable (hok : (intProcess env' m).result db = .ok true) (h : Recoverable k db.contest m) :
    Replays env' m db ((intProcess env m).crashAfter k db) := by
  cases m with
  | createGroup m => exact h.elim
  | createServer m | createUser m | submission m | clarification m =>
    cases h
    rw [Prog.crashAfter_zero]
    exact ⟨hok, rfl⟩
  | passwd m => exact replays_passwd m env env' db k
  | startStop m => exact replays_startStop m env env' db k
  | mark m => exact replays_mark m env hok k
  | bonus m => exact replays_bonus m env env' db k
  | prob m => exact (replays_prob_iff m hok (h.imp_right And.left) k).1 (h.imp_right And.right)

theorem recoverable_of_result (hok : (intProcess env' m).result db = .ok true)
    (htyped : ∀ pm, m = .prob pm → Typed pm.probId db.contest) (hregistered : m.class.registered = true)
    (hagain : (intProcess env' m).result ((intProcess env m).crashAfter k db) = .ok true)
    (hsame : ∀ pm, m = .prob pm → ((intProcess env' m).final ((intProcess env m).crashAfter k db)).contest =
      ((intProcess env' m).final db).contest) : Recoverable k db.contest m := by
  cases m with
  | createGroup m => cases hregistered
  | createServer m => exact (result_createServer_iff m hok k).mp hagain
  | createUser m => exact (result_createUser_iff m hok k).mp hagain
  | submission m => exact (result_submission_iff m hok k).mp hagain
  | clarification m => exact (result_clarification_iff m hok k).mp hagain
  | passwd m | startStop m | mark m | bonus m => trivial
  | prob m =>
    have htyped := htyped m rfl
    exact ((replays_prob_iff m hok (.inr htyped) k).2 (hsame m rfl)).imp_right fun hclean => ⟨htyped, hclean⟩

end

section

variable {a : Arrival} {queue : List Arrival} {db : Db} {env : Env} {o : OrderBy MessageRow}

/-- The query returns the queue that starts with `a`. -/
def Found (o : OrderBy MessageRow) (a : Arrival) (queue : List Arrival) (t : PeerTables) : Prop :=
  Reordered ((a :: queue).map queued) (getUnprocessedMessages o t)

theorem restart_crashAfter (env : Env) (k : Nat) : restart o env ((intProcess a.env a.message).crashAfter k db) =
    replay env (getUnprocessedMessages o db.peer) ((intProcess a.env a.message).crashAfter k db) := by
  rw [restart, getUnprocessedMessages, unprocessedRows, peerMessage_crashAfter]
  rfl

variable (hself : ∀ b ∈ a :: queue, b.env.self = env.self) (hstored : Stored a.key a.message db.peer)
  (hok : (intProcess a.env a.message).result db = .ok true) {k : Nat}

include hself hstored hok

theorem recovers_of_recoverable (hfound : Found o a queue db.peer) (h : Recoverable k db.contest a.message) :
    Recovers o env a queue db k := by
  obtain ⟨row, hrow, hnot, -⟩ := hstored
  rw [(run_env (hself a List.mem_cons_self) a.message db).2] at hok
  have hreplays : Replays env a.message db ((intProcess a.env a.message).crashAfter k db) :=
    replays_of_recoverable hok h
  have hrun : processAll (a :: queue) db = replay env (queue.map queued) ((process env a.key a.message).final db) :=
    (replay_map hself).symm
  have hrestart : restart o env ((intProcess a.env a.message).crashAfter k db) = processAll (a :: queue) db := by
    rw [restart_crashAfter, hfound.replay_eq, hrun, ← hreplays.process hok]
    rfl
  rw [Recovers, hrestart, hrun]
  exact ⟨rfl, Processed.replay ((processed_process_iff env hrow hnot).mpr hok)⟩

theorem recoverable_of_recovers (h : Recovers o env a queue db k)
    (hfound : a.message.class.registered = true → Found o a queue db.peer)
    (hprob : ∀ m, a.message = .prob m → queue = [] ∧ Typed m.probId db.contest) :
    Recoverable k db.contest a.message := by
  obtain ⟨row, hrow, hnot, hholds⟩ := hstored
  rw [(run_env (hself a List.mem_cons_self) a.message db).2] at hok
  obtain ⟨hcontest, hprocessed⟩ := h
  rw [restart_crashAfter] at hcontest hprocessed
  have hrow' := (congrArg (·[a.key]?) (peerMessage_crashAfter a.env a.message k db)).trans hrow
  cases hregistered : a.message.class.registered with
  | false =>
    -- the query does not find the message, and nothing else marks it
    have hother : ∀ r ∈ getUnprocessedMessages o db.peer, r.1 ≠ a.key := by
      rintro ⟨key, m⟩ hmem rfl
      obtain ⟨row', hrow', -, hbuild⟩ := (mem_getUnprocessedMessages o).mp hmem
      cases hrow.symm.trans hrow'
      rw [hholds.buildMessage, hregistered] at hbuild
      cases hbuild
    cases hnot.symm.trans (hprocessed row ((getElem?_replay hother).trans hrow'))
  | true =>
    have hfound := hfound hregistered
    have hkeys : (((a :: queue).map queued).map Prod.fst).Nodup :=
      (hfound.perm.map Prod.fst).nodup_iff.mp (nodup_keys_getUnprocessedMessages o)
    have hother : ∀ r ∈ queue.map queued, r.1 ≠ a.key := fun r hr heq =>
      (List.nodup_cons.mp hkeys).1 (List.mem_map.mpr ⟨r, hr, heq⟩)
    rw [hfound.replay_eq] at hcontest hprocessed
    have hfirst : Processed a.key ((process env a.key a.message).final
        ((intProcess a.env a.message).crashAfter k db)).peer := fun row' hrow' =>
      hprocessed row' ((getElem?_replay hother).trans hrow')
    refine recoverable_of_result hok (fun m hm => (hprob m hm).2) hregistered
      ((processed_process_iff env hrow' hnot).mp hfirst) fun m hm => ?_
    rw [← replay_map hself, (hprob m hm).1] at hcontest
    rw [← contest_final_process, ← contest_final_process]
    exact hcontest

end

def submission17 : SubmissionMessage where
  submissionId := 17
  userId := 33
  probId := 1
  time := 10
  serverId := 1
  content := []
  language := str "C"

def row17 : PeerMessage where
  messageTypeId := 5
  time := 10
  signature := []
  data := [17, 0, 0, 0, 33, 0, 0, 0, 1, 0, 0, 0, 10, 0, 0, 0, 1, 0, 0, 0, 0, 0, 0, 0, 67, 0]
  processed := false

def team : User where
  username := str "team"
  friendlyname := str "Team"
  password := []
  type := 3
  group := 1
  bonusPoints := 0
  bonusSeconds := 0

def submitted : Db where
  peer := { PeerTables.empty with peerMessage := (∅ : Table MessageKey PeerMessage).insert (1, 3) row17 }
  contest := { Contest.empty with
    user := (∅ : Table Nat User).insert 33 team
    problemAttributes := (∅ : Table (Nat × Str) Str).insert (1, str "shortname") (str "A") }

theorem stored_submitted : Stored (1, 3) (.submission submission17) submitted.peer :=
  ⟨row17, by decide, rfl, rfl, 26, by decide⟩

def arrival17 : Arrival := ⟨default, (1, 3), .submission submission17⟩

theorem result_submitted : (intProcess default (.submission submission17)).result submitted = .ok true := by
  rw [intProcess, SubmissionMessage.intProcess, writeContest, Prog.result_write_bind]
  decide

theorem found_submitted : Found .stable arrival17 [] submitted.peer := by
  rw [Found, show getUnprocessedMessages .stable submitted.peer = [queued arrival17] by decide +kernel]
  exact .refl

end Abacus.Recovery.Replay
