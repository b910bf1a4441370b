import Abacus.Client.Listing
import Abacus.Client.Totality

/-! # Updates and lists

A user is sent updates of submissions and clarifications, and can ask for the list of them. The updates
go by the number and the permissions of the user, the list by a query that takes 0 for every user.
-/

namespace Abacus.Client.Updates

open Library Library.Bytes Misc Client.Block Client.Permissions Client.Action Client.Process
open Client.Contest Client.Listing Client.Submit Client.Totality Database.Schema Database.Marks Database.People
  Database.Peer
open Peer.Classes Peer.Process Peer.Totality
open Library.Prog (runs_read_bind runs_pure runs_output_bind runs_iff)

def sentTo (cc : Connection) : Output → Option MessageBlock
  | .broadcastEvent userId permission mb => if cc.userId = userId ∨ cc.permissions permission then some mb else none
  | .sendMessage userId mb => if cc.userId = userId then some mb else none
  | _ => none

/-- The update for an item, the request for the list of such items and the name of their numbers in it. -/
structure Watch where
  update : String
  request : String
  name : String
  id : Nat

def watch : Message → Option Watch
  | .submission m => some ⟨"updatesubmissions", "getsubmissions", "submission_id", m.submissionId⟩
  | .clarification m =>
    if m.request ≠ 0 then
      some ⟨"updateclarificationrequests", "getclarificationrequests", "id", m.clarificationRequestId⟩
    else some ⟨"updateclarifications", "getclarifications", "id", m.clarificationId⟩
  | _ => none

def Pushed (cc : Connection) (w : Watch) (outputs : List Output) : Prop :=
  ∃ o ∈ outputs, ∃ mb, sentTo cc o = some mb ∧ mb.action = str w.update

def Pulled (w : Watch) (replies : List MessageBlock) : Prop :=
  ∃ reply ∈ replies, ∃ k : Nat, reply.headers[str w.name ++ decimal k]? = some (decimal w.id)

section

variable (s : Server) (cc : Connection) {m : ClarificationMessage} {db db' : Db} {os : List Output}

/-- The update comes to the connection if and only if the list, asked for right afterwards, shows the item. -/
def Agree (env : Env) (key : MessageKey) (m : Message) (w : Watch) (mb : MessageBlock) (db : Db) : Prop :=
  Pushed cc w ((Peer.Process.process env key m).run db).2.1 ↔
    Pulled w (replies ((Process.process s cc mb).run ((Peer.Process.process env key m).final db)).2.1)

/-- The item is the user's own, or the user may see all of its kind; a public clarification is for every user. -/
def Addressed (c : Contest) : Message → Prop
  | .submission m => cc.userId = m.userId ∨ cc.permissions .seeAllSubmissions = true
  | .clarification m =>
    if m.request ≠ 0 then cc.userId = m.userId ∨ cc.permissions .seeAllClarificationRequests = true
    else if m.probId ≠ 0 then cc.userId = 0 ∨ cc.permissions .auth = true
    else (∃ r ∈ c.clarificationRequest[m.clarificationRequestId]?, cc.userId = r.userId) ∨
      cc.permissions .seeAllClarifications = true
  | _ => False

def isReply : Message → Bool
  | .clarification m => m.request = 0
  | _ => false

/-- The server knows its number, the user may ask, and no clarification in the list is without its request. -/
structure Answerable (db : Db) (m : Message) : Prop where
  initialised : getId s db.peer ≠ 0
  permitted : cc.permissions .auth = true
  quoted : isReply m = true → Quoted db.contest (userOrAll cc .seeAllClarifications)

/-- Those whom the update is for can ask for the list, and a user 0 who can ask is among them. -/
def Concord (db : Db) (m : Message) : Prop :=
  (Addressed cc db.contest m → Answerable s cc db m) ∧
    (Answerable s cc db m → cc.userId = 0 → Addressed cc db.contest m)

theorem action_setAll (mb : MessageBlock) (attrs : AttributeList) (suffix : Str) :
    (mb.setAll attrs suffix).action = mb.action := by
  rw [setAll_eq]

theorem runs_processRequest (h : Prog.Runs (ClarificationMessage.processRequest m) db os db' true) :
    ∃ c' mb, putClarificationRequest db.contest m.clarificationRequestId
        { userId := m.userId, time := m.time, problemId := m.probId, text := m.text } = some c' ∧
      db' = { db with contest := c' } ∧ os = [.broadcastEvent m.userId .seeAllClarificationRequests mb] ∧
      mb.action = str "updateclarificationrequests" := by
  obtain ⟨d, hput, hstored⟩ | ⟨-, hfailed⟩ := Prog.runs_write_bind.mp h
  · obtain ⟨c', hnew, rfl⟩ := Option.map_eq_some_iff.mp hput
    rw [if_neg (by decide), readContest, runs_read_bind] at hstored
    dsimp only at hstored
    split at hstored
    · cases (runs_pure.mp hstored).2.2
    · obtain ⟨rest, hrest, rfl⟩ := runs_output_bind.mp hstored
      obtain ⟨rfl, rfl, -⟩ := runs_pure.mp hrest
      exact ⟨c', _, hnew, rfl, rfl, action_setAll _ _ _⟩
  · cases (runs_pure.mp hfailed).2.2

theorem runs_orRaise_bind {α β : Type} {fault : Fault} {o : Option α} {f : α → DbProg β} {b : β}
    (h : Prog.Runs (orRaise fault o >>= f) db os db' b) : ∃ a, o = some a ∧ Prog.Runs (f a) db os db' b := by
  cases o with
  | none => cases h
  | some a => exact ⟨a, rfl, h⟩

theorem runs_announce {c : Contest} (hc : InRange c) {reply : AttributeList}
    (h : Prog.Runs (ClarificationMessage.announce m (getClarificationRequest c m.clarificationRequestId) reply)
      db os db' true) : db = db' ∧ ∃ r mb, c.clarificationRequest[m.clarificationRequestId]? = some r ∧
      os = [if m.probId ≠ 0 then .broadcastEvent 0 .auth mb else .broadcastEvent r.userId .seeAllClarifications mb] ∧
      mb.action = str "updateclarifications" := by
  rw [ClarificationMessage.announce] at h
  split at h
  · cases (runs_pure.mp h).2.2
  · next hne =>
    cases hrow : c.clarificationRequest[m.clarificationRequestId]? with
    | none =>
      rw [getClarificationRequest, hrow] at hne
      exact absurd rfl hne
    | some r =>
      dsimp only at h
      split at h
      · next hpublic =>
        obtain ⟨rest, hrest, rfl⟩ := runs_output_bind.mp h
        obtain ⟨rfl, rfl, -⟩ := runs_pure.mp hrest
        exact ⟨rfl, r, _, rfl, by rw [if_pos hpublic], action_setAll _ _ _⟩
      · next hprivate =>
        have huser : (getClarificationRequest c m.clarificationRequestId).getD (str "user_id") [] =
            decimal r.userId := by
          rw [getClarificationRequest, hrow]
          simp +decide only [requestAttrs, Option.map_some, Option.getD_some, Table.getD_insert_row, if_true, if_false]
        rw [huser, fromStringU32_decimal (hc.request _ r hrow)] at h
        obtain ⟨userId, hread, hsend⟩ := runs_orRaise_bind h
        cases hread
        obtain ⟨rest, hrest, rfl⟩ := runs_output_bind.mp hsend
        obtain ⟨rfl, rfl, -⟩ := runs_pure.mp hrest
        exact ⟨rfl, r, _, rfl, by rw [if_neg hprivate], action_setAll _ _ _⟩

theorem runs_processReply (hdb : InRange db.contest)
    (h : Prog.Runs (ClarificationMessage.processReply m) db os db' true) :
    ∃ c' r mb, putClarification db.contest m.clarificationId
        { clarificationReqId := m.clarificationRequestId, userId := m.userId, time := m.time, isPublic := m.probId ≠ 0,
          text := m.text } = some c' ∧
      db' = { db with contest := c' } ∧ db.contest.clarificationRequest[m.clarificationRequestId]? = some r ∧
      os = [if m.probId ≠ 0 then .broadcastEvent 0 .auth mb else .broadcastEvent r.userId .seeAllClarifications mb] ∧
      mb.action = str "updateclarifications" := by
  rw [ClarificationMessage.processReply, readContest, runs_read_bind] at h
  obtain ⟨d, hput, hstored⟩ | ⟨-, hfailed⟩ := Prog.runs_write_bind.mp h
  · obtain ⟨c', hnew, rfl⟩ := Option.map_eq_some_iff.mp hput
    rw [if_neg (by decide), readContest, runs_read_bind] at hstored
    obtain ⟨reply, -, hannounce⟩ := runs_orRaise_bind hstored
    obtain ⟨rfl, r, mb, hrow, hos, haction⟩ := runs_announce hdb hannounce
    exact ⟨c', r, mb, hnew, rfl, hrow, hos, haction⟩
  · cases (runs_pure.mp hfailed).2.2

theorem action_submissionToMB {env : Env} {c : Contest} {attrs : AttributeList} {mb mb' : MessageBlock} {suffix : Str}
    (h : submissionToMB env c attrs mb suffix = some mb') : mb'.action = mb.action := by
  unfold submissionToMB at h
  simp only [Option.bind_eq_bind, Option.bind_eq_some_iff] at h
  obtain ⟨submissionId, -, time, -, groupId, -, h⟩ := h
  cases h
  exact action_setAll _ _ _

theorem runs_dispatch {env : Env} {m : SubmissionMessage}
    (h : Prog.Runs (SubmissionMessage.dispatch env m true) db os db' true) :
    db = db' ∧ ∀ o ∈ os, o = .enqueueSubmission m.submissionId := by
  rw [SubmissionMessage.dispatch, readContest, runs_read_bind] at h
  dsimp only at h
  split at h
  · obtain ⟨rest, hrest, rfl⟩ := runs_output_bind.mp h
    obtain ⟨rfl, rfl, -⟩ := runs_pure.mp hrest
    exact ⟨rfl, fun o ho => List.mem_singleton.mp ho⟩
  · obtain ⟨rfl, rfl, -⟩ := runs_pure.mp h
    exact ⟨rfl, List.forall_mem_nil _⟩

theorem not_runs_fail {m : SubmissionMessage} : ¬Prog.Runs (SubmissionMessage.fail m) db os db' true := by
  intro h
  rw [SubmissionMessage.fail, readContest, runs_read_bind] at h
  obtain ⟨rest, hrest, -⟩ := runs_output_bind.mp h
  cases (runs_pure.mp hrest).2.2

theorem not_runs_unlisted {env : Env} {m : SubmissionMessage} :
    ¬Prog.Runs (SubmissionMessage.dispatch env m false) db os db' true := by
  intro h
  rw [SubmissionMessage.dispatch, readContest, runs_read_bind] at h
  dsimp only at h
  split at h
  · obtain ⟨rest, hrest, -⟩ := runs_output_bind.mp h
    exact not_runs_fail hrest
  · exact not_runs_fail h

theorem runs_submission {env : Env} {m : SubmissionMessage}
    (h : Prog.Runs (SubmissionMessage.intProcess env m) db os db' true) :
    ∃ c' mb rest, putSubmission db.contest m.submissionId
        { userId := m.userId, probId := m.probId, time := m.time, serverId := m.serverId, content := m.content,
          language := m.language } = some c' ∧
      db' = { db with contest := c' } ∧ (getSubmission c' m.submissionId).isEmpty = false ∧
      os = .broadcastEvent m.userId .seeAllSubmissions mb :: rest ∧ mb.action = str "updatesubmissions" ∧
      ∀ o ∈ rest, o = .enqueueSubmission m.submissionId := by
  obtain ⟨d, hput, hstored⟩ | ⟨-, hfailed⟩ := Prog.runs_write_bind.mp h
  · obtain ⟨c', hnew, rfl⟩ := Option.map_eq_some_iff.mp hput
    rw [if_neg (by decide), SubmissionMessage.notify, readContest, runs_read_bind] at hstored
    dsimp only at hstored
    split at hstored
    · exact absurd hstored not_runs_unlisted
    · next hlisted =>
      obtain ⟨first, d, _, second, hannounce, hdispatch, rfl⟩ := Prog.runs_bind.mp hstored
      rw [SubmissionMessage.announce, readContest, runs_read_bind] at hannounce
      obtain ⟨mb, hmb, hsend⟩ := runs_orRaise_bind hannounce
      cases hsend
      obtain ⟨rfl, hrest⟩ := runs_dispatch hdispatch
      exact ⟨c', mb, second, hnew, rfl, Bool.eq_false_iff.mpr hlisted, rfl, action_submissionToMB hmb, hrest⟩
  · exact absurd hfailed not_runs_fail

theorem runs_process {env : Env} {key : MessageKey} {m : Message}
    (h : Prog.Runs (Peer.Process.process env key m) db os db' true) :
    ∃ d, Prog.Runs (Peer.Process.intProcess env m) db os d true ∧
      db' = { d with peer := markProcessed d.peer key } := by
  obtain ⟨first, d, status, second, hint, hrest, rfl⟩ := Prog.runs_bind.mp h
  cases status with
  | false =>
    cases hrest
  | true =>
    cases hrest
    exact ⟨d, by rwa [List.append_nil], rfl⟩

end

section

variable {s : Server} {cc : Connection} {mb : MessageBlock} {db : Db} {w : Watch}

theorem pulled_iff {action : ActionName} {act : ClientProg MessageBlock} {shown : Prop}
    (hname : ∀ k : Nat, str "msg" ≠ str w.name ++ decimal k)
    (haction : findAction mb.action = some action) (htest : permissionTest action = .base .auth)
    (hanswer : answer s cc mb action = Answer.reply <$> act)
    (hshown : ∀ reply, act.result db = .ok reply →
      ((∃ k : Nat, reply.headers[str w.name ++ decimal k]? = some (decimal w.id)) ↔ shown)) :
    Pulled w (replies ((Process.process s cc mb).run db).2.1) ↔
      (getId s db.peer ≠ 0 ∧ cc.permissions .auth = true ∧ Prog.Returns act db) ∧ shown := by
  have hmatches : (permissionTest action).matches cc.permissions = cc.permissions .auth := by
    rw [htest]
    rfl
  by_cases hmay : getId s db.peer ≠ 0 ∧ cc.permissions .auth = true
  · rw [Pulled, replies_of_permitted hmay.1 haction (hmatches.trans hmay.2) hanswer]
    cases hact : act.result db with
    | error e =>
      have hnot : ¬Prog.Returns act db := fun ⟨a, ha⟩ => nomatch hact.symm.trans ha
      exact iff_of_false nofun fun h => hnot h.1.2.2
    | ok reply =>
      have hreturns : Prog.Returns act db := ⟨reply, hact⟩
      rw [and_iff_right ⟨hmay.1, hmay.2, hreturns⟩, ← hshown reply hact]
      constructor
      · rintro ⟨r, hr, hlisted⟩
        obtain rfl := List.mem_singleton.mp hr
        exact hlisted
      · exact fun hlisted => ⟨_, List.mem_singleton_self _, hlisted⟩
  · have hrefused : getId s db.peer = 0 ∨ (permissionTest action).matches cc.permissions = false := by
      rw [hmatches]
      by_contra hnot
      rw [not_or, Bool.not_eq_false] at hnot
      exact hmay hnot
    rw [Pulled, replies_of_refused haction hrefused]
    refine iff_of_false ?_ fun h => hmay ⟨h.1.1, h.1.2.1⟩
    rintro ⟨r, hr, k, hk⟩
    obtain rfl := List.mem_singleton.mp hr
    change (Std.ExtTreeMap.insert ∅ (str "msg") _)[str w.name ++ decimal k]? = _ at hk
    rw [Table.getElem?_insert_row, if_neg (hname k), Std.ExtTreeMap.getElem?_empty] at hk
    cases hk

theorem result_actGetSubmissions {reply : MessageBlock} (h : (actGetSubmissions s cc).result db = .ok reply) :
    submissionsToMB s db.contest (getSubmissions db.contest (userOrAll cc .seeAllSubmissions)) = some reply := by
  rw [actGetSubmissions, query, Prog.result_read_bind] at h
  cases hreply : submissionsToMB s db.contest (getSubmissions db.contest (userOrAll cc .seeAllSubmissions)) with
  | none =>
    rw [hreply] at h
    cases h
  | some reply' =>
    rw [hreply] at h
    cases h
    rfl

theorem result_actGetClarifications {reply : MessageBlock} (h : (actGetClarifications s cc).result db = .ok reply) :
    ∃ list, getClarifications db.contest s.clarificationOrder (userOrAll cc .seeAllClarifications) = some list ∧
      reply = numbered .ok list := by
  rw [actGetClarifications, query, Prog.result_read_bind] at h
  split at h
  · cases h
  · next list hlist =>
    cases h
    exact ⟨list, hlist, rfl⟩

theorem msg_ne_id (k : Nat) : str "msg" ≠ str "id" ++ decimal k :=
  fun heq => absurd (show some (109 : UInt8) = some 105 from congrArg List.head? heq) (by decide)

theorem userOrAll_iff (p : Permission) (owner : Nat) : userOrAll cc p = 0 ∨ owner = userOrAll cc p ↔
    (cc.userId = owner ∨ cc.permissions p = true) ∨ cc.userId = 0 := by
  unfold userOrAll
  cases cc.permissions p with
  | true => simp
  | false =>
    simp only [Bool.false_eq_true, if_false, or_false, eq_comm]
    exact or_comm

variable {update request : String} {id : Nat}

theorem pulled_submission {row : Submission} {attrs : AttributeList} (hdb : InRange db.contest)
    (hmb : mb.action = str "getsubmissions")
    (hrow : db.contest.submission[id]? = some row) (hattrs : submissionAttrs db.contest id row = some attrs) :
    Pulled ⟨update, request, "submission_id", id⟩ (replies ((Process.process s cc mb).run db).2.1) ↔
      (getId s db.peer ≠ 0 ∧ cc.permissions .auth = true) ∧
        ((cc.userId = row.userId ∨ cc.permissions .seeAllSubmissions = true) ∨ cc.userId = 0) := by
  have hfind : findAction mb.action = some .getsubmissions := by
    rw [hmb]
    decide
  have hname : ∀ k : Nat, str "msg" ≠ str "submission_id" ++ decimal k :=
    fun k heq => absurd (show some (109 : UInt8) = some 115 from congrArg List.head? heq) (by decide)
  have hanswer : answer s cc mb .getsubmissions = Answer.reply <$> actGetSubmissions s cc := rfl
  have hpulled := pulled_iff (w := ⟨update, request, "submission_id", id⟩) hname hfind rfl hanswer fun reply hreply =>
    listed_submission hrow hattrs (result_actGetSubmissions hreply)
  rw [hpulled, userOrAll_iff]
  refine and_congr_left fun _ => ?_
  constructor
  · exact fun h => ⟨h.1, h.2.1⟩
  · exact fun h => ⟨h.1, h.2, returns_actGetSubmissions hdb⟩

theorem pulled_request {row : ClarificationRequest} (hmb : mb.action = str "getclarificationrequests")
    (hrow : db.contest.clarificationRequest[id]? = some row) :
    Pulled ⟨update, request, "id", id⟩ (replies ((Process.process s cc mb).run db).2.1) ↔
      (getId s db.peer ≠ 0 ∧ cc.permissions .auth = true) ∧
        ((cc.userId = row.userId ∨ cc.permissions .seeAllClarificationRequests = true) ∨ cc.userId = 0) := by
  have hfind : findAction mb.action = some .getclarificationrequests := by
    rw [hmb]
    decide
  have hanswer : answer s cc mb .getclarificationrequests = Answer.reply <$> actGetClarificationRequests s cc := rfl
  have hpulled := pulled_iff (w := ⟨update, request, "id", id⟩) msg_ne_id hfind rfl hanswer fun reply hreply => by
    cases hreply
    exact listed_request s.requestOrder hrow
  rw [hpulled, userOrAll_iff]
  refine and_congr_left fun _ => ?_
  constructor
  · exact fun h => ⟨h.1, h.2.1⟩
  · exact fun h => ⟨h.1, h.2, _, rfl⟩

theorem pulled_clarification {row : Clarification} {asked : ClarificationRequest}
    (hmb : mb.action = str "getclarifications") (hrow : db.contest.clarification[id]? = some row)
    (hasked : db.contest.clarificationRequest[row.clarificationReqId]? = some asked) :
    Pulled ⟨update, request, "id", id⟩ (replies ((Process.process s cc mb).run db).2.1) ↔
      (getId s db.peer ≠ 0 ∧ cc.permissions .auth = true ∧ Quoted db.contest (userOrAll cc .seeAllClarifications)) ∧
        (row.isPublic = true ∨ (cc.userId = asked.userId ∨ cc.permissions .seeAllClarifications = true) ∨
          cc.userId = 0) := by
  have hfind : findAction mb.action = some .getclarifications := by
    rw [hmb]
    decide
  have hanswer : answer s cc mb .getclarifications = Answer.reply <$> actGetClarifications s cc := rfl
  have hpulled := pulled_iff (w := ⟨update, request, "id", id⟩) msg_ne_id hfind rfl hanswer fun reply hreply => by
    obtain ⟨list, hlist, rfl⟩ := result_actGetClarifications hreply
    exact listed_clarification s.clarificationOrder hrow hasked hlist
  rw [hpulled, returns_actGetClarifications, or_left_comm, userOrAll_iff]

theorem quoted_put {c c' : Contest} {id uid : Nat} {row : Clarification} (h : putClarification c id row = some c')
    (hrequest : row.clarificationReqId ∈ c.clarificationRequest) : Quoted c' uid ↔ Quoted c uid := by
  obtain ⟨hnew, rfl⟩ := Table.map_insertNew.mp h
  constructor
  · intro hquoted id' row' hrow'
    refine hquoted id' row' ?_
    change (c.clarification.insert id row)[id']? = _
    rw [Table.getElem?_insert_row, if_neg, hrow']
    rintro rfl
    exact hnew (Table.mem_iff_exists_row.mpr ⟨row', hrow'⟩)
  · intro hquoted id' row' hrow' hvisible
    change (c.clarification.insert id row)[id']? = _ at hrow'
    rw [Table.getElem?_insert_row] at hrow'
    split at hrow'
    · cases hrow'
      exact hrequest
    · exact hquoted id' row' hrow' hvisible

end

section

variable {s : Server} {cc : Connection} {mb : MessageBlock} {db db' : Db} {env : Env} {key : MessageKey} {w : Watch}
  {os : List Output}

theorem pushed_broadcast {userId : Nat} {permission : Permission} {block : MessageBlock}
    (haction : block.action = str w.update) :
    Pushed cc w [.broadcastEvent userId permission block] ↔ cc.userId = userId ∨ cc.permissions permission = true := by
  constructor
  · rintro ⟨o, hmem, sent, hsent, -⟩
    obtain rfl := List.mem_singleton.mp hmem
    by_contra hnot
    cases (if_neg hnot).symm.trans hsent
  · exact fun hreached => ⟨_, List.mem_singleton_self _, block, if_pos hreached, haction⟩

theorem not_pushed_of_forall {rest : List Output} (h : ∀ o ∈ rest, sentTo cc o = none) : ¬Pushed cc w rest := by
  rintro ⟨o, ho, block, hsent, -⟩
  cases (h o ho).symm.trans hsent

theorem pushed_append {first second : List Output} :
    Pushed cc w (first ++ second) ↔ Pushed cc w first ∨ Pushed cc w second := by
  simp only [Pushed, List.mem_append, or_and_right, exists_or]

theorem submissionAttrs_of_listed {c : Contest} {id : Nat} {row : Submission} (hrow : c.submission[id]? = some row)
    (h : (getSubmission c id).isEmpty = false) : ∃ attrs, submissionAttrs c id row = some attrs := by
  rw [getSubmission, hrow] at h
  dsimp only at h
  cases hattrs : submissionAttrs c id row with
  | none =>
    rw [hattrs] at h
    cases h
  | some attrs => exact ⟨attrs, rfl⟩

theorem submission_spec {m : SubmissionMessage} (hdb : InRange db.contest) (hm : Fits (.submission m))
    (hw : watch (.submission m) = some w) (hmb : mb.action = str w.request)
    (h : Prog.Runs (Peer.Process.process env key (.submission m)) db os db' true) :
    (Pushed cc w os ↔ Addressed cc db.contest (.submission m)) ∧
      (Pulled w (replies ((Process.process s cc mb).run db').2.1) ↔
        Answerable s cc db (.submission m) ∧ (Addressed cc db.contest (.submission m) ∨ cc.userId = 0)) := by
  cases hw
  have hrange : InRange db'.contest := (runs_iff.mp h).1 ▸ hdb.process hm env key
  obtain ⟨d, hint, rfl⟩ := runs_process h
  obtain ⟨c', block, rest, hput, rfl, hlisted, rfl, haction, hrest⟩ := runs_submission hint
  obtain ⟨row, hrow, howner⟩ : ∃ row, c'.submission[m.submissionId]? = some row ∧ row.userId = m.userId := by
    obtain ⟨-, rfl⟩ := Table.map_insertNew.mp hput
    exact ⟨_, Std.ExtTreeMap.getElem?_insert_self, rfl⟩
  obtain ⟨attrs, hattrs⟩ := submissionAttrs_of_listed hrow hlisted
  have hothers : ¬Pushed cc ⟨"updatesubmissions", "getsubmissions", "submission_id", m.submissionId⟩ rest := by
    refine not_pushed_of_forall fun o ho => ?_
    rw [hrest o ho]
    rfl
  constructor
  · rw [← List.singleton_append, pushed_append, or_iff_left hothers]
    exact pushed_broadcast haction
  · rw [pulled_submission hrange hmb hrow hattrs, howner]
    refine and_congr_left fun _ => ?_
    constructor
    · exact fun h => ⟨h.1, h.2, nofun⟩
    · exact fun h => ⟨h.initialised, h.permitted⟩

theorem request_spec {m : ClarificationMessage} (hrequest : m.request ≠ 0) (hw : watch (.clarification m) = some w)
    (hmb : mb.action = str w.request) (h : Prog.Runs (Peer.Process.process env key (.clarification m)) db os db' true) :
    (Pushed cc w os ↔ Addressed cc db.contest (.clarification m)) ∧
      (Pulled w (replies ((Process.process s cc mb).run db').2.1) ↔
        Answerable s cc db (.clarification m) ∧ (Addressed cc db.contest (.clarification m) ∨ cc.userId = 0)) := by
  rw [watch, if_pos hrequest] at hw
  cases hw
  obtain ⟨d, hint, rfl⟩ := runs_process h
  rw [Peer.Process.intProcess, ClarificationMessage.intProcess, if_pos hrequest] at hint
  obtain ⟨c', block, hput, rfl, rfl, haction⟩ := runs_processRequest hint
  have hrow : c'.clarificationRequest[m.clarificationRequestId]? =
      some { userId := m.userId, time := m.time, problemId := m.probId, text := m.text } := by
    obtain ⟨-, rfl⟩ := Table.map_insertNew.mp hput
    exact Std.ExtTreeMap.getElem?_insert_self
  rw [Addressed, if_pos hrequest]
  constructor
  · exact pushed_broadcast haction
  · rw [pulled_request hmb hrow]
    refine and_congr_left fun _ => ?_
    constructor
    · exact fun h => ⟨h.1, h.2, fun hreply => absurd (of_decide_eq_true hreply) hrequest⟩
    · exact fun h => ⟨h.initialised, h.permitted⟩

theorem reply_spec {m : ClarificationMessage} (hdb : InRange db.contest) (hrequest : m.request = 0)
    (hw : watch (.clarification m) = some w) (hmb : mb.action = str w.request)
    (h : Prog.Runs (Peer.Process.process env key (.clarification m)) db os db' true) :
    (Pushed cc w os ↔ Addressed cc db.contest (.clarification m)) ∧
      (Pulled w (replies ((Process.process s cc mb).run db').2.1) ↔
        Answerable s cc db (.clarification m) ∧ (Addressed cc db.contest (.clarification m) ∨ cc.userId = 0)) := by
  have hnot : ¬m.request ≠ 0 := not_not.mpr hrequest
  rw [watch, if_neg hnot] at hw
  cases hw
  obtain ⟨d, hint, rfl⟩ := runs_process h
  rw [Peer.Process.intProcess, ClarificationMessage.intProcess, if_neg hnot] at hint
  obtain ⟨c', request, block, hput, rfl, hasked, rfl, haction⟩ := runs_processReply hdb hint
  obtain ⟨row, hrow, hreq, hpublic⟩ : ∃ row, c'.clarification[m.clarificationId]? = some row ∧
      c'.clarificationRequest[row.clarificationReqId]? = some request ∧ row.isPublic = decide (m.probId ≠ 0) := by
    obtain ⟨-, rfl⟩ := Table.map_insertNew.mp hput
    exact ⟨_, Std.ExtTreeMap.getElem?_insert_self, hasked, rfl⟩
  have hquoted : Quoted c' (userOrAll cc .seeAllClarifications) ↔
      Quoted db.contest (userOrAll cc .seeAllClarifications) :=
    quoted_put hput (Table.mem_iff_exists_row.mpr ⟨request, hasked⟩)
  have hanswerable : Answerable s cc db (.clarification m) ↔ getId s db.peer ≠ 0 ∧ cc.permissions .auth = true ∧
      Quoted db.contest (userOrAll cc .seeAllClarifications) :=
    ⟨fun h => ⟨h.initialised, h.permitted, h.quoted (decide_eq_true hrequest)⟩, fun h => ⟨h.1, h.2.1, fun _ => h.2.2⟩⟩
  rw [pulled_clarification hmb hrow hreq, hquoted, hanswerable, hpublic, Addressed, if_neg hnot]
  by_cases hprob : m.probId ≠ 0
  · rw [if_pos hprob, if_pos hprob, decide_eq_true hprob]
    refine ⟨pushed_broadcast haction, ?_⟩
    constructor
    · exact fun h => ⟨h.1, .inl (.inr h.1.2.1)⟩
    · exact fun h => ⟨h.1, .inl rfl⟩
  · rw [if_neg hprob, if_neg hprob, decide_eq_false hprob, hasked]
    have howner : (∃ r ∈ some request, cc.userId = r.userId) ↔ cc.userId = request.userId := by simp
    rw [howner]
    refine ⟨pushed_broadcast haction, and_congr_right fun _ => ?_⟩
    rw [or_iff_right Bool.false_ne_true]

theorem message_spec (s : Server) (cc : Connection) (mb : MessageBlock) {m : Message} (hdb : InRange db.contest)
    (hm : Fits m) (hw : watch m = some w)
    (hmb : mb.action = str w.request) (h : Prog.Runs (Peer.Process.process env key m) db os db' true) :
    (Pushed cc w os ↔ Addressed cc db.contest m) ∧
      (Pulled w (replies ((Process.process s cc mb).run db').2.1) ↔
        Answerable s cc db m ∧ (Addressed cc db.contest m ∨ cc.userId = 0)) := by
  cases m with
  | submission m => exact submission_spec hdb hm hw hmb h
  | clarification m =>
    by_cases hrequest : m.request = 0
    · exact reply_spec hdb hrequest hw hmb h
    · exact request_spec hrequest hw hmb h
  | createServer m | createUser m | createGroup m | passwd m | prob m | startStop m | mark m | bonus m => cases hw

end

theorem agree_iff_concord (s : Server) (cc : Connection) (env : Env) (key : MessageKey) (m : Message) (w : Watch)
    (mb : MessageBlock) (db : Db) (hdb : InRange db.contest) (hm : Fits m) (hw : watch m = some w)
    (hmb : mb.action = str w.request) (hprocessed : (Peer.Process.process env key m).result db = .ok true) :
    Agree s cc env key m w mb db ↔ Concord s cc db m := by
  have hruns := runs_iff.mpr ⟨rfl, rfl, hprocessed⟩
  obtain ⟨hpushed, hpulled⟩ := message_spec s cc mb hdb hm hw hmb hruns
  rw [Agree, hpushed, hpulled, Concord]
  constructor
  · intro hagree
    exact ⟨fun haddressed => (hagree.mp haddressed).1, fun hanswerable hzero => hagree.mpr ⟨hanswerable, .inr hzero⟩⟩
  · rintro ⟨hanswered, hzero⟩
    constructor
    · exact fun haddressed => ⟨hanswered haddressed, .inl haddressed⟩
    · rintro ⟨hanswerable, haddressed | huser⟩
      · exact haddressed
      · exact hzero hanswerable huser

def asked : Contest where
  __ := Contest.empty
  clarificationRequest := (∅ : Table Nat ClarificationRequest).insert 5
    { userId := 33, time := 100, problemId := 0, text := str "May we use C?" }

def orphaned : Contest where
  __ := asked
  clarification := (∅ : Table Nat Clarification).insert 18
    { clarificationReqId := 21, userId := 2, time := 110, isPublic := true, text := str "No." }

def publicReply : Message := .clarification
  { request := 0, clarificationRequestId := 5, clarificationId := 2, userId := 2, probId := 1, time := 120,
    serverId := 2, text := str "Yes." }

def getClarificationsRequest : MessageBlock := MessageBlock.ofAction (str "getclarifications")

theorem agree_publicReply :
    Agree server contestant default ⟨2, 1⟩ publicReply ⟨"updateclarifications", "getclarifications", "id", 2⟩
    getClarificationsRequest ⟨.empty, asked⟩ := by
  have hdb : InRange asked :=
    ⟨Table.forall_rows (by decide), Table.forall_rows (by decide), Table.forall_rows (by decide)⟩
  refine (agree_iff_concord server contestant default ⟨2, 1⟩ publicReply _ _ _ hdb (by decide) rfl rfl
    (by decide +kernel)).mpr ?_
  have hanswerable : Answerable server contestant ⟨.empty, asked⟩ publicReply := ⟨by decide, by decide, fun _ => nofun⟩
  exact ⟨fun _ => hanswerable, fun _ hzero => absurd hzero (by decide)⟩

/-- The update is sent, and the list cannot be shown because of another clarification. -/
theorem not_agree_orphaned :
    InRange orphaned ∧ (Peer.Process.process default ⟨2, 1⟩ publicReply).result ⟨.empty, orphaned⟩ = .ok true ∧
    ¬Agree server contestant default ⟨2, 1⟩ publicReply ⟨"updateclarifications", "getclarifications", "id", 2⟩
      getClarificationsRequest ⟨.empty, orphaned⟩ := by
  have hdb : InRange orphaned :=
    ⟨Table.forall_rows (by decide), Table.forall_rows (by decide), Table.forall_rows (by decide)⟩
  have hprocessed : (Peer.Process.process default ⟨2, 1⟩ publicReply).result ⟨.empty, orphaned⟩ = .ok true := by
    decide +kernel
  refine ⟨hdb, hprocessed, fun hagree => ?_⟩
  obtain ⟨hpushed, hpulled⟩ := message_spec server contestant getClarificationsRequest hdb (by decide)
    (rfl : watch publicReply = some _) rfl (runs_iff.mpr ⟨rfl, rfl, hprocessed⟩)
  have haddressed : Addressed contestant orphaned publicReply := .inr (by decide)
  obtain ⟨hanswerable, -⟩ := hpulled.mp (hagree.mp (hpushed.mpr haddressed))
  have hquoted := hanswerable.quoted rfl 18 _ rfl (.inr rfl)
  exact absurd hquoted (by decide)

end Abacus.Client.Updates
