import Abacus.Client.Action

/-! # The numbers of new rows

A handler asks a counter for the number of a new row, which is inserted when the message is processed.
Processing never deletes a numbered row.
-/

namespace Abacus.Client.Numbers

open Library Library.Bytes Database.Schema Database.Peer Database.Marks Database.Problems Database.People
open Peer.Classes Peer.Process Peer.Statements Client.Action

/-- The number and the table of the row that a message is to insert. A problem without a type is not inserted. -/
def numberOf : Message → Option (Counter × Nat)
  | .submission m => some (.submission, m.submissionId)
  | .clarification m =>
    if m.request ≠ 0 then some (.clarificationRequest, m.clarificationRequestId)
    else some (.clarification, m.clarificationId)
  | .prob m => if m.type ≠ [] then some (.problem, m.probId) else none
  | .createUser m => some (.user, m.userId)
  | .createGroup m => some (.group, m.groupId)
  | .createServer m => some (.server, m.serverId)
  | .passwd _ | .startStop _ | .mark _ | .bonus _ => none

def HasRow (db : Db) : Counter → Nat → Prop
  | .submission, id => id ∈ db.contest.submission
  | .clarificationRequest, id => id ∈ db.contest.clarificationRequest
  | .clarification, id => id ∈ db.contest.clarification
  | .problem, id => id ∈ db.contest.problem
  | .user, id => id ∈ db.contest.user
  | .group, id => id ∈ db.contest.group
  | .server, id => id ∈ db.peer.server

section

structure Keeps (c c' : Contest) : Prop where
  submission : ∀ id ∈ c.submission, id ∈ c'.submission := by exact fun _ h => h
  clarificationRequest : ∀ id ∈ c.clarificationRequest, id ∈ c'.clarificationRequest := by exact fun _ h => h
  clarification : ∀ id ∈ c.clarification, id ∈ c'.clarification := by exact fun _ h => h
  problem : ∀ id ∈ c.problem, id ∈ c'.problem := by exact fun _ h => h
  user : ∀ id ∈ c.user, id ∈ c'.user := by exact fun _ h => h
  group : ∀ id ∈ c.group, id ∈ c'.group := by exact fun _ h => h

variable {scope : Scope} {m : Message} {k : Counter} {id : Nat} {db : Db}

theorem mem_modify_row {ρ : Type} {t : Table Nat ρ} {id id' : Nat} {f : ρ → ρ} (h : id' ∈ t) : id' ∈ t.modify id f :=
  Std.ExtTreeMap.mem_modify.mpr h

theorem mem_insert_of_mem {ρ : Type} {t : Table Nat ρ} {id id' : Nat} {r : ρ} (h : id' ∈ t) : id' ∈ t.insert id r :=
  Table.mem_insert_row.mpr (.inr h)

theorem keeps_statement {f : Contest → Option Contest} {c c' : Contest} (hf : Statement scope m f)
    (hc : f c = some c') : Keeps c c' := by
  cases hf with
  | setBonus m | setPassword m =>
    cases hc
    exact { user := fun _ h => mem_modify_row h }
  | putClarificationRequest m =>
    obtain ⟨-, rfl⟩ := Table.map_insertNew.mp hc
    exact { clarificationRequest := fun _ h => mem_insert_of_mem h }
  | putClarification m =>
    obtain ⟨-, rfl⟩ := Table.map_insertNew.mp hc
    exact { clarification := fun _ h => mem_insert_of_mem h }
  | putSubmission m =>
    obtain ⟨-, rfl⟩ := Table.map_insertNew.mp hc
    exact { submission := fun _ h => mem_insert_of_mem h }
  | addUser m =>
    obtain ⟨-, -, rfl⟩ := Table.map_insertUnique.mp hc
    exact { user := fun _ h => mem_insert_of_mem h }
  | addGroup m =>
    obtain ⟨-, -, rfl⟩ := Table.map_insertUnique.mp hc
    exact { group := fun _ h => mem_insert_of_mem h }
  | setProblemType m _ =>
    cases hc
    exact { problem := fun _ h => mem_insert_of_mem h }
  | setProblemUpdateTime m =>
    cases hc
    exact { problem := fun _ h => mem_modify_row h }
  | putMark m | setServerAttribute m _ _ | putStartStop m | deleteAttributeRow m _ _ | deleteFileDataRow m _ _
  | delProblemDependency m _ _ _ =>
    cases hc
    exact {}
  | putMarkFile m _ _ | insertAttributeRow m _ _ _ | insertFileDataRow m _ _ _ _ | addProblemDependency m _ _ =>
    obtain ⟨t, -, rfl⟩ := Option.map_eq_some_iff.mp hc
    exact {}

theorem server_of_peerStatement {f : PeerTables → Option PeerTables} {t t' : PeerTables} (hf : PeerStatement m f)
    (ht : f t = some t') : ∀ id ∈ t.server, id ∈ t'.server := by
  cases hf with
  | insertServer m =>
    obtain ⟨-, rfl⟩ := Table.map_insertNew.mp ht
    exact fun _ h => mem_insert_of_mem h
  | insertNoAck m =>
    dsimp only [insertNoAck] at ht
    split at ht
    · cases ht
      exact fun _ h => h
    · cases ht

theorem HasRow.of_keeps {db' : Db} (h : HasRow db k id) (hcontest : Keeps db.contest db'.contest)
    (hserver : ∀ id ∈ db.peer.server, id ∈ db'.peer.server) : HasRow db' k id := by
  cases k with
  | submission => exact hcontest.submission id h
  | clarificationRequest => exact hcontest.clarificationRequest id h
  | clarification => exact hcontest.clarification id h
  | problem => exact hcontest.problem id h
  | user => exact hcontest.user id h
  | group => exact hcontest.group id h
  | server => exact hserver id h

theorem hasRow_executes (w : Db → Option Db) (hw : Executes scope m w) (d d' : Db) (h : HasRow d k id)
    (hd : w d = some d') : HasRow d' k id := by
  obtain ⟨f, hf, rfl⟩ | ⟨f, hf, rfl⟩ := hw
  · obtain ⟨c, hc, rfl⟩ := Option.map_eq_some_iff.mp hd
    exact h.of_keeps (keeps_statement hf hc) fun _ h => h
  · obtain ⟨t, ht, rfl⟩ := Option.map_eq_some_iff.mp hd
    exact h.of_keeps {} (server_of_peerStatement hf ht)

theorem HasRow.final_intProcess (h : HasRow db k id) (env : Env) (m : Message) :
    HasRow ((intProcess env m).final db) k id :=
  Prog.Limits.final (I := fun db => HasRow db k id) hasRow_executes (limits_intProcess env m) h

theorem HasRow.crashAfter (h : HasRow db k id) (env : Env) (m : Message) (n : Nat) :
    HasRow ((intProcess env m).crashAfter n db) k id :=
  Prog.Limits.crashAfter (I := fun db => HasRow db k id) hasRow_executes (limits_intProcess env m) n h

theorem hasRow_markProcessed {key : MessageKey} (h : HasRow db k id) :
    HasRow { db with peer := markProcessed db.peer key } k id :=
  h.of_keeps {} fun _ h => h

end

section

variable {k : Counter} {id : Nat} {db : Db} {env : Env}

theorem hasRow_of_insertion {w : Db → Option Db} {rest : Bool → DbProg Bool} {m : Message}
    (hrest : Prog.Limits (fun db => HasRow db k id) (Executes .any m) (Throws m) (rest true))
    (hfails : (rest false).result db ≠ .ok true) (hinserts : ∀ db', w db = some db' → HasRow db' k id)
    (hok : (Prog.write w >>= rest).result db = .ok true) : HasRow ((Prog.write w >>= rest).final db) k id := by
  rw [Prog.result_write_bind] at hok
  rw [Prog.final_write_bind]
  cases hw : w db with
  | none =>
    rw [hw] at hok
    exact absurd hok hfails
  | some db' => exact Prog.Limits.final (I := fun db => HasRow db k id) hasRow_executes hrest (hinserts db' hw)

theorem hasRow_submission {m : SubmissionMessage} (hok : (SubmissionMessage.intProcess env m).result db = .ok true) :
    HasRow ((SubmissionMessage.intProcess env m).final db) .submission m.submissionId := by
  refine hasRow_of_insertion (m := .submission m) (limits_notify env m (.submission m)) nofun (fun db' hdb' => ?_) hok
  obtain ⟨c, hc, rfl⟩ := Option.map_eq_some_iff.mp hdb'
  obtain ⟨-, rfl⟩ := Table.map_insertNew.mp hc
  exact Std.ExtTreeMap.mem_insert_self

theorem hasRow_createGroup {m : MessageCreateGroup} (hok : (MessageCreateGroup.intProcess env m).result db = .ok true) :
    HasRow ((MessageCreateGroup.intProcess env m).final db) .group m.groupId := by
  refine hasRow_of_insertion (m := .createGroup m) ?_ nofun (fun db' hdb' => ?_) hok
  · exact Prog.limits_bind (Prog.limits_output _) fun _ => Prog.limits_pure true
  obtain ⟨c, hc, rfl⟩ := Option.map_eq_some_iff.mp hdb'
  obtain ⟨-, -, rfl⟩ := Table.map_insertUnique.mp hc
  exact Std.ExtTreeMap.mem_insert_self

theorem hasRow_createUser {m : MessageCreateUser} (hok : (MessageCreateUser.intProcess m).result db = .ok true) :
    HasRow ((MessageCreateUser.intProcess m).final db) .user m.userId := by
  refine hasRow_of_insertion (m := .createUser m) ?_ ?_ (fun db' hdb' => ?_) hok
  · dsimp only
    split
    · exact Prog.limits_bind (Prog.limits_output _) fun _ => Prog.limits_pure true
    · exact Prog.limits_pure true
  · dsimp only
    split <;> exact nofun
  obtain ⟨c, hc, rfl⟩ := Option.map_eq_some_iff.mp hdb'
  obtain ⟨-, -, rfl⟩ := Table.map_insertUnique.mp hc
  exact Std.ExtTreeMap.mem_insert_self

theorem hasRow_createServer {m : MessageCreateServer}
    (hok : (MessageCreateServer.intProcess env m).result db = .ok true) :
    HasRow ((MessageCreateServer.intProcess env m).final db) .server m.serverId := by
  refine hasRow_of_insertion (m := .createServer m) ((limits_createServer env m).2 true) nofun (fun db' hdb' => ?_) hok
  obtain ⟨t, ht, rfl⟩ := Option.map_eq_some_iff.mp hdb'
  obtain ⟨-, rfl⟩ := Table.map_insertNew.mp ht
  exact Std.ExtTreeMap.mem_insert_self

theorem hasRow_request {m : ClarificationMessage} (hrequest : m.request ≠ 0)
    (hok : (ClarificationMessage.processRequest m).result db = .ok true) :
    HasRow ((ClarificationMessage.processRequest m).final db) .clarificationRequest m.clarificationRequestId := by
  refine hasRow_of_insertion (m := .clarification m) ((limits_processRequest m hrequest).2 true) nofun
    (fun db' hdb' => ?_) hok
  obtain ⟨c, hc, rfl⟩ := Option.map_eq_some_iff.mp hdb'
  obtain ⟨-, rfl⟩ := Table.map_insertNew.mp hc
  exact Std.ExtTreeMap.mem_insert_self

theorem hasRow_reply {m : ClarificationMessage} (hreply : m.request = 0)
    (hok : (ClarificationMessage.processReply m).result db = .ok true) :
    HasRow ((ClarificationMessage.processReply m).final db) .clarification m.clarificationId := by
  rw [ClarificationMessage.processReply, readContest, Prog.result_read_bind] at hok
  rw [ClarificationMessage.processReply, readContest, Prog.final_read_bind]
  have hreads : Prog.Limits (fun _ => True) (Executes .any (.clarification m)) (Throws (.clarification m))
      (ClarificationMessage.processReply m) := limits_processReply m hreply
  refine hasRow_of_insertion (m := .clarification m) ?_ (by simp) (fun db' hdb' => ?_) hok
  · exact ((hreads db trivial).2 true).mono (fun _ _ => trivial) (fun _ h => h) fun _ h => h
  obtain ⟨c, hc, rfl⟩ := Option.map_eq_some_iff.mp hdb'
  obtain ⟨-, rfl⟩ := Table.map_insertNew.mp hc
  exact Std.ExtTreeMap.mem_insert_self

theorem hasRow_prob {m : ProbMessage} (htype : m.type ≠ []) (hok : (ProbMessage.intProcess m).result db = .ok true) :
    HasRow ((ProbMessage.intProcess m).final db) .problem m.probId := by
  by_cases hrow : m.probId ∈ db.contest.problem
  · exact Prog.Limits.final (I := fun db => HasRow db .problem m.probId) (W := Executes .any (.prob m)) hasRow_executes
      (limits_prob m) hrow
  have hnew : getProblemType db.contest m.probId = [] := by
    rw [getProblemType, Std.ExtTreeMap.getElem?_eq_none hrow]
    rfl
  unfold ProbMessage.intProcess at hok ⊢
  by_cases herror : m.probId = 4294967295
  · rw [if_pos herror] at hok
    cases hok
  rw [if_neg herror, readContest, Prog.final_read_bind, hnew, if_neg (not_not.mpr rfl), ProbMessage.apply,
    ProbMessage.setType, if_pos (Ne.symm htype), setContest, Prog.final_set_bind]
  have hlimits : Prog.Limits (fun db => HasRow db .problem m.probId) (Executes .any (.prob m)) (Throws (.prob m)) (do
      let ok ← ProbMessage.setAttributes m
      ProbMessage.setUpdateTime m ok
      ProbMessage.setDependencies m
      return ok) :=
    Prog.limits_bind (limits_setProblemAttributes m) fun ok => Prog.limits_bind (limits_setUpdateTime m ok) fun _ =>
      Prog.limits_bind (limits_setDependencies m fun _ _ _ _ => trivial) fun _ => Prog.limits_pure ok
  apply Prog.Limits.final (I := fun db => HasRow db .problem m.probId) hasRow_executes hlimits
  exact Std.ExtTreeMap.mem_insert_self

/-- A message that can be marked as processed has its row. -/
theorem hasRow_of_processed {m : Message} (hnumber : numberOf m = some (k, id))
    (hok : (intProcess env m).result db = .ok true) : HasRow ((intProcess env m).final db) k id := by
  cases m with
  | createServer m =>
    cases hnumber
    exact hasRow_createServer hok
  | createUser m =>
    cases hnumber
    exact hasRow_createUser hok
  | createGroup m =>
    cases hnumber
    exact hasRow_createGroup hok
  | submission m =>
    cases hnumber
    exact hasRow_submission hok
  | prob m =>
    obtain ⟨htype, hnumber⟩ := Option.ite_none_right_eq_some.mp hnumber
    cases hnumber
    exact hasRow_prob htype hok
  | clarification m =>
    unfold intProcess ClarificationMessage.intProcess at hok ⊢
    dsimp only at hok ⊢
    by_cases hrequest : m.request ≠ 0
    · rw [numberOf, if_pos hrequest] at hnumber
      rw [if_pos hrequest] at hok ⊢
      cases hnumber
      exact hasRow_request hrequest hok
    · rw [numberOf, if_neg hrequest] at hnumber
      rw [if_neg hrequest] at hok ⊢
      cases hnumber
      exact hasRow_reply (not_not.mp hrequest) hok
  | passwd m | startStop m | mark m | bonus m => cases hnumber

end

section

variable {s : Server} {self id : Nat} {k : Counter} {db : Db} {t t' : PeerTables} {key : MessageKey}
  {row : PeerMessage}

theorem le_foldl_max (l : List Nat) (a : Nat) : a ≤ l.foldl max a ∧ ∀ x ∈ l, x ≤ l.foldl max a := by
  induction l generalizing a with
  | nil => exact ⟨le_refl a, nofun⟩
  | cons y l ih =>
    obtain ⟨hbase, hl⟩ := ih (max a y)
    refine ⟨(le_max_left a y).trans hbase, List.forall_mem_cons.mpr ⟨?_, hl⟩⟩
    exact (le_max_right a y).trans hbase

theorem foldl_max_mem (l : List Nat) (a : Nat) : l.foldl max a = a ∨ l.foldl max a ∈ l := by
  induction l generalizing a with
  | nil => exact .inl rfl
  | cons y l ih =>
    rw [List.foldl_cons]
    obtain hbase | hmem := ih (max a y)
    · rw [hbase]
      obtain hmax | hmax := max_choice a y
      · exact .inl hmax
      · rw [hmax]
        exact .inr List.mem_cons_self
    · exact .inr (List.mem_cons_of_mem y hmem)

theorem and_mask (id : Nat) : id &&& (idGranularity - 1) = id % idGranularity := Nat.and_two_pow_sub_one_eq_mod id 4

def rowNumbers (db : Db) : Counter → List Nat
  | .submission => db.contest.submission.keys
  | .clarificationRequest => db.contest.clarificationRequest.keys
  | .clarification => db.contest.clarification.keys
  | .problem => db.contest.problem.keys
  | .user => db.contest.user.keys
  | .group => db.contest.group.keys
  | .server => db.peer.server.keys

theorem mem_rowNumbers : id ∈ rowNumbers db k ↔ HasRow db k id := by
  cases k <;> exact Std.ExtTreeMap.mem_keys

theorem maxId_eq (hk : k ≠ .server) : maxId db self k = maxOwnId self (rowNumbers db k) := by
  cases k with
  | server => exact absurd rfl hk
  | _ => rfl

theorem le_maxId (hk : k ≠ .server) (h : HasRow db k id) (hid : id % idGranularity = self) : id ≤ maxId db self k := by
  rw [maxId_eq hk, maxOwnId]
  refine (le_foldl_max _ 0).2 id (List.mem_filter.mpr ⟨mem_rowNumbers.mpr h, ?_⟩)
  rw [and_mask, hid]
  exact decide_eq_true rfl

theorem maxId_mod (hk : k ≠ .server) : maxId db self k = 0 ∨ maxId db self k % idGranularity = self := by
  rw [maxId_eq hk, maxOwnId]
  refine (foldl_max_mem _ 0).imp_right fun hmem => ?_
  have hmask := of_decide_eq_true (List.mem_filter.mp hmem).2
  rwa [and_mask] at hmask

theorem le_maxId_server (h : HasRow db .server id) : id ≤ maxId db self .server := by
  have hmem : id ∈ db.peer.server.keys := Std.ExtTreeMap.mem_keys.mpr h
  have hne : db.peer.server.keys ≠ [] := List.ne_nil_of_mem hmem
  rw [maxId, if_neg hne]
  exact (le_foldl_max _ 0).2 id hmem

def current (s : Server) (db : Db) (k : Counter) : Nat :=
  if s.counters k = 0 then maxId db (getId s db.peer) k else s.counters k

theorem nextNumber_of_lt (hk : k ≠ .server) (hcurrent : current s db k + idGranularity < 4294967295) :
    nextNumber s db k = some (if current s db k = 0 then getId s db.peer else current s db k + idGranularity) := by
  have hwrap : wrap32 (current s db k + idGranularity) = current s db k + idGranularity := Nat.mod_eq_of_lt (by omega)
  have hfound : ¬(s.counters k = 0 ∧ current s db k = 4294967295) := by omega
  have heq : nextNumber s db k = if s.counters k = 0 ∧ current s db k = 4294967295 then none
      else some (if current s db k = 0 then getId s db.peer else wrap32 (current s db k + idGranularity)) := by
    cases k with
    | server => exact absurd rfl hk
    | _ => rfl
  rw [heq, if_neg hfound, hwrap]

theorem nextNumber_server (hpos : current s db .server ≠ 0) (hcurrent : current s db .server < 4294967295) :
    nextNumber s db .server = some (current s db .server + 1) := by
  have hwrap : wrap32 (current s db .server + 1) = current s db .server + 1 := Nat.mod_eq_of_lt (by omega)
  have hfound : ¬(s.counters .server = 0 ∧ current s db .server = 4294967295) := by omega
  have heq : nextNumber s db .server = if s.counters .server = 0 ∧ current s db .server = 4294967295 then none
      else if current s db .server = 0 then none else some (wrap32 (current s db .server + 1)) := rfl
  rw [heq, if_neg hfound, if_neg hpos, hwrap]

structure Adds (t t' : PeerTables) (key : MessageKey) (row : PeerMessage) : Prop where
  free : key ∉ t.peerMessage
  messages : t'.peerMessage = t.peerMessage.insert key row
  server : t'.server = t.server

theorem adds_insertPeerMessage (batch : Finset (MessageKey × Nat)) (h : insertPeerMessage t key row = some t') :
    Adds t (orElse t' (insertNoAck t' batch)) key row := by
  obtain ⟨hfree, rfl⟩ := Table.map_insertNew.mp h
  rw [orElse, insertNoAck]
  split
  · exact ⟨hfree, rfl, rfl⟩
  · exact ⟨hfree, rfl, rfl⟩

theorem makeMessage_cases (self : Nat) (t : PeerTables) (now : Nat) (fresh : Peer.Store.Fresh) (m : Message) :
    Peer.Store.makeMessage self now fresh t m = (t, none) ∨
    ∃ t' key row, Peer.Store.makeMessage self now fresh t m = (t', some key) ∧ key.1 = self ∧ row.processed = false ∧
      Adds t t' key row := by
  unfold Peer.Store.makeMessage
  split
  · exact .inl rfl
  · next size _ =>
    unfold putLocalMessage
    dsimp only
    split
    · exact .inl rfl
    · next t' ht' => exact .inr ⟨_, _, _, rfl, rfl, rfl, adds_insertPeerMessage _ ht'⟩

theorem putRemoteMessage_cases (self : Nat) (t : PeerTables) (key : MessageKey) (row : PeerMessage) :
    putRemoteMessage self t key row = (t, false) ∨
    ∃ t', putRemoteMessage self t key row = (t', true) ∧ Adds t t' key row := by
  unfold putRemoteMessage
  split
  · exact .inl rfl
  · next t' ht' => exact .inr ⟨_, rfl, adds_insertPeerMessage _ ht'⟩

end

end Abacus.Client.Numbers
