import Abacus.Library.Machine
import Abacus.Peer.Statements

/-! # When processing returns

Processing throws if a mark finds no submission that the queries can list, or a reply no request to quote.
Every other message is processed in any order.
-/

namespace Abacus.Peer.Totality

open Library Library.Bytes Misc Database.Schema Database.Peer Database.Marks Database.Problems Database.People
open Peer.Classes Peer.Process Peer.Statements

/-- The numbers that are printed by queries and read back. -/
structure InRange (c : Contest) : Prop where
  submission : ∀ (id : Nat) (s : Submission), c.submission[id]? = some s → id < 4294967296 ∧ s.time < 4294967296
  user : ∀ (id : Nat) (u : User), c.user[id]? = some u → u.group < 4294967296
  request : ∀ (id : Nat) (r : ClarificationRequest), c.clarificationRequest[id]? = some r → r.userId < 4294967296

def Fits : Message → Prop
  | .createUser m => m.groupId < 4294967296
  | .submission m => m.submissionId < 4294967296 ∧ m.time < 4294967296
  | .clarification m => m.userId < 4294967296
  | _ => True

instance : DecidablePred Fits
  | .createUser m => inferInstanceAs (Decidable (m.groupId < 4294967296))
  | .submission m => inferInstanceAs (Decidable (m.submissionId < 4294967296 ∧ m.time < 4294967296))
  | .clarification m => inferInstanceAs (Decidable (m.userId < 4294967296))
  | .createServer _ | .createGroup _ | .passwd _ | .prob _ | .startStop _ | .mark _ | .bonus _ => isTrue trivial

section

variable {c c' : Contest} {m : Message} {f : Contest → Option Contest}

theorem InRange.of_eq (h : InRange c) (hs : c'.submission = c.submission) (hu : c'.user = c.user)
    (hr : c'.clarificationRequest = c.clarificationRequest) : InRange c' where
  submission := hs ▸ h.submission
  user := hu ▸ h.user
  request := hr ▸ h.request

theorem InRange.modify_user (h : InRange c) (id : Nat) (g : User → User) (hg : ∀ u, (g u).group = u.group) :
    InRange { c with user := c.user.modify id g } where
  submission := h.submission
  user := by
    intro id' u hu
    rw [Std.ExtTreeMap.getElem?_modify] at hu
    split at hu
    · obtain ⟨u', hu', rfl⟩ := Option.map_eq_some_iff.mp hu
      rw [hg]
      exact h.user _ u' hu'
    · exact h.user id' u hu
  request := h.request

theorem InRange.statement (scope : Scope) (hm : Fits m) (hf : Statement scope m f) (h : InRange c)
    (hc : f c = some c') : InRange c' := by
  cases hf with
  | setBonus m | setPassword m =>
    cases hc
    exact h.modify_user _ _ fun _ => rfl
  | putClarificationRequest m =>
    obtain ⟨-, rfl⟩ := Table.map_insertNew.mp hc
    refine ⟨h.submission, h.user, fun id r hr => ?_⟩
    rw [Table.getElem?_insert_row] at hr
    split at hr
    · cases hr
      exact hm
    · exact h.request id r hr
  | putSubmission m =>
    obtain ⟨-, rfl⟩ := Table.map_insertNew.mp hc
    refine ⟨fun id s hs => ?_, h.user, h.request⟩
    rw [Table.getElem?_insert_row] at hs
    split at hs
    · next hid =>
      cases hs
      exact hid ▸ hm
    · exact h.submission id s hs
  | addUser m =>
    obtain ⟨-, -, rfl⟩ := Table.map_insertUnique.mp hc
    refine ⟨h.submission, fun id u hu => ?_, h.request⟩
    rw [Table.getElem?_insert_row] at hu
    split at hu
    · cases hu
      exact hm
    · exact h.user id u hu
  | putMark m | setServerAttribute m _ _ | putStartStop m | setProblemType m _ | setProblemUpdateTime m
  | deleteAttributeRow m _ _ | deleteFileDataRow m _ _ | delProblemDependency m _ _ _ =>
    cases hc
    exact h.of_eq rfl rfl rfl
  | addGroup m | putClarification m | putMarkFile m _ _ | insertAttributeRow m _ _ _ | insertFileDataRow m _ _ _ _
  | addProblemDependency m _ _ =>
    obtain ⟨t, -, rfl⟩ := Option.map_eq_some_iff.mp hc
    exact h.of_eq rfl rfl rfl

end

/-- The submission is stored, and so are its user and the short name of its problem. -/
def Listed (c : Contest) (id : Nat) : Prop :=
  ∃ s ∈ c.submission[id]?, s.userId ∈ c.user ∧ (s.probId, str "shortname") ∈ c.problemAttributes

instance (c : Contest) (id : Nat) : Decidable (Listed c id) :=
  inferInstanceAs (Decidable (∃ s ∈ c.submission[id]?, s.userId ∈ c.user ∧ _))

section

variable {c : Contest} {id : Nat} {db : Db}

theorem getSubmission_of_not_listed (h : ¬Listed c id) : getSubmission c id = ∅ := by
  unfold getSubmission submissionAttrs
  split
  · rfl
  · next s hs =>
    split
    · next user value huser hvalue =>
      refine absurd ⟨s, hs, ?_, ?_⟩ h
      · exact Table.mem_iff_exists_row.mpr ⟨user, huser⟩
      · exact Table.mem_iff_exists_row.mpr ⟨value, hvalue⟩
    · rfl

theorem Listed.getSubmission (h : Listed c id) (hc : InRange c) :
    ∃ time group, time < 4294967296 ∧ group < 4294967296 ∧
      (getSubmission c id).getD (str "submission_id") [] = decimal id ∧
      (getSubmission c id).getD (str "time") [] = decimal time ∧
      (getSubmission c id).getD (str "group_id") [] = decimal group := by
  obtain ⟨s, hs, hmem, hname⟩ := h
  obtain ⟨user, huser⟩ := Table.mem_iff_exists_row.mp hmem
  obtain ⟨value, hvalue⟩ := Table.mem_iff_exists_row.mp hname
  refine ⟨s.time, user.group, (hc.submission id s hs).2, hc.user _ user huser, ?_⟩
  have hattrs : Database.Marks.getSubmission c id = (submissionAttrs c id s).getD ∅ := by
    rw [Database.Marks.getSubmission, hs]
  rw [hattrs, submissionAttrs, huser, hvalue]
  simp +decide only [Option.getD_some, Table.getD_insert_row, if_true, if_false, and_self]

theorem isEmpty_getSubmission_iff (hc : InRange c) : (getSubmission c id).isEmpty = true ↔ ¬Listed c id := by
  constructor
  · intro hempty hlisted
    obtain ⟨time, group, -, hgroup, -, -, hvalue⟩ := hlisted.getSubmission hc
    rw [Std.ExtTreeMap.isEmpty_iff.mp hempty] at hvalue
    have hread := fromStringU32_decimal hgroup
    rw [← hvalue] at hread
    cases hread
  · intro hlisted
    rw [getSubmission_of_not_listed hlisted]
    rfl

theorem submissionToMB_eq_none_iff (hc : InRange c) (id : Nat) (env : Env) (mb : Client.Block.MessageBlock)
    (suffix : Str) : submissionToMB env c (getSubmission c id) mb suffix = none ↔ ¬Listed c id := by
  constructor
  · intro hnone hlisted
    obtain ⟨time, group, htime, hgroup, hid, htime', hgroup'⟩ := hlisted.getSubmission hc
    obtain ⟨s, hs, -⟩ := hlisted
    have hrange := (hc.submission id s hs).1
    rw [submissionToMB, hid, htime', hgroup', fromStringU32_decimal hrange, fromStringTime_decimal (by omega),
      fromStringU32_decimal hgroup] at hnone
    cases hnone
  · intro hlisted
    rw [getSubmission_of_not_listed hlisted]
    rfl

def Ready (c : Contest) : Message → Prop
  | .mark m => Listed c m.submissionId
  | .clarification m =>
    m.request = 0 → m.clarificationId ∈ c.clarification ∨ m.clarificationRequestId ∈ c.clarificationRequest
  | _ => True

variable {m : Message}

theorem returns_of_not_throws (hm : ∀ fault, ¬Throws m fault) (env : Env) :
    Prog.Returns (intProcess env m) db :=
  Prog.Limits.exists_result (I := fun _ => True) (fun _ _ _ _ _ _ => trivial) hm
    (limits_intProcess env m) trivial

theorem returns_mark_iff (hdb : InRange db.contest) (env : Env) (m : MarkMessage) :
    Prog.Returns (MarkMessage.intProcess env m) db ↔ Listed db.contest m.submissionId := by
  obtain ⟨-, hresult⟩ := MarkMessage.run_intProcess env m db
  -- neither the mark nor its files matter to the row of the submission
  have hrange : InRange (MarkMessage.marked m db.contest) := hdb.of_eq rfl rfl rfl
  have hnone := submissionToMB_eq_none_iff hrange m.submissionId env (.ofAction (str "updatesubmissions")) []
  rw [Prog.Returns, hresult]
  constructor
  · intro hreturns
    by_contra hnot
    rw [hnone.mpr hnot] at hreturns
    obtain ⟨status, hstatus⟩ := hreturns
    cases hstatus
  · intro hlisted
    refine ⟨true, if_pos (Option.isSome_iff_ne_none.mpr fun h => ?_)⟩
    exact hnone.mp h hlisted

theorem returns_submission (hdb : InRange db.contest) (env : Env) (m : SubmissionMessage) (hm : Fits (.submission m)) :
    Prog.Returns (SubmissionMessage.intProcess env m) db := by
  rw [Prog.Returns, SubmissionMessage.intProcess, writeContest, Prog.result_write_bind]
  cases hput : onContest _ db with
  | none => exact ⟨false, rfl⟩
  | some db' =>
    obtain ⟨c', hc', rfl⟩ := Option.map_eq_some_iff.mp hput
    have hrange : InRange c' := hdb.statement .any hm (.putSubmission m) hc'
    change ∃ status, (SubmissionMessage.notify env m).result _ = .ok status
    rw [SubmissionMessage.result_notify]
    dsimp only
    split
    · exact ⟨false, rfl⟩
    · next hempty =>
      have hlisted : Listed c' m.submissionId := by
        by_contra hnot
        exact hempty ((isEmpty_getSubmission_iff hrange).mpr hnot)
      refine ⟨true, if_pos (Option.isSome_iff_ne_none.mpr fun hnone => ?_)⟩
      exact (submissionToMB_eq_none_iff hrange m.submissionId env (.ofAction (str "updatesubmissions")) []).mp hnone
        hlisted

theorem returns_announce {c : Contest} (hc : InRange c) (m : ClarificationMessage) (id : Nat) (reply : AttributeList) :
    Prog.Returns (ClarificationMessage.announce m (getClarificationRequest c id) reply) db := by
  rw [ClarificationMessage.announce]
  split
  · exact ⟨false, rfl⟩
  · next hempty =>
    dsimp only
    split
    · exact ⟨true, rfl⟩
    · obtain ⟨r, hr⟩ : ∃ r, c.clarificationRequest[id]? = some r := by
        rw [← Option.ne_none_iff_exists']
        intro hnone
        rw [getClarificationRequest, hnone] at hempty
        exact hempty rfl
      have huser : (getClarificationRequest c id).getD (str "user_id") [] = decimal r.userId := by
        rw [getClarificationRequest, hr, Option.map_some, Option.getD_some, requestAttrs]
        simp +decide only [Table.getD_insert_row, if_true, if_false]
      rw [huser, fromStringU32_decimal (hc.request id r hr)]
      exact ⟨true, rfl⟩

theorem returns_clarification_iff (hdb : InRange db.contest) (env : Env) (m : ClarificationMessage) :
    Prog.Returns (intProcess env (.clarification m)) db ↔ Ready db.contest (.clarification m) := by
  by_cases hrequest : m.request = 0
  · have hproc : intProcess env (.clarification m) = ClarificationMessage.processReply m :=
      if_neg (not_not.mpr hrequest)
    rw [hproc, Prog.Returns, ClarificationMessage.processReply, readContest, Prog.result_read_bind, writeContest,
      Prog.result_write_bind, onContest, putClarification, Table.insertNew]
    by_cases hid : m.clarificationId ∈ db.contest.clarification
    · rw [if_pos hid]
      exact iff_of_true ⟨false, rfl⟩ fun _ => .inl hid
    · rw [if_neg hid]
      simp only [Option.map_some, Bool.not_true, Bool.false_eq_true, if_false, readContest, Prog.result_read_bind,
        getClarification, Table.getElem?_insert_row, if_true, clarificationAttrs]
      cases hreq : db.contest.clarificationRequest[m.clarificationRequestId]? with
      | none =>
        refine iff_of_false ?_ fun hready => ?_
        · rintro ⟨status, hstatus⟩
          cases hstatus
        · obtain hmem | hmem := hready hrequest
          · exact hid hmem
          · obtain ⟨r, hr⟩ := Table.mem_iff_exists_row.mp hmem
            rw [hreq] at hr
            cases hr
      | some r =>
        refine iff_of_true (returns_announce hdb m m.clarificationRequestId _) fun _ => ?_
        exact .inr (Table.mem_iff_exists_row.mpr ⟨r, hreq⟩)
  · refine iff_of_true (returns_of_not_throws ?_ env) fun h => absurd h hrequest
    rintro fault ⟨⟩
    contradiction

/-- Processing throws exactly if the message is not ready. -/
theorem returns_process_iff (hdb : InRange db.contest) (hm : Fits m) (env : Env) (key : MessageKey) :
    Prog.Returns (process env key m) db ↔ Ready db.contest m := by
  have hprocess : Prog.Returns (process env key m) db ↔ Prog.Returns (intProcess env m) db := by
    rw [Prog.Returns, Prog.Returns, process, Prog.result_bind]
    cases (intProcess env m).result db with
    | error fault => exact Iff.rfl
    | ok status =>
      refine iff_of_true ⟨status, ?_⟩ ⟨status, rfl⟩
      cases status <;> rfl
  rw [hprocess]
  cases m with
  | mark m => exact returns_mark_iff hdb env m
  | clarification m => exact returns_clarification_iff hdb env m
  | submission m => exact iff_of_true (returns_submission hdb env m hm) trivial
  | createServer m | createUser m | createGroup m | passwd m | prob m | startStop m | bonus m =>
    refine iff_of_true (returns_of_not_throws ?_ env) trivial
    rintro fault ⟨⟩

theorem InRange.process (hdb : InRange db.contest) (hm : Fits m) (env : Env) (key : MessageKey) :
    InRange ((process env key m).final db).contest := by
  rw [contest_final_process]
  exact contest_final_intProcess (fun _ hf _ _ hc hstep => hc.statement _ hm hf hstep) env hdb

end

/-- A server that processes its queue, until an exception leaves `message_handler`. -/
structure State where
  db : Db
  running : Bool
  deriving DecidableEq

def step (s : State) (a : Arrival) : Option State :=
  if s.running ∧ Fits a.message then
    let p := process a.env a.key a.message
    some { db := p.final s.db, running := (p.result s.db).isOk }
  else none

def machine : Machine State Arrival := .ofFun (fun s => InRange s.db.contest ∧ s.running = true) step

instance (c : Contest) : DecidablePred (Ready c)
  | .mark m => inferInstanceAs (Decidable (Listed c m.submissionId))
  | .clarification m => inferInstanceAs (Decidable
      (m.request = 0 → m.clarificationId ∈ c.clarification ∨ m.clarificationRequestId ∈ c.clarificationRequest))
  | .createServer _ | .createUser _ | .createGroup _ | .passwd _ | .prob _ | .submission _ | .startStop _ | .bonus _ =>
    isTrue trivial

theorem inRange_step {s s' : State} {a : Arrival} (h : InRange s.db.contest) (hstep : step s a = some s') :
    InRange s'.db.contest ∧ (Ready s.db.contest a.message → s'.running = true) := by
  rw [step] at hstep
  split at hstep
  · next hs =>
    cases hstep
    refine ⟨h.process hs.2 a.env a.key, fun hready => ?_⟩
    obtain ⟨status, hstatus⟩ := (returns_process_iff h hs.2 a.env a.key).mpr hready
    simp only [hstatus]
    rfl
  · cases hstep

/-- If every message is ready when its turn comes, every one is processed. -/
theorem running_of_ready {s : State} (h : machine.Reach (fun s a => Ready s.db.contest a.message) s) :
    s.running = true := by
  have hinv : InRange s.db.contest ∧ s.running = true := by
    refine h.invariant (fun s hs => hs) fun s a s' hs hready hstep => ?_
    obtain ⟨hrange, hrun⟩ := inRange_step hs.1 hstep
    exact ⟨hrange, hrun hready⟩
  exact hinv.2

def started : State where
  db := ⟨.empty, .empty⟩
  running := true

theorem init_started : machine.init started :=
  ⟨{ submission := by simp [started, Contest.empty]
     user := by simp [started, Contest.empty]
     request := by simp [started, Contest.empty] }, rfl⟩

def team : MessageCreateUser where
  userId := 33
  type := 3
  groupId := 1
  requestorId := 1
  username := str "team"
  friendlyname := str "Team"
  password := []

def problemA : ProbMessage where
  probId := 1
  updateTime := 5
  deps := []
  type := str "tcprob"
  files := ∅
  strings := (∅ : StringMap Str).insert (str "shortname") (str "A")
  ints := ∅

def submission17 : SubmissionMessage where
  submissionId := 17
  userId := 33
  probId := 1
  time := 10
  serverId := 1
  content := []
  language := str "C"

def mark17 : MarkMessage where
  submissionId := 17
  marker := 49
  result := 0
  time := 20
  serverId := 1
  comment := str "Correct answer"
  files := []

def inOrder : List Arrival :=
  [⟨default, (1, 1), .createUser team⟩, ⟨default, (1, 2), .prob problemA⟩, ⟨default, (1, 3), .submission submission17⟩,
    ⟨default, (1, 4), .mark mark17⟩]

theorem running_of_ready_in_order :
    ∃ s, play step (fun s a => Ready s.db.contest a.message) started inOrder = some s ∧ s.running = true := by
  have hplay : (play step (fun s a => Ready s.db.contest a.message) started inOrder).isSome = true := by decide
  obtain ⟨s, hs⟩ := Option.isSome_iff_exists.mp hplay
  exact ⟨s, hs, running_of_ready (Machine.Reach.play (.init init_started) hs)⟩

/-- The mark arrives before its submission. -/
theorem not_running_mark_first : ¬∀ s, machine.Reachable s → s.running = true := by
  intro hall
  let mark : Arrival := ⟨default, (1, 4), .mark mark17⟩
  have hplay : (step started mark).isSome = true := by decide
  obtain ⟨s, hs⟩ := Option.isSome_iff_exists.mp hplay
  have hrun : ∀ s ∈ step started mark, s.running = false := by decide
  have hreach : machine.Reachable s := .step (.init init_started) trivial hs
  exact absurd (hall s hreach) (by rw [hrun s hs]; decide)

end Abacus.Peer.Totality
