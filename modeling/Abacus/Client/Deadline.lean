import Abacus.Client.Totality
import Abacus.Support.Clock

/-! # The two clock readings of a submission

`ActSubmit` asks whether the contest runs, and reads the clock again when the message is made. The
contest may have stopped in between.
-/

namespace Abacus.Client.Deadline

open Library Library.Bytes Misc Client.Block Client.Action Client.Contest Client.Submit Client.Created
open Database.Schema Peer.Classes Peer.Process Support.Timer Support.Timeline Support.Clock

/-- The status is checked at the first reading, and the message is made at the second. -/
def actSubmitAt (s : Server) (cc : Connection) (mb : MessageBlock) (checked stored : Int) : ClientProg Answer := do
  if ¬running { s with now := checked } cc then
    return .error (str "You cannot submit solutions unless the contest is running")
  submitSolution { s with now := stored } cc mb

theorem actSubmitAt_now (s : Server) (cc : Connection) (mb : MessageBlock) :
    actSubmitAt s cc mb s.now s.now = actSubmit s cc mb := rfl

variable {s : Server} {cc : Connection} {mb : MessageBlock} {db : Db} {checked stored : Int}

def SubmittedAt (time : Nat) (m : Message) : Prop := ∃ submission, m = .submission submission ∧ submission.time = time

theorem gives_submitSolution (s : Server) (cc : Connection) (mb : MessageBlock) (db : Db) :
    Prog.Gives (submitSolution s cc mb) db (Creates (SubmittedAt (time32 s))) := by
  dsimp only [submitSolution]
  refine gives_check fun _ => ?_
  split
  · refine Prog.gives_bind (reads_query _) fun problems => ?_
    refine gives_check fun _ => ?_
    refine Prog.gives_bind (reads_query _) fun solved => ?_
    refine Prog.gives_bind (reads_query _) fun multiSubmit => ?_
    refine gives_check fun _ => ?_
    refine Prog.gives_bind (reads_query _) fun allowed => ?_
    refine gives_check fun _ => gives_check fun _ => ?_
    refine Prog.gives_bind (reads_nextId _) fun id => ?_
    refine gives_check fun _ => ?_
    refine Prog.gives_bind (Prog.reads_read _) fun self => ?_
    refine Prog.gives_bind reads_submissionContent fun content => ?_
    exact Prog.gives_pure ⟨_, rfl, rfl⟩
  · exact Prog.gives_pure trivial

/-- An accepted submission was made while the contest ran, and has the time of the second reading. -/
theorem accepted_spec {m : Message} {reply : MessageBlock}
    (h : (actSubmitAt s cc mb checked stored).result db = .ok (.message m reply)) :
    s.timer.contestStatus checked cc.groupId 0 = timerStart ∧ SubmittedAt (toU32 stored) m := by
  unfold actSubmitAt at h
  split at h
  · cases h
  · next hruns =>
    refine ⟨of_decide_eq_true (not_not.mp hruns), ?_⟩
    exact gives_submitSolution { s with now := stored } cc mb db _ h

/-- The contest still runs at the time of the submission if and only if nothing has stopped it between the two readings,
or, if the time has wrapped to one before the first, the latest event up to it is a start. -/
theorem started_iff_undisturbed (s : Server) (cc : Connection) (mb : MessageBlock) (db : Db) (checked stored : Int)
    (m : SubmissionMessage) (reply : MessageBlock) (hevents : Chronicle s.timer.evlist)
    (haccepted : (actSubmitAt s cc mb checked stored).result db = .ok (.message (.submission m) reply)) :
    s.timer.contestStatus stored cc.groupId m.time = timerStart ↔
      AlsoRuns s.timer cc.groupId checked (moment stored (toU32 stored)) := by
  obtain ⟨hruns, submission, heq, htime⟩ := accepted_spec haccepted
  cases heq
  rw [contestStatus_moment] at hruns ⊢
  rw [htime]
  exact limitedStatus_eq_start_iff_alsoRuns hevents hruns

section

open Totality

def hour : Server := { server with timer := { evlist := [⟨1000, 0, 1⟩], duration := 3600, blinds := 0 } }

theorem chronicle_hour : Chronicle hour.timer.evlist where
  sorted := by decide
  times := by decide
  actions e he := (by decide : ∀ e ∈ hour.timer.evlist, e.action = timerStart ∨ e.action = timerStop) e he

def oneProblem : Contest where
  __ := Contest.empty
  problem := (∅ : Table Nat Problem).insert 1 { updated := 10, type := str "tcprob" }

def solution : MessageBlock :=
  ((MessageBlock.ofAction (str "submit")).set (str "prob_id") (str "1")).set (str "lang") (str "C")

def submission (time : Nat) : SubmissionMessage :=
  { submissionId := 1, userId := 33, probId := 1, time, serverId := 1, content := [], language := str "C" }

def accepted : MessageBlock := MessageBlock.ok.set (str "submission_id") (str "1")

theorem started_inTime : (actSubmitAt hour contestant solution 4000 4001).result ⟨.empty, oneProblem⟩ =
    .ok (.message (.submission (submission 4001)) accepted) ∧
      hour.timer.contestStatus 4001 contestant.groupId (submission 4001).time = timerStart := by
  have haccepted : (actSubmitAt hour contestant solution 4000 4001).result ⟨.empty, oneProblem⟩ =
      .ok (.message (.submission (submission 4001)) accepted) := rfl
  have hruns : AlsoRuns hour.timer contestant.groupId 4000 4001 := (if_pos (by decide)).mpr ⟨by decide, by decide⟩
  exact ⟨haccepted,
    (started_iff_undisturbed hour contestant solution ⟨.empty, oneProblem⟩ 4000 4001 (submission 4001) accepted
    chronicle_hour haccepted).mpr hruns⟩

/-- The contest ends between the two readings. -/
theorem not_started_late : Chronicle hour.timer.evlist ∧
    (actSubmitAt hour contestant solution 4599 4600).result ⟨.empty, oneProblem⟩ =
      .ok (.message (.submission (submission 4600)) accepted) ∧
    hour.timer.contestStatus 4600 contestant.groupId (submission 4600).time ≠ timerStart :=
  ⟨chronicle_hour, rfl, by decide⟩

end

end Abacus.Client.Deadline
