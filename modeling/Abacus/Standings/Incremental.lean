import Abacus.Standings.Messages
import Abacus.Standings.Scoring

/-! # When the cached standings are up to date

A message updates the rows of some users only, and never takes a row away. So the cache stays what a fresh server
would compute as long as the others keep their counted submissions, and these keep some.
-/

namespace Abacus.Standings.Incremental

open Library Database.Schema Database.Marks Database.People
open Support.Timer Client.Permissions Peer.Classes Peer.Totality
open Peer.Process hiding Arrival
open Update Rows Score Messages
open Client.Action (StandingsData)

def standing (order : OrderBy (MarkRow × Nat)) (c : Contest) (id : Nat) : Option Bool :=
  ((getSubmissionState c order id).filter fun st => counts st.state).map fun st => st.state = 0

variable {userId : Nat}

section

variable {env env' : Env} {c c' : Contest} {userId : Nat}

theorem entryOf_eq (env : Env) (c : Contest) (id : Nat) (s : Submission) :
    entryOf env c id s = (standing env.order c id).map fun correct =>
      let time := env.timer.contestTime env.now (userGroup c s.userId) s.time
      ⟨id, s.userId, s.probId, ⟨time, correct, isBlinded env.timer time⟩⟩ := by
  unfold entryOf standing
  rw [Option.map_map]
  rfl

theorem entryOf_congr {id : Nat} {s : Submission} (hstanding : standing env'.order c' id = standing env.order c id)
    (htime : (standing env.order c id).isSome → env'.timer.contestTime env'.now (userGroup c' s.userId) s.time =
      env.timer.contestTime env.now (userGroup c s.userId) s.time)
    (hduration : env'.timer.duration = env.timer.duration) (hblinds : env'.timer.blinds = env.timer.blinds) :
    entryOf env' c' id s = entryOf env c id s := by
  rw [entryOf_eq, entryOf_eq, hstanding]
  cases hs : standing env.order c id with
  | none => rfl
  | some correct =>
    rw [hs] at htime
    simp only [Option.map_some, htime rfl, isBlinded, hduration, hblinds]

theorem entriesOf_congr (hsubmission : c'.submission = c.submission)
    (hlisted : ∀ s, isListed c' s = isListed c s)
    (hentry : ∀ (id : Nat) (s : Submission), c.submission[id]? = some s → s.userId = userId →
      entryOf env' c' id s = entryOf env c id s) :
    entriesOf env' c' userId = entriesOf env c userId := by
  unfold entriesOf entries
  rw [List.filter_filterMap, List.filter_filterMap, hsubmission]
  apply List.filterMap_congr
  rintro ⟨id, s⟩ hrow
  dsimp only
  rw [hlisted]
  by_cases huser : s.userId = userId
  · rw [hentry id s (Std.ExtTreeMap.mem_toList_iff_getElem?_eq_some.mp hrow) huser]
  · have hnone : ∀ (env : Env) (c : Contest), (entryOf env c id s).filter (fun e => e.userId = userId) = none := by
      intro env c
      rw [entryOf_eq]
      cases standing env.order c id with
      | none => rfl
      | some correct => simp [Option.filter, huser]
    split
    · rw [hnone, hnone]
    · rfl

theorem standing_congr {order : OrderBy (MarkRow × Nat)} {id : Nat}
    (hmarks : ∀ marker : Nat, c'.submissionMark[(id, marker)]? = c.submissionMark[(id, marker)]?)
    (htypes : ∀ userId : Nat, (c'.user[userId]?).map User.type = (c.user[userId]?).map User.type) :
    standing order c' id = standing order c id := by
  rw [standing, standing, getSubmissionState_congr order hmarks htypes]

theorem rowOf_congr (h : bonusData c' userId = bonusData c userId) (final : Bool) (es : List Entry) :
    rowOf final c' userId es = rowOf final c userId es := by
  unfold rowOf teamData
  rw [h]

theorem inStandings_scored (d : StandingsData) (problems : Table Nat (List SubData)) :
    (scored d problems).inStandings = d.inStandings := by
  apply Table.view_foldl
  intro d p
  unfold scoreSubs score
  split
  · rfl
  · split <;> rfl

theorem inStandings_of_rowOf {final : Bool} {es : List Entry} {d : StandingsData}
    (h : rowOf final c userId es = some d) : d.inStandings = getPermissions (usertype c userId) .inStandings := by
  unfold rowOf at h
  dsimp only at h
  split at h
  · cases h
  · cases h
    cases final with
    | true =>
      rw [teamData_final]
      exact inStandings_scored ..
    | false =>
      rw [teamData_contestant]
      exact inStandings_scored ..

structure Keeps (old new : List Entry) : Prop where
  counted : old ≠ [] → new ≠ []
  isOpen : old.filter isOpen ≠ [] → new.filter isOpen ≠ []

theorem Keeps.refl (es : List Entry) : Keeps es es := ⟨id, id⟩

theorem Keeps.rowOf {old new : List Entry} (h : Keeps old new) (final : Bool)
    (hnew : rowOf final c' userId new = none) : rowOf final c userId old = none := by
  cases final with
  | true =>
    apply rowOf_final_eq_none.mpr
    by_contra hne
    exact h.counted hne (rowOf_final_eq_none.mp hnew)
  | false =>
    rw [rowOf_contestant] at hnew ⊢
    apply rowOf_final_eq_none.mpr
    by_contra hne
    exact h.isOpen hne (rowOf_final_eq_none.mp hnew)

theorem overlay_rowOf {old new : List Entry} (htype : usertype c' userId = usertype c userId) (h : Keeps old new)
    (final : Bool) : overlay (rowOf final c userId old) (rowOf final c' userId new) = rowOf final c' userId new := by
  cases hnew : rowOf final c' userId new with
  | none => exact h.rowOf final hnew
  | some d =>
    unfold overlay merged
    dsimp only
    cases hold : rowOf final c userId old with
    | none => simp [news, tries_of_rowOf hnew]
    | some row =>
      have hin : row.inStandings = d.inStandings := by
        rw [inStandings_of_rowOf hold, inStandings_of_rowOf hnew, htype]
      split
      · rfl
      · next hsame =>
        simp only [news, tries_of_rowOf hnew, Bool.not_false, Bool.true_and, Bool.or_eq_true, decide_eq_true_eq,
          not_or, ne_eq, not_not] at hsame
        obtain ⟨⟨hpoints, htime⟩, htries⟩ := hsame
        cases row
        cases d
        simp_all

end

section

variable {host : Host}

/-- The cache is what a server that is started now computes. -/
def UpToDate (host : Host) (s : Server) : Prop :=
  freshStandings (envAt host s.now s.memory.timer) s.db.contest = some s.memory.cache

def uidCovers (uid : Option Nat) (userId : Nat) : Bool := uid.any fun uid => covers uid userId

/-- The rows after a message, if those that are not updated need no update and no other is to be taken away. -/
theorem rows_updated {env env' : Env} {c c' : Contest} {memory memory' : Memory} {uid : Option Nat}
    (hc' : Readable c') (hduration : env'.timer.duration ≠ 0)
    (hrows : ∀ final (userId : Nat),
      (memory.cache.board final)[userId]? = rowOf final c userId (entriesOf env c userId))
    (hupdated : updated env' c' uid memory = some memory')
    (hcovered : ∀ userId, uidCovers uid userId = true →
      usertype c' userId = usertype c userId ∧ Keeps (entriesOf env c userId) (entriesOf env' c' userId))
    (hother : ∀ userId, uidCovers uid userId = false →
      bonusData c' userId = bonusData c userId ∧ entriesOf env' c' userId = entriesOf env c userId) (final : Bool)
    (userId : Nat) : (memory'.cache.board final)[userId]? = rowOf final c' userId (entriesOf env' c' userId) := by
  have hkept : uidCovers uid userId = false →
      (memory.cache.board final)[userId]? = rowOf final c' userId (entriesOf env' c' userId) := by
    intro hcovers
    obtain ⟨hbonus, hentries⟩ := hother userId hcovers
    rw [hrows, hentries, rowOf_congr hbonus]
  cases uid with
  | none =>
    cases hupdated
    exact hkept rfl
  | some uid =>
    obtain ⟨cache', sent', hupdate, hafter⟩ := getElem?_updateStandings hc' hduration uid memory.cache
    rw [updated, hupdate] at hupdated
    cases hupdated
    rw [hafter]
    cases hcovers : covers uid userId with
    | true =>
      obtain ⟨htype, hkeeps⟩ := hcovered userId hcovers
      rw [if_pos rfl, hrows, overlay_rowOf htype hkeeps]
    | false => exact hkept hcovers

/-- Every submission has a time of its own; the time 0 would stand for the present moment. -/
def Timed (c : Contest) : Prop := ∀ (id : Nat) (s : Submission), c.submission[id]? = some s → s.time ≠ 0

/-- A mark with the result JUDGE changes nothing that counts, a start or stop time is later than all counted
submissions, and no user loses the last one. -/
def Steady (host : Host) (s : Server) (a : Arrival) : Prop :=
  let env := envAt host a.now s.memory.timer
  let c := s.db.contest
  Timed c ∧ match a.message with
    | .mark m =>
      if m.result = 5 then
        standing host.order (MarkMessage.marked m c) m.submissionId = standing host.order c m.submissionId
      else
        let userId := submission2userId c m.submissionId
        Keeps (entriesOf env c userId) (entriesOf env (MarkMessage.marked m c) userId)
    | .startStop m =>
      if (m.time : Int) > a.now then
        ∀ (id : Nat) (sub : Submission), c.submission[id]? = some sub → (standing host.order c id).isSome →
          sub.time < m.time
      else
        ∀ userId, Keeps (entriesOf env c userId)
          (entriesOf (envAt host a.now (timerAfter (.startStop m) s.memory.timer)) c userId)
    | _ => True

theorem entriesOf_now {c : Contest} (hc : Timed c) (timer : TimerSupportModule) (now now' : Int) (userId : Nat) :
    entriesOf (envAt host now' timer) c userId = entriesOf (envAt host now timer) c userId := by
  apply entriesOf_congr
  · rfl
  · exact fun _ => rfl
  intro id s hs _
  apply entryOf_congr
  · rfl
  · intro _
    exact timer.contestTime_now (Int.natCast_ne_zero.mpr (hc id s hs)) now now' _
  · rfl
  · rfl

variable {c : Contest} {timer : TimerSupportModule} {now : Int}

theorem entriesOf_marked {m : MarkMessage}
    (h : submission2userId c m.submissionId = userId →
      standing host.order (MarkMessage.marked m c) m.submissionId = standing host.order c m.submissionId) :
    entriesOf (envAt host now timer) (MarkMessage.marked m c) userId = entriesOf (envAt host now timer) c userId := by
  have hstanding : ∀ (id : Nat) (s : Submission), c.submission[id]? = some s → s.userId = userId →
      standing host.order (MarkMessage.marked m c) id = standing host.order c id := by
    intro id s hs huser
    by_cases hid : m.submissionId = id
    · have howner : submission2userId c m.submissionId = userId := by
        rw [submission2userId, hid, hs]
        exact huser
      exact hid ▸ h howner
    · exact standing_congr (MarkMessage.getElem?_marked hid) fun _ => rfl
  apply entriesOf_congr
  · rfl
  · exact fun _ => rfl
  intro id s hs huser
  apply entryOf_congr
  · exact hstanding id s hs huser
  · exact fun _ => rfl
  · rfl
  · rfl

theorem user_setBonus {α : Type} (m : BonusMessage) (f : User → α)
    (hf : ∀ u : User, f { u with bonusPoints := m.points, bonusSeconds := m.seconds } = f u) (userId : Nat) :
    (((setBonus c m.userId m.points m.seconds).user)[userId]?).map f = (c.user[userId]?).map f :=
  Table.map_modify_row c.user m.userId userId hf

theorem entriesOf_setBonus (m : BonusMessage) (userId : Nat) :
    entriesOf (envAt host now timer) (setBonus c m.userId m.points m.seconds) userId =
      entriesOf (envAt host now timer) c userId := by
  have hgroup : ∀ userId, userGroup (setBonus c m.userId m.points m.seconds) userId = userGroup c userId := by
    intro userId
    rw [userGroup, user_setBonus m User.group fun _ => rfl]
    rfl
  apply entriesOf_congr
  · rfl
  · intro s
    have hmem := user_setBonus (c := c) m (fun _ => ()) (fun _ => rfl) s.userId
    have hcontains := congrArg Option.isSome hmem
    rw [Option.isSome_map, Option.isSome_map, ← Std.ExtTreeMap.contains_eq_isSome_getElem?,
      ← Std.ExtTreeMap.contains_eq_isSome_getElem?] at hcontains
    rw [isListed, isListed, hcontains]
    rfl
  · intro id s _ _
    apply entryOf_congr
    · exact standing_congr (fun _ => rfl) fun userId => user_setBonus m User.type (fun _ => rfl) userId
    · intro _
      rw [hgroup]
    · rfl
    · rfl

theorem entriesOf_future {m : MsgStartStop} (hc : Timed c)
    (h : ∀ (id : Nat) (sub : Submission), c.submission[id]? = some sub → (standing host.order c id).isSome →
      sub.time < m.time) (userId : Nat) :
    entriesOf (envAt host now (timerAfter (.startStop m) timer)) c userId =
      entriesOf (envAt host now timer) c userId := by
  apply entriesOf_congr
  · rfl
  · exact fun _ => rfl
  intro id s hs _
  apply entryOf_congr
  · rfl
  · intro hcounts
    apply timer.contestTime_addEvent (Int.natCast_ne_zero.mpr (hc id s hs))
    exact Int.ofNat_lt.mpr (h id s hs hcounts)
  · rfl
  · rfl

theorem Readable.contestAfter {m : Message} (h : Readable c) : Readable (contestAfter m c) := by
  cases m with
  | mark m => exact ⟨h.range.of_eq rfl rfl rfl, h.problem⟩
  | bonus m => exact ⟨h.range.modify_user _ _ fun _ => rfl, h.problem⟩
  | startStop m => exact ⟨h.range.of_eq rfl rfl rfl, h.problem⟩
  | createServer | createUser | createGroup | passwd | prob | submission | clarification => exact h

theorem timer_updated {env : Env} {uid : Option Nat} {memory memory' : Memory}
    (h : updated env c uid memory = some memory') : memory'.timer = memory.timer := by
  cases uid with
  | none =>
    cases h
    rfl
  | some uid =>
    obtain ⟨r, -, rfl⟩ := Option.map_eq_some_iff.mp h
    rfl

theorem duration_timerAfter (m : Message) : (timerAfter m timer).duration = timer.duration := by
  cases m <;> rfl

theorem usertype_contestAfter (m : Message) (userId : Nat) :
    usertype (contestAfter m c) userId = usertype c userId := by
  cases m with
  | bonus m =>
    rw [usertype, contestAfter, user_setBonus m User.type fun _ => rfl]
    rfl
  | mark | startStop | createServer | createUser | createGroup | passwd | prob | submission | clarification => rfl

variable {s s' : Server} {a : Arrival}

theorem Steady.covered (h : Steady host s a) (userId : Nat)
    (hcovers : uidCovers (updateAfter a.now a.message (contestAfter a.message s.db.contest)) userId = true) :
    Keeps (entriesOf (envAt host a.now s.memory.timer) s.db.contest userId)
      (entriesOf (envAt host a.now (timerAfter a.message s.memory.timer)) (contestAfter a.message s.db.contest) userId)
        := by
  obtain ⟨htimed, h⟩ := h
  cases hm : a.message with
  | mark m =>
    rw [hm] at h hcovers
    rw [updateAfter] at hcovers
    dsimp only at h
    split at h
    · next hjudge =>
      rw [if_pos hjudge] at hcovers
      cases hcovers
    · by_cases huser : submission2userId s.db.contest m.submissionId = userId
      · exact huser ▸ h
      · have hsame : entriesOf (envAt host a.now s.memory.timer) (MarkMessage.marked m s.db.contest) userId =
            entriesOf (envAt host a.now s.memory.timer) s.db.contest userId :=
          entriesOf_marked fun heq => absurd heq huser
        exact hsame ▸ Keeps.refl _
  | bonus m =>
    have hsame : entriesOf (envAt host a.now s.memory.timer) (setBonus s.db.contest m.userId m.points m.seconds) userId
        = entriesOf (envAt host a.now s.memory.timer) s.db.contest userId := entriesOf_setBonus m userId
    exact hsame ▸ Keeps.refl _
  | startStop m =>
    rw [hm] at h hcovers
    rw [updateAfter] at hcovers
    dsimp only at h
    split at h
    · next hfuture =>
      rw [if_pos hfuture] at hcovers
      cases hcovers
    · exact h userId
  | createServer | createUser | createGroup | passwd | prob | submission | clarification => exact Keeps.refl _

/-- The rows of the others rest on what the message leaves as it is. -/
theorem Steady.other (h : Steady host s a) (userId : Nat)
    (hcovers : uidCovers (updateAfter a.now a.message (contestAfter a.message s.db.contest)) userId = false) :
    bonusData (contestAfter a.message s.db.contest) userId = bonusData s.db.contest userId ∧
      entriesOf (envAt host a.now (timerAfter a.message s.memory.timer)) (contestAfter a.message s.db.contest) userId =
        entriesOf (envAt host a.now s.memory.timer) s.db.contest userId := by
  obtain ⟨htimed, h⟩ := h
  cases hm : a.message with
  | mark m =>
    rw [hm] at h hcovers
    rw [updateAfter] at hcovers
    dsimp only at h
    refine ⟨rfl, entriesOf_marked fun howner => ?_⟩
    split at h
    · exact h
    · next hjudge =>
      rw [if_neg hjudge] at hcovers
      have hcovered : covers userId userId = true := by simp [covers]
      cases (howner ▸ hcovers).symm.trans hcovered
  | bonus m =>
    rw [hm] at hcovers
    refine ⟨?_, entriesOf_setBonus m userId⟩
    have hne : m.userId ≠ userId := by
      rintro rfl
      have hcovered : covers m.userId m.userId = true := by simp [covers]
      cases hcovers.symm.trans hcovered
    have huser : (contestAfter (.bonus m) s.db.contest).user[userId]? = s.db.contest.user[userId]? := by
      rw [contestAfter, setBonus, Table.getElem?_modify_row, if_neg hne]
    rw [bonusData, bonusData, userBonus, userBonus, usertype, usertype, huser]
  | startStop m =>
    rw [hm] at h hcovers
    rw [updateAfter] at hcovers
    dsimp only at h
    split at h
    · exact ⟨rfl, entriesOf_future htimed h userId⟩
    · next hfuture =>
      rw [if_neg hfuture] at hcovers
      cases hcovers
  | createServer | createUser | createGroup | passwd | prob | submission | clarification => exact ⟨rfl, rfl⟩

structure Current (host : Host) (s : Server) : Prop where
  readable : Readable s.db.contest
  duration : s.memory.timer.duration ≠ 0
  upToDate : UpToDate host s

theorem Current.step (h : Current host s) (hscores : Message.scores a.message = true) (hsteady : Steady host s a)
    (hprocess : processAt host s a = some s') : Current host s' := by
  obtain ⟨hcontest, hnow, hupdated⟩ := processAt_cases hscores hprocess
  have htimer := timer_updated hupdated
  have hreadable : Readable s'.db.contest := hcontest ▸ Readable.contestAfter h.readable
  have hduration : s'.memory.timer.duration ≠ 0 := by
    rw [htimer, duration_timerAfter]
    exact h.duration
  refine ⟨hreadable, hduration, ?_⟩
  have hrows := (freshStandings_eq_some h.readable h.duration).mp h.upToDate
  apply (freshStandings_eq_some hreadable hduration).mpr
  rw [hnow, htimer]
  apply rows_updated hreadable _ _ hupdated
  · intro userId hcovers
    rw [hcontest] at hcovers ⊢
    exact ⟨usertype_contestAfter a.message userId, hsteady.covered userId hcovers⟩
  · intro userId hcovers
    rw [hcontest] at hcovers ⊢
    exact hsteady.other userId hcovers
  · rw [envAt, duration_timerAfter]
    exact h.duration
  · intro final userId
    rw [hrows, entriesOf_now hsteady.1]

end

def machine (host : Host) : Machine Server Arrival :=
  Machine.ofFun (Current host) fun s a => if Message.scores a.message then processAt host s a else none

/-- A server whose messages are all steady has the standings that a fresh start would give. -/
theorem upToDate_of_steady (host : Host) (s : Server) (h : (machine host).Reach (Steady host) s) : UpToDate host s := by
  have hcurrent : Current host s := by
    apply h.invariant
    · exact fun _ hinit => hinit
    · intro s a s' hs hsteady hstep
      dsimp only [machine, Machine.ofFun] at hstep
      split at hstep
      · next hscores => exact hs.step hscores hsteady hstep
      · cases hstep
  exact hcurrent.upToDate

section

open Scoring

def sampleHost : Host := { self := 1, order := .stable }

def started : Server where
  db := ⟨.empty, threeSubmissions⟩
  memory := {
    timer := running.timer
    cache := (freshStandings running threeSubmissions).getD Cache.empty
    sent := [] }
  now := 20000

theorem current_started : Current sampleHost started where
  readable := readable_threeSubmissions
  duration := by decide
  upToDate := by
    have hduration : running.timer.duration ≠ 0 := by decide
    obtain ⟨cache, sent, hupdate, -⟩ := getElem?_updateStandings readable_threeSubmissions hduration 0 Cache.empty
    have hfresh : freshStandings running threeSubmissions = some cache := by
      rw [freshStandings, hupdate]
      rfl
    show freshStandings running threeSubmissions = some ((freshStandings running threeSubmissions).getD Cache.empty)
    rw [hfresh]
    rfl

def judged (result : Nat) : Arrival where
  now := 20100
  key := (1, 1)
  message := .mark { submissionId := 12, marker := 6, result, time := 20100, serverId := 1, comment := [], files := [] }

theorem upToDate_override : ∃ s, processAt sampleHost started (judged 1) = some s ∧
    (machine sampleHost).Reach (Steady sampleHost) s ∧ (s.memory.cache.final[3]?).map StandingsData.points = some 0 ∧
    UpToDate sampleHost s := by
  have hstep : ∃ s, processAt sampleHost started (judged 1) = some s ∧
      (s.memory.cache.final[3]?).map StandingsData.points = some 0 := by decide +kernel
  obtain ⟨s, hstep, hpoints⟩ := hstep
  have hsteady : Steady sampleHost started (judged 1) :=
    ⟨Table.forall_rows (by decide), by decide +kernel, by decide +kernel⟩
  have hreach : (machine sampleHost).Reach (Steady sampleHost) s := .step (.init current_started) hsteady hstep
  exact ⟨s, hstep, hreach, hpoints, upToDate_of_steady _ _ hreach⟩

/-- The judge takes the verdict back; the team keeps the point until the server is started again. -/
theorem not_upToDate_judged : ∃ s, processAt sampleHost started (judged 5) = some s ∧
    (machine sampleHost).Reachable s ∧ (s.memory.cache.final[3]?).map StandingsData.points = some 1 ∧
    ((freshStandings (envAt sampleHost s.now s.memory.timer) s.db.contest).bind fun fresh =>
      (fresh.final[3]?).map StandingsData.points) = some 0 ∧ ¬UpToDate sampleHost s := by
  have hstep : ∃ s, processAt sampleHost started (judged 5) = some s ∧
      (s.memory.cache.final[3]?).map StandingsData.points = some 1 ∧
      ((freshStandings (envAt sampleHost s.now s.memory.timer) s.db.contest).bind fun fresh =>
        (fresh.final[3]?).map StandingsData.points) = some 0 := by decide +kernel
  obtain ⟨s, hstep, hcached, hfresh⟩ := hstep
  have hmachine : (machine sampleHost).step started (judged 5) s := hstep
  refine ⟨s, hstep, .step (.init current_started) trivial hmachine, hcached, hfresh, fun hupToDate => ?_⟩
  rw [UpToDate] at hupToDate
  rw [hupToDate, Option.bind_some, hcached] at hfresh
  cases hfresh

end

end Abacus.Standings.Incremental
