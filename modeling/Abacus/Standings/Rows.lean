import Abacus.Standings.Update

/-! # The rows that an update writes

An update puts the row that the counted submissions give in the place of the cached one, unless there is none or
it is the same. The rows of the other users stay.
-/

namespace Abacus.Standings.Rows

open Library Library.Bytes Misc Database.Schema Database.Marks Database.People
open Client.Action Peer.Process Peer.Totality Update

structure Entry where
  id : Nat
  userId : Nat
  probId : Nat
  sub : SubData
  deriving DecidableEq

variable (env : Env) (c : Contest)

def subDataOf (s : Submission) (state : Int) : SubData :=
  let contestTime := env.timer.contestTime env.now (userGroup c s.userId) s.time
  ⟨contestTime, state = 0, isBlinded env.timer contestTime⟩

def entryOf (id : Nat) (s : Submission) : Option Entry :=
  ((getSubmissionState c env.order id).filter fun st => counts st.state).map fun st =>
    ⟨id, s.userId, s.probId, subDataOf env c s st.state⟩

/-- The queries list a submission only with its user and the short name of its problem. -/
def isListed (s : Submission) : Bool :=
  c.user.contains s.userId && c.problemAttributes.contains (s.probId, str "shortname")

def entries : List Entry :=
  c.submission.toList.filterMap fun r => if isListed c r.2 then entryOf env c r.1 r.2 else none

structure Readable : Prop where
  range : InRange c
  problem : ∀ (id : Nat) (s : Submission), c.submission[id]? = some s → s.probId < 4294967296

section

variable {env c} {s : Submission}

theorem submissionAttrs_of_listed (id : Nat) (h : isListed c s = true) :
    ∃ attrs, submissionAttrs c id s = some attrs ∧ attrs.getD (str "submission_id") [] = decimal id ∧
      attrs.getD (str "time") [] = decimal s.time ∧ attrs.getD (str "prob_id") [] = decimal s.probId := by
  obtain ⟨huser, hname⟩ := Bool.and_eq_true_iff.mp h
  obtain ⟨user, huser⟩ := Table.mem_iff_exists_row.mp (Std.ExtTreeMap.contains_iff_mem.mp huser)
  obtain ⟨value, hvalue⟩ := Table.mem_iff_exists_row.mp (Std.ExtTreeMap.contains_iff_mem.mp hname)
  refine ⟨_, by rw [submissionAttrs, huser, hvalue], ?_, ?_, ?_⟩
  all_goals
    simp only [Table.getD_insert_row]
    rfl

theorem submissionAttrs_of_not_listed {id : Nat} (h : isListed c s = false) : submissionAttrs c id s = none := by
  unfold submissionAttrs
  split
  · next user value huser hvalue =>
    have hlisted : isListed c s = true := Bool.and_eq_true_iff.mpr
      ⟨Std.ExtTreeMap.contains_iff_mem.mpr (Table.mem_iff_exists_row.mpr ⟨user, huser⟩),
        Std.ExtTreeMap.contains_iff_mem.mpr (Table.mem_iff_exists_row.mpr ⟨value, hvalue⟩)⟩
    rw [h] at hlisted
    cases hlisted
  · rfl

def Entry.counted (e : Entry) : Counted := (e.userId, e.probId, e.sub)

theorem collectOne_of_listed (hc : Readable c) {id : Nat} (hs : c.submission[id]? = some s)
    {attrs : AttributeList} (hid : attrs.getD (str "submission_id") [] = decimal id)
    (htime : attrs.getD (str "time") [] = decimal s.time) (hprob : attrs.getD (str "prob_id") [] = decimal s.probId)
    (data : ProblemData) :
    collectOne env c data attrs = some ((entryOf env c id s).elim data fun e => push data e.counted) := by
  obtain ⟨hlt, htlt⟩ := hc.range.submission id s hs
  have huser : submission2userId c id = s.userId := by rw [submission2userId, hs]
  unfold collectOne entryOf
  rw [hid, htime, hprob, fromStringU32_decimal hlt, fromStringU32_decimal (hc.problem id s hs),
    fromStringTime_decimal (by omega)]
  simp only [Option.bind_eq_bind, Option.bind_some]
  cases getSubmissionState c env.order id with
  | none => rfl
  | some st =>
    by_cases hcounts : counts st.state = true
    · simp only [hcounts, if_true, Option.filter_some, Option.map_some, Option.elim_some, Entry.counted, huser,
        subDataOf]
      rfl
    · simp only [hcounts, Option.filter_some]
      rfl

def covers (uid userId : Nat) : Bool := uid = 0 || userId = uid

theorem collect_rows (hc : Readable c) (uid : Nat) (rows : List (Nat × Submission))
    (hrows : ∀ r ∈ rows, c.submission[r.1]? = some r.2) (data : ProblemData) :
    (rows.filterMap fun r => if uid = 0 ∨ r.2.userId = uid then submissionAttrs c r.1 r.2 else none).foldlM
        (collectOne env c) data =
      some (((rows.filterMap fun r => if isListed c r.2 then entryOf env c r.1 r.2 else none).filter
        fun e => covers uid e.userId).foldl (fun data e => push data e.counted) data) := by
  induction rows generalizing data with
  | nil => rfl
  | cons r rows ih =>
    obtain ⟨id, s⟩ := r
    have hrest := ih fun r hr => hrows r (.tail _ hr)
    have hs : c.submission[id]? = some s := hrows (id, s) (.head _)
    have huser : ∀ e ∈ entryOf env c id s, e.userId = s.userId := by
      intro e he
      obtain ⟨st, -, rfl⟩ := Option.map_eq_some_iff.mp he
      rfl
    rw [List.filterMap_cons, List.filterMap_cons]
    cases hlisted : isListed c s with
    | false => simp only [submissionAttrs_of_not_listed hlisted, ite_self, Bool.false_eq_true, if_false, hrest]
    | true =>
      obtain ⟨attrs, hattrs, hid, htime, hprob⟩ := submissionAttrs_of_listed id hlisted
      by_cases huid : uid = 0 ∨ s.userId = uid
      · simp only [huid, if_true, hattrs, List.foldlM_cons, collectOne_of_listed hc hs hid htime hprob,
          Option.bind_eq_bind, Option.bind_some, hrest]
        cases he : entryOf env c id s with
        | none => rfl
        | some e =>
          have hcovers : covers uid e.userId = true := by
            rw [covers, huser e he]
            simpa using huid
          simp only [List.filter_cons, hcovers, if_true]
          rfl
      · simp only [huid, if_false, if_true, hrest]
        cases he : entryOf env c id s with
        | none => rfl
        | some e =>
          have hcovers : covers uid e.userId = false := by
            rw [covers, huser e he]
            simpa using huid
          simp only [List.filter_cons, hcovers, Bool.false_eq_true, if_false]

theorem problemData_eq (hc : Readable c) (uid : Nat) :
    problemData env c uid =
      some (((entries env c).filter fun e => covers uid e.userId).foldl (fun data e => push data e.counted) ∅) := by
  apply collect_rows hc
  intro r hr
  exact Std.ExtTreeMap.mem_toList_iff_getElem?_eq_some.mp hr

end

def problemsOf (es : List Entry) : Table Nat (List SubData) :=
  es.foldl (fun problems e => pushProblem problems e.probId e.sub) ∅

theorem problemsOf_append_singleton (es : List Entry) (e : Entry) :
    problemsOf (es ++ [e]) = pushProblem (problemsOf es) e.probId e.sub := by
  rw [problemsOf, List.foldl_append]
  rfl

theorem getElem?_collected (es : List Entry) (userId : Nat) :
    (es.foldl (fun data e => push data e.counted) ∅)[userId]? =
      if (es.filter fun e => e.userId = userId) = [] then none
      else some (problemsOf (es.filter fun e => e.userId = userId)) := by
  induction es using List.reverseRecOn with
  | nil => rfl
  | append_singleton es e ih =>
    rw [List.foldl_append, List.foldl_cons, List.foldl_nil, push, Table.getElem?_insert_row, List.filter_append]
    by_cases huser : e.userId = userId
    · have hdata : (es.foldl (fun data e => push data e.counted) ∅).getD userId ∅ =
          problemsOf (es.filter fun e => e.userId = userId) := by
        rw [Std.ExtTreeMap.getD_eq_getD_getElem?, ih]
        split
        · next hnil =>
          rw [hnil]
          rfl
        · rfl
      have hsingle : List.filter (fun e => decide (e.userId = userId)) [e] = [e] := by simp [huser]
      rw [hsingle, problemsOf_append_singleton, if_pos (show e.counted.1 = userId from huser),
        if_neg (List.append_ne_nil_of_right_ne_nil _ (List.cons_ne_nil e []))]
      rw [show e.counted.1 = userId from huser, hdata]
      rfl
    · have hnone : List.filter (fun e => decide (e.userId = userId)) [e] = [] := by simp [huser]
      rw [hnone, List.append_nil, if_neg (show ¬e.counted.1 = userId from huser), ih]

def merged (old : Option StandingsData) (d : StandingsData) : Option StandingsData :=
  if !d.tries.isEmpty && news old d then some d else old

theorem getElem?_update_self (b : Board) (userId : Nat) (d : StandingsData) :
    (b.update userId d).standings[userId]? = merged b.standings[userId]? d := by
  unfold Board.update merged
  split
  · exact Std.ExtTreeMap.getElem?_insert_self
  · rfl

theorem getElem?_update_of_ne (b : Board) {userId other : Nat} (h : userId ≠ other) (d : StandingsData) :
    (b.update userId d).standings[other]? = b.standings[other]? := by
  unfold Board.update
  split
  · rw [Table.getElem?_insert_row, if_neg h]
  · rfl

def side {α : Type} (final : Bool) (x : α × α) : α := if final then x.2 else x.1

theorem side_updateBoards (c : Contest) (final : Bool) (boards : Board × Board)
    (team : Nat × Table Nat (List SubData)) : side final (updateBoards c boards team) =
      (side final boards).update team.1 (side final (teamData c team.1 team.2)) := by
  cases final <;> rfl

theorem getElem?_foldl_updateBoards (c : Contest) (final : Bool) (data : ProblemData) (boards : Board × Board)
    (userId : Nat) :
    (side final (data.toList.foldl (updateBoards c) boards)).standings[userId]? =
      match data[userId]? with
      | some problems => merged (side final boards).standings[userId]? (side final (teamData c userId problems))
      | none => (side final boards).standings[userId]? := by
  have hhit : ∀ (boards : Board × Board) problems,
      (side final (updateBoards c boards (userId, problems))).standings[userId]? =
      merged (side final boards).standings[userId]? (side final (teamData c userId problems)) := by
    intro boards problems
    rw [side_updateBoards]
    exact getElem?_update_self ..
  have hmiss : ∀ (boards : Board × Board) other problems, other ≠ userId →
      (side final (updateBoards c boards (other, problems))).standings[userId]? =
        (side final boards).standings[userId]? := by
    intro boards other problems hne
    rw [side_updateBoards]
    exact getElem?_update_of_ne _ hne _
  have hfold := Table.foldl_toList data (updateBoards c) (fun boards => (side final boards).standings[userId]?) userId
    (fun problems old => merged old (side final (teamData c userId problems))) hhit hmiss boards
  cases hdata : data[userId]? with
  | none | some problems =>
    rw [hdata] at hfold
    exact hfold

/-- What the counted submissions of a user come to; no row if nothing was tried. -/
def rowOf (final : Bool) (c : Contest) (userId : Nat) (es : List Entry) : Option StandingsData :=
  let d := side final (teamData c userId (problemsOf es))
  if d.tries.isEmpty then none else some d

/-- The row of the user that stands after an update: the new one, but a row is never taken away. -/
def overlay (old new : Option StandingsData) : Option StandingsData :=
  match new with
  | none => old
  | some d => merged old d

theorem tries_teamData_nil (final : Bool) (c : Contest) (userId : Nat) :
    (side final (teamData c userId (problemsOf []))).tries = ∅ := by
  cases final <;> rfl

variable {env c}

def entriesOf (env : Env) (c : Contest) (userId : Nat) : List Entry :=
  (entries env c).filter fun e => e.userId = userId

theorem getElem?_updateStandings (hc : Readable c) (hduration : env.timer.duration ≠ 0) (uid : Nat) (cache : Cache) :
    ∃ cache' notices, updateStandings env c uid cache = some (cache', notices) ∧ ∀ final userId,
      (cache'.board final)[userId]? = if covers uid userId then
        overlay (cache.board final)[userId]? (rowOf final c userId (entriesOf env c userId))
      else (cache.board final)[userId]? := by
  refine ⟨_, _, by rw [updateStandings, if_neg hduration, problemData_eq hc, Option.map_some], fun final userId => ?_⟩
  have hboard : ∀ boards : Board × Board, (Cache.mk boards.1.standings boards.2.standings).board final =
      (side final boards).standings := by
    intro boards
    cases final <;> rfl
  have hold : (side final ((⟨cache.contestant, false⟩, ⟨cache.final, false⟩) : Board × Board)).standings =
      cache.board final := by
    cases final <;> rfl
  rw [hboard, getElem?_foldl_updateBoards, getElem?_collected, hold, List.filter_filter]
  cases hcovers : covers uid userId with
  | true =>
    have hfilter : ((entries env c).filter fun e => decide (e.userId = userId) && covers uid e.userId) =
        entriesOf env c userId := by
      apply List.filter_congr
      intro e _
      by_cases huser : e.userId = userId
      · simp [huser, hcovers]
      · simp [huser]
    rw [hfilter, if_pos rfl]
    by_cases hnil : entriesOf env c userId = []
    · rw [if_pos hnil, hnil, rowOf]
      simp only [tries_teamData_nil]
      rfl
    · rw [if_neg hnil, rowOf]
      dsimp only
      split
      · next hempty => simp [overlay, merged, hempty]
      · rfl
  | false =>
    have hfilter : ((entries env c).filter fun e => decide (e.userId = userId) && covers uid e.userId) = [] := by
      apply List.filter_eq_nil_iff.mpr
      intro e _ he
      obtain ⟨huser, hcov⟩ := Bool.and_eq_true_iff.mp he
      rw [of_decide_eq_true huser, hcovers] at hcov
      cases hcov
    rw [hfilter]
    rfl

theorem tries_of_rowOf {final : Bool} {userId : Nat} {es : List Entry} {d : StandingsData}
    (h : rowOf final c userId es = some d) : d.tries.isEmpty = false := by
  unfold rowOf at h
  dsimp only at h
  split at h
  · cases h
  · next htries =>
    cases h
    exact Bool.eq_false_iff.mpr htries

theorem overlay_none_rowOf (final : Bool) (userId : Nat) (es : List Entry) :
    overlay none (rowOf final c userId es) = rowOf final c userId es := by
  cases hrow : rowOf final c userId es with
  | none => rfl
  | some d => simp [overlay, merged, news, tries_of_rowOf hrow]

theorem Cache.ext_board {a b : Cache}
    (h : ∀ final (userId : Nat), (a.board final)[userId]? = (b.board final)[userId]?) : a = b := by
  obtain ⟨contestant, final⟩ := a
  obtain ⟨contestant', final'⟩ := b
  congr 1
  · exact Std.ExtTreeMap.ext_getElem? (h false)
  · exact Std.ExtTreeMap.ext_getElem? (h true)

/-- A cache is that of a fresh server if it has the row of every user. -/
theorem freshStandings_eq_some (hc : Readable c) (hduration : env.timer.duration ≠ 0) {cache : Cache} :
    freshStandings env c = some cache ↔
      ∀ final userId, (cache.board final)[userId]? = rowOf final c userId (entriesOf env c userId) := by
  obtain ⟨fresh, sent, hupdate, hrows⟩ := getElem?_updateStandings hc hduration 0 Cache.empty
  have hfresh : ∀ final userId, (fresh.board final)[userId]? = rowOf final c userId (entriesOf env c userId) := by
    intro final userId
    have hempty : (Cache.empty.board final)[userId]? = none := by cases final <;> rfl
    rw [hrows, hempty, overlay_none_rowOf]
    rfl
  rw [freshStandings, hupdate, Option.map_some, Option.some.injEq]
  constructor
  · rintro rfl
    exact hfresh
  · intro h
    apply Cache.ext_board
    intro final userId
    rw [h, hfresh]

end Abacus.Standings.Rows
