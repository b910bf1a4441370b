import Mathlib.Algebra.BigOperators.Group.Finset.Basic
import Abacus.Standings.Score

/-! # What the score is

The score in terms of the counted submissions alone: points for the problems solved, the time of the first correct
submission with twenty minutes for each one before it, and the number of tries.
-/

namespace Abacus.Standings.Scoring

open Library Library.StableSort Library.Bytes Database.Schema Database.Marks Database.People
open Client.Action Peer.Process Update Rows Score

section

structure Attempt where
  id : Nat
  time : Int
  correct : Bool
  deriving DecidableEq

def Before (a b : Attempt) : Prop := a.time < b.time ∨ a.time = b.time ∧ a.id < b.id

instance (a b : Attempt) : Decidable (Before a b) := inferInstanceAs (Decidable (_ ∨ _))

def firstCorrect (l : List Attempt) : Option Attempt :=
  l.find? fun a => a.correct ∧ ∀ b ∈ l, b.correct = true → ¬Before b a

def earlier (l : List Attempt) (a : Attempt) : Nat := l.countP fun b => Before b a

def solved (l : List Attempt) : Bool := l.any Attempt.correct

def penalty (l : List Attempt) : Int :=
  match firstCorrect l with
  | some a => a.time + 1200 * earlier l a
  | none => 0

def tryCount (l : List Attempt) : Int :=
  match firstCorrect l with
  | some a => earlier l a + 1
  | none => -l.length

variable (env : Env) (c : Contest)

/-- The submissions of a user for a problem that count: all of them, or those outside the blinds. -/
def attempts (final : Bool) (userId probId : Nat) : List Attempt :=
  c.submission.toList.filterMap fun (id, s) =>
    if s.userId = userId ∧ s.probId = probId then
      (getSubmissionState c env.order id).bind fun st =>
        let time := env.timer.contestTime env.now (userGroup c userId) s.time
        if counts st.state && (final || !isBlinded env.timer time) then some ⟨id, time, st.state = 0⟩ else none
    else none

def problems : Finset Nat := (c.submission.toList.map fun r => r.2.probId).toFinset

def bonus (userId : Nat) : Int × Int := (userBonus c userId).getD (0, 0)

def solvedProblems (final : Bool) (userId : Nat) : Finset Nat :=
  (problems c).filter fun p => solved (attempts env c final userId p)

structure IsRow (final : Bool) (userId : Nat) (row : StandingsData) : Prop where
  points : row.points = (bonus c userId).1 + (solvedProblems env c final userId).card
  time : row.time = -(bonus c userId).2 + ∑ p ∈ problems c, penalty (attempts env c final userId p)
  tries : ∀ p : Nat, row.tries[p]? =
    if attempts env c final userId p = [] then none else some (tryCount (attempts env c final userId p))

/-- The standings of a fresh server have a row for each user with a counted submission, and it is the right one. -/
def Scores : Prop :=
  ∃ cache, freshStandings env c = some cache ∧ ∀ final userId,
    ((∃ row, (cache.board final)[userId]? = some row) ↔ ∃ p, attempts env c final userId p ≠ []) ∧
      ∀ row, (cache.board final)[userId]? = some row → IsRow env c final userId row

end

section

variable {l sorted : List Attempt} {t : Support.Timer.TimerSupportModule} {es : List Entry} {a : Attempt}

theorem not_before_of_before {b : Attempt} (h : Before a b) : ¬Before b a := by
  unfold Before at *
  omega

theorem firstCorrect_eq_none (h : ∀ a ∈ l, a.correct = false) : firstCorrect l = none := by
  apply List.find?_eq_none.mpr
  intro a ha hfirst
  rw [h a ha] at hfirst
  exact Bool.false_ne_true (of_decide_eq_true hfirst).1

theorem firstCorrect_of_sorted {pre post : List Attempt} (hsorted : (pre ++ a :: post).Pairwise Before)
    (hperm : (pre ++ a :: post).Perm l) (hpre : ∀ b ∈ pre, b.correct = false) (ha : a.correct = true) :
    firstCorrect l = some a := by
  have hmem : ∀ {b}, b ∈ l ↔ b ∈ pre ∨ b = a ∨ b ∈ post := by
    intro b
    rw [← hperm.mem_iff, List.mem_append, List.mem_cons]
  obtain ⟨hpost, -⟩ := List.pairwise_cons.mp (List.pairwise_append.mp hsorted).2.1
  -- a later correct submission has this one before it
  have hlater : ∀ b ∈ l, b.correct = true → b = a ∨ Before a b := by
    intro b hb hcorrect
    rcases hmem.mp hb with hb | rfl | hb
    · rw [hpre b hb] at hcorrect
      cases hcorrect
    · exact .inl rfl
    · exact .inr (hpost b hb)
  have hfirst : ∀ b ∈ l, b.correct = true → ¬Before b a := by
    intro b hb hcorrect
    rcases hlater b hb hcorrect with rfl | hbefore
    · exact fun h => not_before_of_before h h
    · exact not_before_of_before hbefore
  have hal : a ∈ l := hmem.mpr (.inr (.inl rfl))
  unfold firstCorrect
  cases hfind : l.find? fun a => a.correct ∧ ∀ b ∈ l, b.correct = true → ¬Before b a with
  | none => exact absurd (decide_eq_true ⟨ha, hfirst⟩) (List.find?_eq_none.mp hfind a hal)
  | some b =>
    have hfound := List.find?_some hfind
    obtain ⟨hb, hleast⟩ := of_decide_eq_true hfound
    rcases hlater b (List.mem_of_find?_eq_some hfind) hb with rfl | hbefore
    · rfl
    · exact absurd hbefore (hleast a hal ha)

theorem earlier_of_sorted {pre post : List Attempt} (hsorted : (pre ++ a :: post).Pairwise Before)
    (hperm : (pre ++ a :: post).Perm l) : earlier l a = pre.length := by
  obtain ⟨-, hcons, hpre⟩ := List.pairwise_append.mp hsorted
  obtain ⟨hpost, -⟩ := List.pairwise_cons.mp hcons
  have hall : pre.countP (fun b => Before b a) = pre.length := by
    apply List.countP_eq_length.mpr
    intro b hb
    exact decide_eq_true (hpre b hb a (.head post))
  have hnone : (a :: post).countP (fun b => Before b a) = 0 := by
    apply List.countP_eq_zero.mpr
    intro b hb hbefore
    have hbefore : Before b a := of_decide_eq_true hbefore
    cases hb with
    | head => exact not_before_of_before hbefore hbefore
    | tail _ hb => exact not_before_of_before hbefore (hpost b hb)
  rw [earlier, ← hperm.countP_eq, List.countP_append, hall, hnone, Nat.add_zero]

def toAttempt (e : Entry) : Attempt := ⟨e.id, e.sub.time, e.sub.correct⟩

structure Collected (t : Support.Timer.TimerSupportModule) (es : List Entry) : Prop where
  blinded : ∀ e ∈ es, e.sub.finalOnly = isBlinded t e.sub.time
  ids : es.Pairwise fun a b => a.id < b.id

theorem lessThan_eq_false_iff {a b : Entry} (ha : a.sub.finalOnly = isBlinded t a.sub.time)
    (hb : b.sub.finalOnly = isBlinded t b.sub.time) :
    subDataLessThan b.sub a.sub = false ↔ a.sub.time ≤ b.sub.time := by
  unfold subDataLessThan
  rw [ha, hb]
  unfold isBlinded
  by_cases haX : a.sub.time > t.duration - t.blinds <;> by_cases hbX : b.sub.time > t.duration - t.blinds <;>
    simp [haX, hbX] <;> omega

theorem Collected.exists_sorted (h : Collected t es) :
    ∃ sorted : List Entry, sorted.map Entry.sub = sortSubs (es.map Entry.sub) ∧ sorted.Perm es ∧
      (sorted.map toAttempt).Pairwise Before := by
  have : Std.Total fun a b : Entry => subDataLessThan b.sub a.sub = false := ⟨fun a b => lessThan_total a.sub b.sub⟩
  have : IsTrans Entry fun a b => subDataLessThan b.sub a.sub = false := ⟨fun _ _ _ => lessThan_trans⟩
  have hperm := List.perm_insertionSort (fun a b : Entry => subDataLessThan b.sub a.sub = false) es
  refine ⟨es.insertionSort fun a b => subDataLessThan b.sub a.sub = false, ?_, hperm, ?_⟩
  · apply List.map_insertionSort
    intro a _ b _
    exact Iff.rfl
  · apply List.pairwise_map.mpr
    apply List.Pairwise.imp_of_mem _ (pairwise_insertionSort h.ids)
    intro a b ha hb hab
    have ha := h.blinded a (hperm.mem_iff.mp ha)
    have hb := h.blinded b (hperm.mem_iff.mp hb)
    have htime := (lessThan_eq_false_iff ha hb).mp hab.1
    by_cases heq : a.sub.time = b.sub.time
    · exact .inr ⟨heq, hab.2 ((lessThan_eq_false_iff hb ha).mpr (Int.le_of_eq heq.symm))⟩
    · exact .inl (lt_of_le_of_ne htime heq)

/-- The walk finds the first correct submission and counts the submissions up to it. -/
theorem Collected.outcome (h : Collected t es) :
    let x := walk true 0 false 0 (sortSubs (es.map Entry.sub))
    let l := es.map toAttempt
    (solved l = false ∧ firstCorrect l = none ∧ x.correct = false ∧ x.tries = l.length) ∨
    (∃ a, solved l = true ∧ firstCorrect l = some a ∧ x.correct = true ∧ x.tries = earlier l a + 1 ∧
      x.correctTime = a.time) := by
  obtain ⟨sorted, hsubs, hperm, hbefore⟩ := h.exists_sorted
  dsimp only
  rw [← hsubs]
  have hattempts := hperm.map toAttempt
  have hsolved : solved (es.map toAttempt) = sorted.any fun e => e.sub.correct := by
    rw [solved, ← hattempts.any_eq, List.any_map]
    rfl
  cases hfind : sorted.find? fun e => e.sub.correct with
  | none =>
    have hall : ∀ e ∈ sorted, e.sub.correct = false :=
      fun e he => Bool.eq_false_iff.mpr (List.find?_eq_none.mp hfind e he)
    have hsubs : ∀ s ∈ sorted.map Entry.sub, s.correct = false := by
      intro s hs
      obtain ⟨e, he, rfl⟩ := List.mem_map.mp hs
      exact hall e he
    obtain ⟨htries, hcorrect⟩ := walk_incorrect hsubs 0 0
    refine .inl ⟨?_, ?_, hcorrect, ?_⟩
    · rw [hsolved]
      exact List.any_eq_false.mpr fun e he => Bool.eq_false_iff.mp (hall e he)
    · apply firstCorrect_eq_none
      intro a ha
      obtain ⟨e, he, rfl⟩ := List.mem_map.mp (hattempts.mem_iff.mpr ha)
      exact hall e he
    · rw [htries, ← hattempts.length_eq, List.length_map, List.length_map, Int.zero_add]
  | some e =>
    obtain ⟨he, pre, post, rfl, hpre⟩ := List.find?_eq_some_iff_append.mp hfind
    have hall : ∀ e ∈ pre, e.sub.correct = false := fun e he => Bool.not_eq_true' _ |>.mp (hpre e he)
    have hsubs : ∀ s ∈ pre.map Entry.sub, s.correct = false := by
      intro s hs
      obtain ⟨e, he, rfl⟩ := List.mem_map.mp hs
      exact hall e he
    have hpre : ∀ a ∈ pre.map toAttempt, a.correct = false := by
      intro a ha
      obtain ⟨e, he, rfl⟩ := List.mem_map.mp ha
      exact hall e he
    rw [List.map_append, List.map_cons] at hbefore hattempts
    refine .inr ⟨toAttempt e, ?_, firstCorrect_of_sorted hbefore hattempts hpre he, ?_⟩
    · rw [hsolved]
      exact List.any_eq_true.mpr ⟨e, by simp, he⟩
    · rw [List.map_append, List.map_cons, walk_first_correct hsubs he, earlier_of_sorted hbefore hattempts]
      refine ⟨rfl, ?_, rfl⟩
      dsimp only
      rw [List.length_map, List.length_map, Int.zero_add]

theorem Collected.triesOf (h : Collected t es) (hne : es ≠ []) :
    triesOf (es.map Entry.sub) = some (tryCount (es.map toAttempt)) := by
  unfold Score.triesOf tryCount
  rcases h.outcome with ⟨-, hfirst, hcorrect, htries⟩ | ⟨a, -, hfirst, hcorrect, htries, -⟩
  · have hlength : ((es.map toAttempt).length : Int) ≠ 0 := by
      rw [List.length_map]
      have := List.length_pos_iff.mpr hne
      omega
    dsimp only
    rw [htries, hcorrect, hfirst, if_neg hlength]
    rfl
  · dsimp only
    rw [htries, hcorrect, hfirst, if_neg (by omega)]
    rfl

end

section

theorem int32_of_range {z : Int} (hlow : -2147483648 ≤ z) (hhigh : z ≤ 2147483647) : int32 z = z :=
  Int.bmod_eq_of_le (by omega) (by omega)

variable {t : Support.Timer.TimerSupportModule} {es : List Entry}

def group (es : List Entry) (probId : Nat) : List Entry := es.filter fun e => e.probId = probId

def groupAttempts (es : List Entry) (probId : Nat) : List Attempt := (group es probId).map toAttempt

/-- Fewer submissions for one problem than would let the penalty overflow. -/
def maxTries : Nat := 1789570

theorem Collected.group (h : Collected t es) (probId : Nat) : Collected t (group es probId) where
  blinded e he := h.blinded e (List.mem_filter.mp he).1
  ids := h.ids.sublist List.filter_sublist

theorem Collected.scoreSubs (h : Collected t es) (probId : Nat) (d : StandingsData)
    (hmax : (es.map toAttempt).length ≤ maxTries) (hlow : -2147483648 ≤ d.points)
    (hhigh : solved (es.map toAttempt) = true → d.points < 2147483647) :
    (scoreSubs d (probId, es.map Entry.sub)).points = d.points + (if solved (es.map toAttempt) then 1 else 0) ∧
      (scoreSubs d (probId, es.map Entry.sub)).time = d.time + penalty (es.map toAttempt) := by
  have houtcome := h.outcome
  dsimp only at houtcome
  unfold Score.scoreSubs score penalty
  dsimp only
  generalize walk true 0 false 0 (sortSubs (es.map Entry.sub)) = x at *
  rcases houtcome with ⟨hsolved, hfirst, hcorrect, -⟩ | ⟨a, hsolved, hfirst, hcorrect, htries, htime⟩
  · simp only [hcorrect, hsolved, hfirst, Bool.false_eq_true, if_false, Int.add_zero]
    split <;> exact ⟨rfl, rfl⟩
  · have hcount : earlier (es.map toAttempt) a < (es.map toAttempt).length := by
      refine List.countP_lt_length_iff.mpr ⟨a, List.mem_of_find?_eq_some hfirst, ?_⟩
      exact decide_eq_false fun hbefore => not_before_of_before hbefore hbefore
    have hbound : earlier (es.map toAttempt) a < 1789570 := Nat.lt_of_lt_of_le hcount hmax
    have hpoints := hhigh hsolved
    have hpenalty : int32 (int32 ((x.tries - 1) * 20) * 60) = 1200 * earlier (es.map toAttempt) a := by
      have hminutes : int32 ((x.tries - 1) * 20) = (x.tries - 1) * 20 := int32_of_range (by omega) (by omega)
      rw [hminutes, int32_of_range (by omega) (by omega)]
      omega
    have hpositive : x.tries ≠ 0 := by omega
    simp only [hcorrect, hsolved, hfirst, if_true, if_neg hpositive, hpenalty, htime]
    refine ⟨int32_of_range (by omega) (by omega), ?_⟩
    omega

theorem Collected.foldl_scoreSubs (h : Collected t es) (ps : List Nat) (d : StandingsData)
    (hmax : ∀ p ∈ ps, (groupAttempts es p).length ≤ maxTries) (hlow : -2147483648 ≤ d.points)
    (hhigh : d.points + ps.countP (fun p => solved (groupAttempts es p)) ≤ 2147483647) :
    let row := (ps.map fun p => (p, bucket es p)).foldl Score.scoreSubs d
    row.points = d.points + ps.countP (fun p => solved (groupAttempts es p)) ∧
      row.time = d.time + (ps.map fun p => penalty (groupAttempts es p)).sum := by
  induction ps generalizing d with
  | nil => exact ⟨(Int.add_zero _).symm, (Int.add_zero _).symm⟩
  | cons p ps ih =>
    rw [List.countP_cons] at hhigh ⊢
    push_cast at hhigh ⊢
    have hroom : solved (groupAttempts es p) = true → d.points < 2147483647 := by
      intro hsolved
      rw [if_pos hsolved] at hhigh
      omega
    obtain ⟨hpoints, htime⟩ := (h.group p).scoreSubs p d (hmax p (.head ps)) hlow hroom
    have hpoints : (Score.scoreSubs d (p, bucket es p)).points =
        d.points + (if solved (groupAttempts es p) then 1 else 0) :=
      hpoints
    have hstep : 0 ≤ (if solved (groupAttempts es p) = true then (1 : Int) else 0) := by split <;> decide
    obtain ⟨hrest, hresttime⟩ := ih (Score.scoreSubs d (p, bucket es p)) (fun q hq => hmax q (.tail p hq))
      (by omega) (by omega)
    refine ⟨hrest.trans (by omega), hresttime.trans ?_⟩
    rw [List.map_cons, List.sum_cons, ← add_assoc]
    exact congrArg (· + _) htime

end

section

variable {env : Env} {c : Contest} {final : Bool} {userId p : Nat}

theorem mem_entries {e : Entry} (he : e ∈ entries env c) :
    ∃ s, c.submission[e.id]? = some s ∧ isListed c s = true ∧ entryOf env c e.id s = some e := by
  obtain ⟨⟨id, s⟩, hrow, hentry⟩ := List.mem_filterMap.mp he
  dsimp only at hentry
  split at hentry
  · next hlisted =>
    have hid : e.id = id := by
      obtain ⟨st, -, rfl⟩ := Option.map_eq_some_iff.mp hentry
      rfl
    exact ⟨s, hid ▸ Std.ExtTreeMap.mem_toList_iff_getElem?_eq_some.mp hrow, hlisted, hid ▸ hentry⟩
  · cases hentry

theorem collected_entries : Collected env.timer (entries env c) where
  blinded e he := by
    obtain ⟨s, -, -, hentry⟩ := mem_entries he
    obtain ⟨st, -, heq⟩ := Option.map_eq_some_iff.mp hentry
    rw [← congrArg Entry.sub heq]
    rfl
  ids := by
    apply List.Pairwise.filterMap _ _ (Std.ExtTreeMap.ordered_keys_toList (t := c.submission))
    intro a b hab e he f hf
    have hid : ∀ {r : Nat × Submission} {e : Entry},
        (if isListed c r.2 = true then entryOf env c r.1 r.2 else none) = some e → e.id = r.1 := by
      intro r e he
      split at he
      · obtain ⟨st, -, rfl⟩ := Option.map_eq_some_iff.mp he
        rfl
      · cases he
    rw [hid he, hid hf]
    exact Nat.compare_eq_lt.mp hab

variable {es : List Entry}

theorem Collected.sublist {t : Support.Timer.TimerSupportModule} {es' : List Entry} (h : Collected t es)
    (hsub : es'.Sublist es) : Collected t es' where
  blinded e he := h.blinded e (hsub.subset he)
  ids := h.ids.sublist hsub

def visible (env : Env) (c : Contest) (final : Bool) (userId : Nat) : List Entry :=
  (entriesOf env c userId).filter fun e => final || isOpen e

theorem rowOf_visible (final : Bool) (userId : Nat) :
    rowOf final c userId (entriesOf env c userId) = rowOf true c userId (visible env c final userId) := by
  cases final with
  | true =>
    have hall : visible env c true userId = entriesOf env c userId := List.filter_eq_self.mpr fun _ _ => rfl
    rw [hall]
  | false => exact rowOf_contestant ..

/-- Every submission that counts is one that the queries list. -/
def AllListed (env : Env) (c : Contest) : Prop :=
  ∀ (id : Nat) (s : Submission) (st : SubmissionState), c.submission[id]? = some s →
    getSubmissionState c env.order id = some st → counts st.state = true → isListed c s = true

theorem groupAttempts_visible (hlisted : AllListed env c) (final : Bool) (userId probId : Nat) :
    groupAttempts (visible env c final userId) probId = attempts env c final userId probId := by
  unfold groupAttempts group visible entriesOf entries attempts
  rw [List.filter_filterMap, List.filter_filterMap, List.filter_filterMap, List.map_filterMap]
  apply List.filterMap_congr
  rintro ⟨id, s⟩ hrow
  have hs := Std.ExtTreeMap.mem_toList_iff_getElem?_eq_some.mp hrow
  dsimp only
  cases hstate : getSubmissionState c env.order id with
  | none => simp [entryOf, hstate]
  | some st =>
    cases hcounts : counts st.state with
    | false => simp [entryOf, hstate, hcounts]
    | true =>
      have hentry : entryOf env c id s = some ⟨id, s.userId, s.probId, subDataOf env c s st.state⟩ := by
        rw [entryOf, hstate, Option.filter_some, hcounts]
        rfl
      rw [if_pos (hlisted id s st hs hstate hcounts), hentry]
      by_cases huser : s.userId = userId
      · subst huser
        by_cases hprob : s.probId = probId
        · subst hprob
          cases hkeep : final || !isBlinded env.timer (env.timer.contestTime env.now (userGroup c s.userId) s.time) with
          | true => simp [Option.filter, isOpen, unblinded, subDataOf, toAttempt, hcounts, hkeep]
          | false => simp [Option.filter, isOpen, unblinded, subDataOf, hkeep]
        · cases hkeep : final || isOpen ⟨id, s.userId, s.probId, subDataOf env c s st.state⟩ with
          | true | false => simp [Option.filter, hprob, hkeep]
      · simp [huser, Option.filter]

theorem length_attempts_le (final : Bool) (userId probId : Nat) :
    (attempts env c final userId probId).length ≤ c.submission.toList.length :=
  List.length_filterMap_le _ _

theorem attempts_contestant (userId probId : Nat) :
    attempts env c false userId probId =
      (attempts env c true userId probId).filter fun a => !isBlinded env.timer a.time := by
  unfold attempts
  rw [List.filter_filterMap]
  apply List.filterMap_congr
  rintro ⟨id, s⟩ -
  dsimp only
  split
  · cases getSubmissionState c env.order id with
    | none => rfl
    | some st =>
      cases hcounts : counts st.state with
      | false => simp [hcounts]
      | true =>
        cases hblinded : isBlinded env.timer (env.timer.contestTime env.now (userGroup c userId) s.time) with
        | true | false => simp [hcounts, hblinded, Option.filter]
  · rfl

theorem attempts_sublist (final : Bool) (userId probId : Nat) :
    (attempts env c final userId probId).Sublist (attempts env c true userId probId) := by
  cases final with
  | true => exact List.Sublist.refl _
  | false =>
    rw [attempts_contestant]
    exact List.filter_sublist

theorem solvedProblems_subset (final : Bool) (userId : Nat) :
    solvedProblems env c final userId ⊆ solvedProblems env c true userId := by
  intro p hp
  obtain ⟨hproblem, hsolved⟩ := Finset.mem_filter.mp hp
  obtain ⟨a, ha, hcorrect⟩ := List.any_eq_true.mp hsolved
  refine Finset.mem_filter.mpr ⟨hproblem, List.any_eq_true.mpr ⟨a, ?_, hcorrect⟩⟩
  exact (attempts_sublist final userId p).subset ha

theorem mem_problems_of_attempts {probId : Nat} (h : attempts env c final userId probId ≠ []) :
    probId ∈ problems c := by
  obtain ⟨a, ha⟩ := List.exists_mem_of_ne_nil _ h
  obtain ⟨⟨id, s⟩, hrow, hattempt⟩ := List.mem_filterMap.mp ha
  dsimp only at hattempt
  split at hattempt
  · next hsame => exact List.mem_toFinset.mpr (List.mem_map.mpr ⟨(id, s), hrow, hsame.2⟩)
  · cases hattempt

/-- The bonuses and the numbers of submissions are such that no `int` overflows. -/
structure Fitting (env : Env) (c : Contest) : Prop where
  seconds : ∀ (userId : Nat) (user : User), c.user[userId]? = some user →
    -2147483647 ≤ user.bonusSeconds ∧ user.bonusSeconds ≤ 2147483647
  points : ∀ (userId : Nat) (user : User), c.user[userId]? = some user →
    -2147483648 ≤ user.bonusPoints ∧ user.bonusPoints + (solvedProblems env c true userId).card ≤ 2147483647
  tries : ∀ userId probId, (attempts env c true userId probId).length ≤ maxTries

theorem toList_problemsOf (es : List Entry) :
    (problemsOf es).toList = (problemsOf es).keys.map fun p => (p, bucket es p) := by
  rw [← Std.ExtTreeMap.map_fst_toList_eq_keys, List.map_map]
  refine (List.map_id _).symm.trans (List.map_congr_left ?_)
  rintro ⟨p, subs⟩ hmem
  have hsubs := Std.ExtTreeMap.mem_toList_iff_getElem?_eq_some.mp hmem
  rw [getElem?_problemsOf] at hsubs
  split at hsubs
  · cases hsubs
  · cases hsubs
    rfl

theorem bucket_eq_nil : bucket es p = [] ↔ group es p = [] := List.map_eq_nil_iff

theorem groupAttempts_eq_nil : groupAttempts es p = [] ↔ group es p = [] :=
  List.map_eq_nil_iff

theorem mem_keys_problemsOf : p ∈ (problemsOf es).keys ↔ groupAttempts es p ≠ [] := by
  rw [Std.ExtTreeMap.mem_keys, Std.ExtTreeMap.mem_iff_isSome_getElem?, getElem?_problemsOf, ne_eq, groupAttempts_eq_nil,
    ← bucket_eq_nil]
  split
  · next hnil => simp [hnil]
  · next hne => simp [hne]

theorem nodup_keys_problemsOf (es : List Entry) : (problemsOf es).keys.Nodup :=
  Std.ExtTreeMap.nodup_keys

theorem countP_keys (hlisted : AllListed env c) (final : Bool) (userId : Nat) :
    (problemsOf (visible env c final userId)).keys.countP
        (fun p => solved (groupAttempts (visible env c final userId) p)) =
      (solvedProblems env c final userId).card := by
  have hset : ((problemsOf (visible env c final userId)).keys.filter
      fun p => solved (groupAttempts (visible env c final userId) p)).toFinset = solvedProblems env c final userId := by
    ext p
    simp only [List.mem_toFinset, List.mem_filter, mem_keys_problemsOf, groupAttempts_visible hlisted, solvedProblems,
      Finset.mem_filter]
    constructor
    · rintro ⟨hne, hsolved⟩
      exact ⟨mem_problems_of_attempts hne, hsolved⟩
    · rintro ⟨-, hsolved⟩
      refine ⟨fun hnil => ?_, hsolved⟩
      rw [hnil] at hsolved
      cases hsolved
  rw [← hset, List.toFinset_card_of_nodup ((nodup_keys_problemsOf _).filter _), List.countP_eq_length_filter]

theorem sum_keys (hlisted : AllListed env c) (final : Bool) (userId : Nat) :
    ((problemsOf (visible env c final userId)).keys.map
        fun p => penalty (groupAttempts (visible env c final userId) p)).sum =
      ∑ p ∈ problems c, penalty (attempts env c final userId p) := by
  rw [← List.sum_toFinset _ (nodup_keys_problemsOf _)]
  simp only [groupAttempts_visible hlisted]
  apply Finset.sum_subset
  · intro p hp
    have hne := mem_keys_problemsOf.mp (List.mem_toFinset.mp hp)
    rw [groupAttempts_visible hlisted] at hne
    exact mem_problems_of_attempts hne
  · intro p _ hp
    have hnil : attempts env c final userId p = [] := by
      by_contra hne
      rw [← groupAttempts_visible hlisted] at hne
      exact hp (List.mem_toFinset.mpr (mem_keys_problemsOf.mpr hne))
    rw [hnil]
    rfl

theorem exists_user_of_visible (h : visible env c final userId ≠ []) : ∃ user, c.user[userId]? = some user := by
  obtain ⟨e, he⟩ := List.exists_mem_of_ne_nil _ h
  obtain ⟨hentry, huser⟩ := List.mem_filter.mp (List.mem_filter.mp he).1
  obtain ⟨s, -, hlisted, hof⟩ := mem_entries hentry
  have hsame : s.userId = userId := by
    obtain ⟨st, -, heq⟩ := Option.map_eq_some_iff.mp hof
    exact (congrArg Entry.userId heq).trans (of_decide_eq_true huser)
  rw [isListed, Bool.and_eq_true, hsame] at hlisted
  exact Table.mem_iff_exists_row.mp (Std.ExtTreeMap.contains_iff_mem.mp hlisted.1)

theorem isRow_of_rowOf (hlisted : AllListed env c) (hfits : Fitting env c)
    {row : StandingsData} (hrow : rowOf true c userId (visible env c final userId) = some row) :
    IsRow env c final userId row := by
  have hne : visible env c final userId ≠ [] := by
    intro hnil
    rw [rowOf_final_eq_none.mpr hnil] at hrow
    cases hrow
  obtain ⟨user, huser⟩ := exists_user_of_visible hne
  have heq : row = side true (teamData c userId (problemsOf (visible env c final userId))) := by
    unfold rowOf at hrow
    dsimp only at hrow
    split at hrow
    · cases hrow
    · exact (Option.some.inj hrow).symm
  obtain ⟨hseconds, hseconds'⟩ := hfits.seconds userId user huser
  obtain ⟨hpoints, hpoints'⟩ := hfits.points userId user huser
  have hcollected : Collected env.timer (visible env c final userId) :=
    collected_entries.sublist (List.filter_sublist.trans List.filter_sublist)
  have hbonus : (bonusData c userId).points = (bonus c userId).1 ∧ (bonusData c userId).time = -(bonus c userId).2 := by
    unfold bonusData bonus userBonus
    rw [huser]
    exact ⟨rfl, int32_of_range (by omega) (by omega)⟩
  have hcount := countP_keys hlisted final userId
  have hcard : (solvedProblems env c final userId).card ≤ (solvedProblems env c true userId).card :=
    Finset.card_le_card (solvedProblems_subset final userId)
  have hfirst : (bonus c userId).1 = user.bonusPoints := by
    rw [bonus, userBonus, huser]
    rfl
  obtain ⟨hpts, htime⟩ := hcollected.foldl_scoreSubs (problemsOf (visible env c final userId)).keys (bonusData c userId)
    (fun p _ => by
      rw [groupAttempts_visible hlisted]
      exact (attempts_sublist final userId p).length_le.trans (hfits.tries userId p))
    (by rw [hbonus.1, hfirst]; exact hpoints) (by rw [hbonus.1, hfirst, hcount]; omega)
  rw [← toList_problemsOf, ← scored, ← teamData_final, ← heq] at hpts htime
  rw [hcount, hbonus.1] at hpts
  rw [sum_keys hlisted, hbonus.2] at htime
  refine ⟨hpts, htime, fun p => ?_⟩
  rw [heq, tries_teamData]
  have hgroup := groupAttempts_visible hlisted final userId p
  rw [← hgroup]
  by_cases hnil : group (visible env c final userId) p = []
  · rw [if_pos (bucket_eq_nil.mpr hnil), if_pos (groupAttempts_eq_nil.mpr hnil)]
  · rw [if_neg (mt bucket_eq_nil.mp hnil), if_neg (mt groupAttempts_eq_nil.mp hnil)]
    exact (hcollected.group p).triesOf hnil

theorem visible_ne_nil (hlisted : AllListed env c) (final : Bool) (userId : Nat) :
    visible env c final userId ≠ [] ↔ ∃ p, attempts env c final userId p ≠ [] := by
  constructor
  · intro hne
    obtain ⟨e, he⟩ := List.exists_mem_of_ne_nil _ hne
    refine ⟨e.probId, ?_⟩
    rw [← groupAttempts_visible hlisted]
    intro hnil
    have hgroup : e ∈ group (visible env c final userId) e.probId :=
      List.mem_filter.mpr ⟨he, decide_eq_true rfl⟩
    rw [groupAttempts_eq_nil.mp hnil] at hgroup
    cases hgroup
  · rintro ⟨p, hp⟩ hnil
    rw [← groupAttempts_visible hlisted, hnil] at hp
    exact hp rfl

theorem scores_of_fitting {env : Env} {c : Contest} (hc : Readable c) (hduration : env.timer.duration ≠ 0)
    (hlisted : AllListed env c) (hfits : Fitting env c) : Scores env c := by
  obtain ⟨cache, sent, hupdate, -⟩ := getElem?_updateStandings hc hduration 0 Cache.empty
  have hfresh : freshStandings env c = some cache := by
    rw [freshStandings, hupdate]
    rfl
  have hrows := (freshStandings_eq_some hc hduration).mp hfresh
  refine ⟨cache, hfresh, fun final userId => ?_⟩
  rw [hrows, rowOf_visible]
  constructor
  · rw [← visible_ne_nil hlisted, ← Option.ne_none_iff_exists', ne_eq, rowOf_final_eq_none]
  · intro row hrow
    exact isRow_of_rowOf hlisted hfits hrow

end

def account (name : String) (type : Nat) : User where
  username := str name
  friendlyname := str name
  password := []
  type := type
  group := 1
  bonusPoints := 0
  bonusSeconds := 0

def markOf (result : Nat) : SubmissionMark := { markTime := 9000, result, remark := [], serverId := 1 }

def submissionAt (userId probId time : Nat) : Submission :=
  { userId, probId, time, serverId := 1, content := [], language := str "C" }

def threeSubmissions : Contest where
  __ := Contest.empty
  user := (∅ : Table Nat User)
    |>.insert 3 (account "team" 3)
    |>.insert 5 (account "marker" 4)
    |>.insert 6 (account "judge" 2)
  problemAttributes := (∅ : Table (Nat × Str) Str)
    |>.insert (1, str "shortname") (str "A")
    |>.insert (2, str "shortname") (str "B")
  submission := (∅ : Table Nat Submission)
    |>.insert 10 (submissionAt 3 1 1600)
    |>.insert 11 (submissionAt 3 2 1900)
    |>.insert 12 (submissionAt 3 1 18000)
  submissionMark := (∅ : Table (Nat × Nat) SubmissionMark)
    |>.insert (10, 5) (markOf 1)
    |>.insert (11, 5) (markOf 2)
    |>.insert (12, 5) (markOf 0)

def running : Env where
  self := 1
  now := 20000
  timer := { evlist := [⟨1000, 0, 1⟩], duration := 18000, blinds := 3600 }
  order := .stable

theorem readable_threeSubmissions : Readable threeSubmissions where
  range := {
    submission := Table.forall_rows (by decide)
    user := Table.forall_rows (by decide)
    request := Table.forall_rows (by decide) }
  problem := Table.forall_rows (by decide)

theorem scores_threeSubmissions : Readable threeSubmissions ∧ running.timer.duration ≠ 0 ∧
    AllListed running threeSubmissions ∧ Fitting running threeSubmissions ∧ Scores running threeSubmissions := by
  have hlisted : AllListed running threeSubmissions := by
    have hall : ∀ (id : Nat) (s : Submission), threeSubmissions.submission[id]? = some s →
        isListed threeSubmissions s = true := Table.forall_rows (by decide)
    intro id s st hs _ _
    exact hall id s hs
  have hfits : Fitting running threeSubmissions := {
    seconds := Table.forall_rows (by decide)
    points := by
      intro userId user huser
      have hcard : (solvedProblems running threeSubmissions true userId).card ≤ 2 :=
        (Finset.card_filter_le _ _).trans (by decide)
      have hall : ∀ (id : Nat) (u : User), threeSubmissions.user[id]? = some u → u.bonusPoints = 0 :=
        Table.forall_rows (by decide)
      have hpoints := hall userId user huser
      omega
    tries := by
      intro userId probId
      exact (length_attempts_le true userId probId).trans (by decide) }
  exact ⟨readable_threeSubmissions, by decide, hlisted, hfits,
    scores_of_fitting readable_threeSubmissions (by decide) hlisted hfits⟩

def unnamedProblem : Contest where
  __ := threeSubmissions
  problemAttributes := ∅

/-- The team has counted submissions and no row. -/
theorem not_scores_unnamedProblem : attempts running unnamedProblem true 3 1 ≠ [] ∧
    (∀ cache, freshStandings running unnamedProblem = some cache → cache.final[3]? = none) ∧
    ¬Scores running unnamedProblem := by
  have hattempts : attempts running unnamedProblem true 3 1 ≠ [] := by decide
  have hentries : entriesOf running unnamedProblem 3 = [] := by decide
  have hreadable : Readable unnamedProblem :=
    ⟨readable_threeSubmissions.range.of_eq rfl rfl rfl, readable_threeSubmissions.problem⟩
  have hnone : ∀ cache, freshStandings running unnamedProblem = some cache → cache.final[3]? = none := by
    intro cache hfresh
    have hrow := (freshStandings_eq_some hreadable (by decide)).mp hfresh true 3
    rw [hentries, rowOf_final_eq_none.mpr rfl] at hrow
    exact hrow
  refine ⟨hattempts, hnone, fun hscores => ?_⟩
  obtain ⟨cache, hfresh, hrows⟩ := hscores
  obtain ⟨row, hrow⟩ := (hrows true 3).1.mpr ⟨1, hattempts⟩
  have hrow : cache.final[3]? = some row := hrow
  rw [hnone cache hfresh] at hrow
  cases hrow

end Abacus.Standings.Scoring
