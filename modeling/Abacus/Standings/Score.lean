import Abacus.Library.StableSort
import Abacus.Standings.Rows

/-! # Scoring with and without the blinds

The two walks over the submissions for a problem come to what one walk over all of them does, and one over those
outside the blinds.
-/

namespace Abacus.Standings.Score

open Library Library.StableSort Database.Schema Client.Action Update Rows

theorem lessThan_total (a b : SubData) : subDataLessThan b a = false ∨ subDataLessThan a b = false := by
  unfold subDataLessThan
  cases a.finalOnly <;> cases b.finalOnly <;> simp
  · exact Int.le_total ..
  · exact Int.le_total ..

theorem lessThan_trans {a b d : SubData} (hab : subDataLessThan b a = false) (hbd : subDataLessThan d b = false) :
    subDataLessThan d a = false := by
  unfold subDataLessThan at *
  cases ha : a.finalOnly <;> cases hb : b.finalOnly <;> cases hd : d.finalOnly <;> simp_all
  · exact Int.le_trans hab hbd
  · exact Int.le_trans hab hbd

instance : Std.Total fun a b : SubData => subDataLessThan b a = false := ⟨lessThan_total⟩

instance : IsTrans SubData fun a b => subDataLessThan b a = false := ⟨fun _ _ _ => lessThan_trans⟩

def unblinded (s : SubData) : Bool := !s.finalOnly

theorem takeWhile_sortSubs (subs : List SubData) :
    (sortSubs subs).takeWhile unblinded = sortSubs (subs.filter unblinded) := by
  have hsorted := List.pairwise_insertionSort (fun a b : SubData => subDataLessThan b a = false) subs
  have hfirst : (sortSubs subs).Pairwise fun x y => unblinded y = true → unblinded x = true := by
    apply hsorted.imp
    intro x y hxy hy
    unfold subDataLessThan unblinded at *
    cases hx : x.finalOnly <;> simp_all
  rw [takeWhile_eq_filter hfirst]
  exact filter_insertionSort unblinded subs

theorem walk_again (tries : Int) (correct : Bool) (correctTime : Int) (l : List SubData) :
    walk true (walk false tries correct correctTime l).tries (walk false tries correct correctTime l).correct
        (walk false tries correct correctTime l).correctTime (walk false tries correct correctTime l).rest =
      walk true tries correct correctTime l := by
  induction l generalizing tries correct correctTime with
  | nil => rfl
  | cons s rest ih =>
    cases correct with
    | true => rfl
    | false =>
      cases hfinal : s.finalOnly with
      | true => simp [walk, hfinal]
      | false =>
        simp only [walk, hfinal, Bool.not_false, Bool.or_true, Bool.and_self, if_true]
        exact ih ..

theorem score_walk_false (d : StandingsData) (probId : Nat) (tries : Int) (correct : Bool) (correctTime : Int)
    (l : List SubData) :
    score d probId (walk false tries correct correctTime l) =
      score d probId (walk true tries correct correctTime (l.takeWhile unblinded)) := by
  induction l generalizing tries correct correctTime with
  | nil => rfl
  | cons s rest ih =>
    cases correct with
    | true =>
      rw [List.takeWhile_cons]
      split <;> rfl
    | false =>
      cases hfinal : s.finalOnly with
      | true =>
        rw [List.takeWhile_cons_of_neg (by simp [unblinded, hfinal])]
        simp [walk, hfinal, score]
      | false =>
        rw [List.takeWhile_cons_of_pos (by simp [unblinded, hfinal])]
        simp only [walk, hfinal, Bool.not_false, Bool.or_true, Bool.and_self, if_true]
        exact ih ..

theorem walk_incorrect {l : List SubData} (h : ∀ s ∈ l, s.correct = false) (tries correctTime : Int) :
    (walk true tries false correctTime l).tries = tries + l.length ∧
      (walk true tries false correctTime l).correct = false := by
  induction l generalizing tries correctTime with
  | nil => exact ⟨(Int.add_zero tries).symm, rfl⟩
  | cons s rest ih =>
    obtain ⟨htries, hcorrect⟩ := ih (fun s hs => h s (.tail _ hs)) (tries + 1) s.time
    rw [walk, h s (.head rest)]
    refine ⟨?_, hcorrect⟩
    rw [List.length_cons]
    push_cast
    exact htries.trans (by omega)

theorem walk_first_correct {pre : List SubData} {s : SubData} (hpre : ∀ s ∈ pre, s.correct = false)
    (hs : s.correct = true) (post : List SubData) (tries correctTime : Int) :
    walk true tries false correctTime (pre ++ s :: post) = ⟨tries + pre.length + 1, true, s.time, post⟩ := by
  induction pre generalizing tries correctTime with
  | nil =>
    rw [List.nil_append, walk, hs]
    cases post <;> simp [walk]
  | cons x pre ih =>
    rw [List.cons_append, walk, hpre x (.head pre)]
    refine (ih (fun s hs => hpre s (.tail _ hs)) (tries + 1) x.time).trans ?_
    rw [List.length_cons]
    push_cast
    rw [show tries + 1 + (pre.length : Int) = tries + (pre.length + 1) by omega]

def triesOf (subs : List SubData) : Option Int :=
  let x := walk true 0 false 0 (sortSubs subs)
  if x.tries = 0 then none else some (if x.correct then x.tries else -x.tries)

theorem triesOf_eq_none {subs : List SubData} : triesOf subs = none ↔ subs = [] := by
  constructor
  · intro h
    have hzero : (walk true 0 false 0 (sortSubs subs)).tries = 0 := by
      unfold triesOf at h
      dsimp only at h
      split at h
      · assumption
      · cases h
    have hlength : (sortSubs subs).length = subs.length := List.length_insertionSort ..
    apply List.eq_nil_of_length_eq_zero
    rw [← hlength]
    cases hfind : (sortSubs subs).find? SubData.correct with
    | none =>
      have hall : ∀ s ∈ sortSubs subs, s.correct = false := by
        intro s hs
        exact Bool.eq_false_iff.mpr (List.find?_eq_none.mp hfind s hs)
      have htries := (walk_incorrect hall 0 0).1
      omega
    | some s =>
      obtain ⟨hs, pre, post, hsplit, hpre⟩ := List.find?_eq_some_iff_append.mp hfind
      have hall : ∀ s ∈ pre, s.correct = false := fun s hs => Bool.not_eq_true' _ |>.mp (hpre s hs)
      rw [hsplit, walk_first_correct hall hs] at hzero
      dsimp only at hzero
      omega
  · rintro rfl
    rfl

def scoreSubs (d : StandingsData) (p : Nat × List SubData) : StandingsData :=
  score d p.1 (walk true 0 false 0 (sortSubs p.2))

theorem scoreSubs_nil (d : StandingsData) (probId : Nat) : scoreSubs d (probId, []) = d := rfl

theorem scoreProblem_eq (teamdata : StandingsData × StandingsData) (p : Nat × List SubData) :
    scoreProblem teamdata p = (scoreSubs teamdata.1 (p.1, p.2.filter unblinded), scoreSubs teamdata.2 p) := by
  unfold scoreProblem scoreSubs
  dsimp only
  rw [score_walk_false, takeWhile_sortSubs, walk_again]

def scored (d : StandingsData) (problems : Table Nat (List SubData)) : StandingsData :=
  problems.toList.foldl scoreSubs d

theorem tries_scoreSubs (d : StandingsData) (p : Nat × List SubData) (probId : Nat) :
    (scoreSubs d p).tries[probId]? = if p.1 = probId then (triesOf p.2).or d.tries[probId]? else d.tries[probId]? := by
  unfold scoreSubs score triesOf
  dsimp only
  by_cases hzero : (walk true 0 false 0 (sortSubs p.2)).tries = 0
  · simp only [hzero, if_true, Option.none_or, ite_self]
  · cases hcorrect : (walk true 0 false 0 (sortSubs p.2)).correct with
    | true => simp only [hzero, if_true, if_false, Table.getElem?_insert_row, Option.some_or]
    | false =>
      simp only [hzero, Bool.false_eq_true, if_false, Table.getElem?_insert_row, Option.some_or]

theorem tries_scored (d : StandingsData) (problems : Table Nat (List SubData)) (probId : Nat) :
    (scored d problems).tries[probId]? = (problems[probId]?.bind triesOf).or d.tries[probId]? := by
  have hhit : ∀ (d : StandingsData) subs, (scoreSubs d (probId, subs)).tries[probId]? =
      (triesOf subs).or d.tries[probId]? := by
    intro d subs
    rw [tries_scoreSubs, if_pos rfl]
  have hmiss : ∀ (d : StandingsData) other subs, other ≠ probId →
      (scoreSubs d (other, subs)).tries[probId]? = d.tries[probId]? := by
    intro d other subs hne
    rw [tries_scoreSubs, if_neg hne]
  have hfold := Table.foldl_toList problems scoreSubs (fun d => d.tries[probId]?) probId
    (fun subs old => (triesOf subs).or old) hhit hmiss d
  cases hproblem : problems[probId]? with
  | none | some subs =>
    rw [hproblem] at hfold
    exact hfold

theorem teamData_final (c : Contest) (userId : Nat) (problems : Table Nat (List SubData)) :
    side true (teamData c userId problems) = scored (bonusData c userId) problems := by
  unfold scored teamData
  exact (List.foldl_hom (side true) fun teamdata p => by rw [scoreProblem_eq]; rfl).symm

/-- The submissions outside the blinds, without the problems that have none. -/
def openProblems (problems : Table Nat (List SubData)) : Table Nat (List SubData) :=
  problems.filterMap fun _ subs => if subs.filter unblinded = [] then none else some (subs.filter unblinded)

theorem teamData_contestant (c : Contest) (userId : Nat) (problems : Table Nat (List SubData)) :
    side false (teamData c userId problems) = scored (bonusData c userId) (openProblems problems) := by
  have hside : side false (teamData c userId problems) =
      problems.toList.foldl (fun d p => scoreSubs d (p.1, p.2.filter unblinded)) (bonusData c userId) := by
    unfold teamData
    exact (List.foldl_hom (side false) fun teamdata p => by rw [scoreProblem_eq]; rfl).symm
  rw [hside, scored, openProblems, Std.ExtTreeMap.toList_filterMap]
  generalize bonusData c userId = d
  induction problems.toList generalizing d with
  | nil => rfl
  | cons p rest ih =>
    rw [List.foldl_cons, List.filterMap_cons, ih]
    by_cases hnil : p.2.filter unblinded = []
    · simp only [hnil, if_true, Option.map_none, scoreSubs_nil]
    · simp only [hnil, if_false, Option.map_some, List.foldl_cons]

def bucket (es : List Entry) (probId : Nat) : List SubData :=
  (es.filter fun e => e.probId = probId).map Entry.sub

theorem getElem?_problemsOf (es : List Entry) (probId : Nat) :
    (problemsOf es)[probId]? = if bucket es probId = [] then none else some (bucket es probId) := by
  induction es using List.reverseRecOn with
  | nil => rfl
  | append_singleton es e ih =>
    rw [problemsOf_append_singleton, pushProblem, Table.getElem?_insert_row]
    by_cases hprob : e.probId = probId
    · have hbucket : bucket (es ++ [e]) probId = bucket es probId ++ [e.sub] := by
        simp [bucket, hprob]
      have hold : (problemsOf es).getD probId [] = bucket es probId := by
        rw [Std.ExtTreeMap.getD_eq_getD_getElem?, ih]
        split
        · next hnil => exact hnil.symm
        · rfl
      rw [if_pos hprob, hprob, hold, hbucket,
        if_neg (List.append_ne_nil_of_right_ne_nil _ (List.cons_ne_nil e.sub []))]
    · have hbucket : bucket (es ++ [e]) probId = bucket es probId := by
        simp [bucket, hprob]
      rw [if_neg hprob, ih, hbucket]

def isOpen (e : Entry) : Bool := unblinded e.sub

theorem bucket_isOpen (es : List Entry) (probId : Nat) :
    bucket (es.filter isOpen) probId = (bucket es probId).filter unblinded := by
  unfold bucket
  rw [List.filter_map, List.filter_filter, List.filter_filter]
  congr 1
  apply List.filter_congr
  intro e _
  exact Bool.and_comm ..

theorem problemsOf_isOpen (es : List Entry) :
    problemsOf (es.filter isOpen) = openProblems (problemsOf es) := by
  ext probId : 1
  rw [openProblems, Std.ExtTreeMap.getElem?_filterMap', getElem?_problemsOf, getElem?_problemsOf, bucket_isOpen]
  by_cases hnil : bucket es probId = []
  · simp [hnil]
  · simp [hnil]

theorem teamData_isOpen (c : Contest) (userId : Nat) (es : List Entry) :
    side false (teamData c userId (problemsOf es)) =
      side true (teamData c userId (problemsOf (es.filter isOpen))) := by
  rw [teamData_contestant, teamData_final, problemsOf_isOpen]

/-- The contestants' row is the final row of the submissions outside the blinds. -/
theorem rowOf_contestant (c : Contest) (userId : Nat) (es : List Entry) :
    rowOf false c userId es = rowOf true c userId (es.filter isOpen) := by
  unfold rowOf
  rw [teamData_isOpen]

theorem tries_teamData (c : Contest) (userId : Nat) (es : List Entry) (probId : Nat) :
    (side true (teamData c userId (problemsOf es))).tries[probId]? =
      if bucket es probId = [] then none else triesOf (bucket es probId) := by
  have hbonus : (bonusData c userId).tries[probId]? = none := rfl
  rw [teamData_final, tries_scored, hbonus, Option.or_none, getElem?_problemsOf]
  split
  · rfl
  · rfl

theorem rowOf_final_eq_none {c : Contest} {userId : Nat} {es : List Entry} :
    rowOf true c userId es = none ↔ es = [] := by
  unfold rowOf
  dsimp only
  constructor
  · intro h
    split at h
    · next hempty =>
      cases es with
      | nil => rfl
      | cons e es =>
        have htries := tries_teamData c userId (e :: es) e.probId
        have hbucket : bucket (e :: es) e.probId ≠ [] := by simp [bucket]
        rw [Std.ExtTreeMap.isEmpty_iff.mp hempty, if_neg hbucket] at htries
        exact absurd (triesOf_eq_none.mp htries.symm) hbucket
    · cases h
  · rintro rfl
    rw [tries_teamData_nil]
    rfl

end Abacus.Standings.Score
