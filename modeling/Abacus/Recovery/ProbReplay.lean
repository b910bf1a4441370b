import Abacus.Peer.ProbUpdate
import Abacus.Peer.Statements

/-! # Replaying an interrupted problem update

Replaying the message completes an interrupted update unless an attribute that it removes lost its row while
its file stayed, for then the replay no longer finds it.
-/

namespace Abacus.Recovery.ProbReplay

open Library Library.Bytes Database.Schema Database.Problems Peer.Classes Peer.Process Peer.Statements Peer.ProbUpdate

def scope (m : ProbMessage) (c : Contest) : Scope where
  known d := d ∈ (update m c).problem
  doomed attr := attr ∈ stale m c
  retyped := getProblemType c m.probId ≠ m.type

/-- No statement of the update that starts from `c` touches the rows of this attribute. -/
def Untouched (m : ProbMessage) (c : Contest) (q : Nat) (attr : Str) : Prop :=
  q ≠ m.probId ∨ fate m attr = .keep ∨ fate m attr = .remove ∧ attr ∉ stale m c

/-- A problem without a type has no row and no attributes: the type is the first that a new problem gets. -/
def Typed (p : Nat) (c : Contest) : Prop :=
  getProblemType c p = [] → p ∉ c.problem ∧ ∀ attr, (p, attr) ∉ c.problemAttributes

structure Interrupted (m : ProbMessage) (c d : Contest) : Prop where
  others : ∀ problem problemAttributes problemFileData problemDependencies,
    ({ d with problem, problemAttributes, problemFileData, problemDependencies } : Contest) =
      { c with problem, problemAttributes, problemFileData, problemDependencies }
  problem : ∀ q ≠ m.probId, d.problem[q]? = c.problem[q]?
  type : (d.problem[m.probId]?).map Problem.type = (c.problem[m.probId]?).map Problem.type ∨
    getProblemType c m.probId ≠ m.type ∧ (d.problem[m.probId]?).map Problem.type = some m.type
  time : ∀ r, d.problem[m.probId]? = some r → r.updated ≤ m.updateTime
  attributes : ∀ q attr, Untouched m c q attr → d.problemAttributes[(q, attr)]? = c.problemAttributes[(q, attr)]?
  fileData : ∀ q attr, Untouched m c q attr → d.problemFileData[(q, attr)]? = c.problemFileData[(q, attr)]?
  dependencies : ∀ q e, q ≠ m.probId → ((q, e) ∈ d.problemDependencies ↔ (q, e) ∈ c.problemDependencies)
  added : ∀ e, (m.probId, e) ∈ d.problemDependencies → (m.probId, e) ∈ c.problemDependencies ∨ e ∈ m.deps
  removed : ∀ e, (m.probId, e) ∈ c.problemDependencies →
    (m.probId, e) ∈ d.problemDependencies ∨ e ∈ (update m c).problem

section

variable {m : ProbMessage} {c d d' : Contest} {attr : Str}

theorem Interrupted.refl (htime : ∀ r, c.problem[m.probId]? = some r → r.updated ≤ m.updateTime) :
    Interrupted m c c where
  others _ _ _ _ := rfl
  problem _ _ := rfl
  type := .inl rfl
  time := htime
  attributes _ _ _ := rfl
  fileData _ _ _ := rfl
  dependencies _ _ _ := Iff.rfl
  added _ := .inl
  removed _ := .inl

theorem exists_fate_of_setsAttribute {value : Str} (h : SetsAttribute m attr value) :
    ∃ v data, fate m attr = .set v data := by
  rw [fate]
  cases hstring : m.strings[attr]? with
  | some v => exact ⟨v, none, rfl⟩
  | none =>
    cases hint : m.ints[attr]? with
    | some v => exact ⟨Misc.toString v, none, rfl⟩
    | none =>
      cases h with
      | int h =>
        rw [Std.ExtTreeMap.mem_toList_iff_getElem?_eq_some.mp h] at hint
        cases hint
      | string h =>
        rw [Std.ExtTreeMap.mem_toList_iff_getElem?_eq_some.mp h] at hstring
        cases hstring
      | @file f h hname =>
        rw [Std.ExtTreeMap.mem_toList_iff_getElem?_eq_some.mp h]
        exact ⟨f.name, some f.data, if_pos hname⟩

theorem not_untouched
    (h : (ProbMessage.named m attr = false ∧ attr ∈ stale m c) ∨ ∃ value, SetsAttribute m attr value) :
    ¬Untouched m c m.probId attr := by
  rintro (hne | hkeep | ⟨hremove, hfresh⟩)
  · exact hne rfl
  · obtain ⟨hnamed, -⟩ | ⟨value, hsets⟩ := h
    · rw [(named_eq_false_iff m attr).mp hnamed] at hkeep
      cases hkeep
    · obtain ⟨v, data, hset⟩ := exists_fate_of_setsAttribute hsets
      rw [hset] at hkeep
      cases hkeep
  · obtain ⟨-, hstale⟩ | ⟨value, hsets⟩ := h
    · exact hfresh hstale
    · obtain ⟨v, data, hset⟩ := exists_fate_of_setsAttribute hsets
      rw [hset] at hremove
      cases hremove

theorem mem_erase_dependency {t : Table (Nat × Nat) Unit} {p e q e' : Nat} :
    (q, e') ∈ t.erase (p, e) ↔ (q, e') ∈ t ∧ ¬(p = q ∧ e = e') := by
  rw [Std.ExtTreeMap.mem_erase, ne_eq, Std.LawfulEqOrd.compare_eq_iff_eq, Prod.mk.injEq, and_comm]

theorem getElem?_problem_update (m : ProbMessage) (c : Contest) :
    (update m c).problem[m.probId]? =
      (if getProblemType c m.probId ≠ m.type then some m.type else (c.problem[m.probId]?).map Problem.type).map
        fun type => { updated := m.updateTime, type } := by
  change (problemAfter m c.problem _)[m.probId]? = _
  rw [getElem?_problemAfter, if_pos rfl, typed]
  split
  · rw [Table.getElem?_insert_row, if_pos rfl]
    rfl
  · rw [Option.map_map]
    rfl

theorem getElem?_problem_update_of_ne {q : Nat} (hq : q ≠ m.probId) : (update m c).problem[q]? = c.problem[q]? :=
  (getElem?_problemAfter c.problem _ q).trans (if_neg hq)

theorem mem_problem_update_of_interrupted (h : Interrupted m c d) {e : Nat} (he : e ∈ d.problem) :
    e ∈ (update m c).problem := by
  obtain ⟨r, hr⟩ := Table.mem_iff_exists_row.mp he
  by_cases hp : e = m.probId
  · subst hp
    refine Table.mem_iff_exists_row.mpr ?_
    rw [getElem?_problem_update]
    split
    · exact ⟨_, rfl⟩
    · next hsame =>
      obtain htype | ⟨hne, -⟩ := h.type
      · rw [← htype, hr]
        exact ⟨_, rfl⟩
      · exact absurd hne hsame
  · refine Table.mem_iff_exists_row.mpr ⟨r, ?_⟩
    rw [getElem?_problem_update_of_ne hp, ← h.problem e hp, hr]

theorem ne_of_untouched (h : ¬Untouched m c m.probId attr) {q : Nat} {attr' : Str} (h' : Untouched m c q attr') :
    ¬(m.probId, attr) = (q, attr') := by
  intro heq
  obtain ⟨rfl, rfl⟩ := Prod.ext_iff.mp heq
  exact h h'

theorem Interrupted.statement (h : Interrupted m c d) {f : Contest → Option Contest}
    (hf : Statement (scope m c) (.prob m) f) (hd : f d = some d') : Interrupted m c d' := by
  cases hf with
  | setProblemType _ hretyped =>
    cases hd
    have hset : ∀ q, (setProblemType d m.probId m.type).problem[q]? = _ := fun q =>
      Table.getElem?_insert_row d.problem _ q _
    refine { h with problem := fun q hq => ?_, type := .inr ⟨hretyped, ?_⟩, time := fun r hr => ?_ }
    · rw [hset, if_neg fun heq => hq heq.symm, h.problem q hq]
    · rw [hset, if_pos rfl]
      rfl
    · rw [hset, if_pos rfl] at hr
      cases hr
      cases hrow : d.problem[m.probId]? with
      | none => exact Nat.zero_le _
      | some r => exact h.time r hrow
  | setProblemUpdateTime =>
    cases hd
    have hset : ∀ q, (setProblemUpdateTime d m.probId m.updateTime).problem[q]? = _ := fun q =>
      Table.getElem?_modify_row d.problem _ q _
    refine { h with problem := fun q hq => ?_, type := ?_, time := fun r hr => ?_ }
    · rw [hset, if_neg fun heq => hq heq.symm, h.problem q hq]
    · rw [hset, if_pos rfl, Option.map_map]
      exact h.type
    · rw [hset, if_pos rfl] at hr
      obtain ⟨r', -, rfl⟩ := Option.map_eq_some_iff.mp hr
      exact Nat.le_refl _
  | deleteAttributeRow _ attr hattr =>
    cases hd
    refine { h with attributes := fun q attr' huntouched => (Table.getElem?_erase_row _ _ _).trans ?_ }
    rw [if_neg (ne_of_untouched (not_untouched hattr) huntouched), h.attributes q attr' huntouched]
  | deleteFileDataRow _ attr hattr =>
    cases hd
    refine { h with fileData := fun q attr' huntouched => (Table.getElem?_erase_row _ _ _).trans ?_ }
    rw [if_neg (ne_of_untouched (not_untouched hattr) huntouched), h.fileData q attr' huntouched]
  | insertAttributeRow _ attr value hsets =>
    obtain ⟨-, rfl⟩ := Table.map_insertNew.mp hd
    refine { h with attributes := fun q attr' huntouched => (Table.getElem?_insert_row _ _ _ _).trans ?_ }
    rw [if_neg (ne_of_untouched (not_untouched (.inr ⟨value, hsets⟩)) huntouched), h.attributes q attr' huntouched]
  | insertFileDataRow _ attr file hfile hname =>
    obtain ⟨-, rfl⟩ := Table.map_insertNew.mp hd
    refine { h with fileData := fun q attr' huntouched => (Table.getElem?_insert_row _ _ _ _).trans ?_ }
    rw [if_neg (ne_of_untouched (not_untouched (.inr ⟨_, .file hfile hname⟩)) huntouched),
      h.fileData q attr' huntouched]
  | delProblemDependency _ e hdeps hknown =>
    cases hd
    refine { h with dependencies := fun q e' hq => ?_, added := fun e' he' => ?_, removed := fun e' he' => ?_ }
    · exact (mem_erase_dependency.trans (and_iff_left fun heq => hq heq.1.symm)).trans (h.dependencies q e' hq)
    · exact h.added e' (mem_erase_dependency.mp he').1
    · by_cases heq : e = e'
      · exact .inr (heq ▸ hknown)
      · exact (h.removed e' he').imp_left fun hold => mem_erase_dependency.mpr ⟨hold, fun hpair => heq hpair.2⟩
  | addProblemDependency _ e hdeps =>
    obtain ⟨-, rfl⟩ := Table.map_insertNew.mp hd
    refine { h with dependencies := fun q e' hq => ?_, added := fun e' he' => ?_, removed := fun e' he' => ?_ }
    · exact (Table.mem_insert_row.trans (or_iff_right fun heq => hq (Prod.ext_iff.mp heq).1.symm)).trans
        (h.dependencies q e' hq)
    · obtain heq | hold := Table.mem_insert_row.mp he'
      · obtain ⟨-, rfl⟩ := Prod.mk.inj heq
        exact .inr hdeps
      · exact h.added e' hold
    · exact (h.removed e' he').imp_left fun hold => Table.mem_insert_row.mpr (.inr hold)

end

section

variable {m : ProbMessage} {db : Db} {attrs : List Str} {attr : Str}

/-- What is left of the update when the attributes `attrs` are still to be removed. -/
def rest (m : ProbMessage) (attrs : List Str) (exType : Str) : DbProg Bool := do
  ProbMessage.removeAttributes m attrs
  ProbMessage.apply m exType

theorem crashAfter_intProcess (hprob : m.probId ≠ 4294967295) (hnew : ¬Outdated m db.contest) (k : Nat) :
    (ProbMessage.intProcess m).crashAfter k db =
      (rest m (stale m db.contest) (getProblemType db.contest m.probId)).crashAfter k db := by
  rw [ProbMessage.intProcess, if_neg hprob, readContest, Prog.crashAfter_read_bind, stale]
  split
  · next htype =>
    rw [readContest, Prog.crashAfter_read_bind, if_neg fun h => hnew ⟨htype, h⟩, readContest, Prog.crashAfter_read_bind]
    rfl
  · rfl

theorem Interrupted.rows {c d : Contest} {q : Nat} (h : Interrupted m c d) (huntouched : Untouched m c q attr) :
    rows q d attr = rows q c attr :=
  Prod.ext (h.attributes q attr huntouched) (h.fileData q attr huntouched)

/-- However far the update gets. -/
theorem interrupted_rest (hattrs : ∀ attr ∈ attrs, attr ∈ stale m db.contest)
    (htime : ∀ r, db.contest.problem[m.probId]? = some r → r.updated ≤ m.updateTime) (k : Nat) :
    Interrupted m db.contest ((rest m attrs (getProblemType db.contest m.probId)).crashAfter k db).contest := by
  have hlimits : Prog.Limits (fun d : Db => Interrupted m db.contest d.contest)
      (Executes (scope m db.contest) (.prob m)) (Throws (.prob m))
      (rest m attrs (getProblemType db.contest m.probId)) := by
    refine Prog.limits_bind (limits_removeAttributes hattrs) fun _ => limits_apply m _ (fun h => h) fun d hd e he => ?_
    exact mem_problem_update_of_interrupted hd he
  refine Prog.Limits.crashAfter (I := fun d : Db => Interrupted m db.contest d.contest) ?_ hlimits k (.refl htime)
  exact keeps_executes (J := Interrupted m db.contest) fun _ hf _ _ h hd => Interrupted.statement h hf hd

theorem updated_le (htyped : Typed m.probId db.contest) (hnew : ¬Outdated m db.contest) (r : Problem)
    (hr : db.contest.problem[m.probId]? = some r) : r.updated ≤ m.updateTime := by
  refine Nat.le_of_not_lt fun hlt => hnew ⟨fun htype => (htyped htype).1 (Table.mem_iff_exists_row.mpr ⟨r, hr⟩), ?_⟩
  rw [getProblemUpdateTime, hr]
  exact hlt

theorem Interrupted.not_outdated {c d : Contest} (h : Interrupted m c d) : ¬Outdated m d := by
  rintro ⟨htype, hlt⟩
  rw [getProblemType] at htype
  rw [getProblemUpdateTime] at hlt
  cases hrow : d.problem[m.probId]? with
  | none =>
    rw [hrow] at htype
    exact htype rfl
  | some r =>
    rw [hrow] at hlt
    exact Nat.not_lt.mpr (h.time r hrow) hlt

def removeRows (p : Nat) (c : Contest) (attr : Str) : Contest := deleteFileDataRow (deleteAttributeRow c p attr) p attr

theorem mem_stale_removeRows {c : Contest} {a : Str} :
    attr ∈ stale m (removeRows m.probId c a) ↔ a ≠ attr ∧ attr ∈ stale m c := by
  have hrow : (m.probId, attr) ∈ (removeRows m.probId c a).problemAttributes ↔
      a ≠ attr ∧ (m.probId, attr) ∈ c.problemAttributes := by
    refine Std.ExtTreeMap.mem_erase.trans (and_congr_left' (not_congr ?_))
    rw [Std.LawfulEqOrd.compare_eq_iff_eq, Prod.mk_right_inj]
  rw [mem_stale_iff, mem_stale_iff, hrow]
  exact and_left_comm

theorem rows_removeRows (p : Nat) (c : Contest) (a attr : Str) :
    rows p (removeRows p c a) attr = if a = attr then (none, none) else rows p c attr := by
  change ((c.problemAttributes.erase (p, a))[(p, attr)]?, (c.problemFileData.erase (p, a))[(p, attr)]?) = _
  simp only [Table.getElem?_erase_row, Prod.mk_right_inj]
  split <;> rfl

/-- Removing an attribute takes two statements, which `k` statements have got to or not. -/
theorem rows_rest (hnodup : attrs.Nodup) (hattrs : ∀ attr ∈ attrs, attr ∈ stale m db.contest)
    (htime : ∀ r, db.contest.problem[m.probId]? = some r → r.updated ≤ m.updateTime) {i : Nat}
    (hattr : (attrs.filter fun attr => !ProbMessage.named m attr)[i]? = some attr) (k : Nat) :
    let d := ((rest m attrs (getProblemType db.contest m.probId)).crashAfter k db).contest
    i < k / 2 ∧ rows m.probId d attr = (none, none) ∨
      k / 2 ≤ i ∧ d.problem = db.contest.problem ∧ rows m.probId d attr =
        if k = 2 * i + 1 then (none, (rows m.probId db.contest attr).2) else rows m.probId db.contest attr := by
  induction attrs generalizing db i k with
  | nil => cases hattr
  | cons a attrs ih =>
    obtain ⟨ha, hnodup⟩ := List.nodup_cons.mp hnodup
    obtain ⟨hstale, hattrs⟩ := List.forall_mem_cons.mp hattrs
    rw [List.filter_cons] at hattr
    rw [rest, ProbMessage.removeAttributes]
    cases hnamed : ProbMessage.named m a with
    | true =>
      rw [hnamed] at hattr
      exact ih hnodup hattrs htime hattr k
    | false =>
      rw [hnamed] at hattr
      have hne : ∀ {i : Nat}, (attrs.filter fun attr => !ProbMessage.named m attr)[i]? = some attr →
          a ≠ attr := by
        rintro i hi rfl
        exact ha (List.mem_filter.mp (List.mem_of_getElem? hi)).1
      obtain _ | _ | k := k
      · rw [Prog.crashAfter_zero]
        exact .inr ⟨Nat.zero_le _, rfl, (if_neg (by omega)).symm⟩
      · refine .inr ⟨Nat.zero_le _, rfl, ?_⟩
        change ((db.contest.problemAttributes.erase _)[(m.probId, attr)]?, (rows m.probId db.contest attr).2) = _
        simp only [Table.getElem?_erase_row, Prod.mk_right_inj]
        cases i with
        | zero =>
          cases hattr
          rw [if_pos rfl, if_pos rfl]
        | succ i =>
          rw [if_neg (hne hattr), if_neg (by omega)]
          rfl
      · -- both rows of `a` are gone, and the rest goes on from there
        let db' : Db := { db with contest := removeRows m.probId db.contest a }
        have hattrs' : ∀ attr ∈ attrs, attr ∈ stale m db'.contest := fun attr hmem =>
          mem_stale_removeRows.mpr ⟨fun heq => ha (heq ▸ hmem), hattrs attr hmem⟩
        have hremoved : rows m.probId db'.contest attr = _ := rows_removeRows _ _ a attr
        cases i with
        | zero =>
          cases hattr
          have hrest : Interrupted m db'.contest _ := interrupted_rest hattrs' htime k
          refine .inl ⟨by omega,
            (hrest.rows (.inr (.inr ⟨(named_eq_false_iff m attr).mp hnamed, fun hmem => ?_⟩))).trans ?_⟩
          · exact (mem_stale_removeRows.mp hmem).1 rfl
          · rw [hremoved, if_pos rfl]
        | succ i =>
          rw [if_neg (hne hattr)] at hremoved
          obtain ⟨hlt, hgone⟩ | ⟨hle, hproblem, hrows⟩ := ih hnodup hattrs' htime hattr k
          · exact .inl ⟨by omega, hgone⟩
          · refine .inr ⟨by omega, hproblem, hrows.trans ?_⟩
            rw [hremoved]
            exact if_congr (by omega) rfl rfl

end

theorem nodup_stale (m : ProbMessage) (c : Contest) : (stale m c).Nodup := by
  rw [stale]
  split
  · exact Std.ExtTreeMap.distinct_keys.imp fun hne heq => hne (Std.LawfulEqOrd.compare_eq_iff_eq.mpr heq)
  · exact List.nodup_nil

section

variable {m : ProbMessage} {c d : Contest} {attr : Str}

theorem problem_replay (h : Interrupted m c d) : (update m d).problem = (update m c).problem := by
  ext q : 1
  by_cases hq : q = m.probId
  · subst hq
    rw [getElem?_problem_update, getElem?_problem_update]
    obtain hsame | ⟨hne, hset⟩ := h.type
    · have htype : getProblemType d m.probId = getProblemType c m.probId := by
        have hmap : ∀ c : Contest,
            getProblemType c m.probId = (((c.problem[m.probId]?).map Problem.type).map text).getD [] :=
          fun c => by rw [Option.map_map]; rfl
        rw [hmap, hmap, hsame]
      rw [htype, hsame]
    · rw [if_pos hne, hset, ite_self]
  · rw [getElem?_problem_update_of_ne hq, getElem?_problem_update_of_ne hq, h.problem q hq]

theorem dependencies_replay (h : Interrupted m c d) :
    (update m d).problemDependencies = (update m c).problemDependencies := by
  refine Std.ExtTreeMap.ext_mem_unit fun ⟨q, e⟩ => ?_
  by_cases hq : q = m.probId
  · subst hq
    rw [mem_dependencies_update, mem_dependencies_update, problem_replay h]
    constructor
    · rintro (hdeps | ⟨hd, hno⟩)
      · exact .inl hdeps
      · exact (h.added e hd).elim (fun hc => .inr ⟨hc, hno⟩) .inl
    · rintro (hdeps | ⟨hc, hno⟩)
      · exact .inl hdeps
      · exact .inr ⟨(h.removed e hc).resolve_right hno, hno⟩
  · rw [mem_dependencies_update_of_ne hq, mem_dependencies_update_of_ne hq, h.dependencies q e hq]

def SameRows (m : ProbMessage) (c d : Contest) (attr : Str) : Prop :=
  rows m.probId (update m d) attr = rows m.probId (update m c) attr

theorem update_eq_iff_sameRows (h : Interrupted m c d) : update m d = update m c ↔ ∀ attr, SameRows m c d attr := by
  constructor
  · intro heq attr
    rw [SameRows, heq]
  · intro hrows
    have hattributes : (update m d).problemAttributes = (update m c).problemAttributes := by
      ext ⟨q, attr⟩ : 1
      by_cases hq : q = m.probId
      · exact hq ▸ congrArg Prod.fst (hrows attr)
      · rw [attributes_update_of_ne hq, attributes_update_of_ne hq, h.attributes q attr (.inl hq)]
    have hfileData : (update m d).problemFileData = (update m c).problemFileData := by
      ext ⟨q, attr⟩ : 1
      by_cases hq : q = m.probId
      · exact hq ▸ congrArg Prod.snd (hrows attr)
      · rw [fileData_update_of_ne hq, fileData_update_of_ne hq, h.fileData q attr (.inl hq)]
    calc
      update m d = { d with
          problem := (update m d).problem
          problemAttributes := (update m d).problemAttributes
          problemFileData := (update m d).problemFileData
          problemDependencies := (update m d).problemDependencies } := rfl
      _ = update m c := by
        rw [h.others, problem_replay h, hattributes, hfileData, dependencies_replay h]
        rfl

/-- The attributes that the update removes, in their order. -/
def removals (m : ProbMessage) (c : Contest) : List Str := (stale m c).filter fun attr => !ProbMessage.named m attr

theorem mem_removals : attr ∈ removals m c ↔ attr ∈ stale m c ∧ fate m attr = .remove := by
  rw [removals, List.mem_filter, Bool.not_eq_true', named_eq_false_iff]

theorem sameRows_of_untouched (h : Interrupted m c d) (htyped : Typed m.probId c)
    (huntouched : Untouched m c m.probId attr) : SameRows m c d attr := by
  have hattribute := h.attributes _ _ huntouched
  rw [SameRows, rows_update_eq, rows_update_eq, h.rows huntouched]
  obtain hne | hfate | ⟨hfate, hkept⟩ := huntouched
  · exact absurd rfl hne
  · rw [hfate]
  · have hkept' : attr ∉ stale m d := fun hstale => by
      obtain ⟨r, hr⟩ := Table.mem_iff_exists_row.mp (mem_stale_iff.mp hstale).2
      have hattr := Table.mem_iff_exists_row.mpr ⟨r, hattribute.symm.trans hr⟩
      exact hkept (mem_stale_iff.mpr ⟨fun htype => (htyped htype).2 attr hattr, hattr⟩)
    simp only [hfate, if_neg hkept, if_neg hkept']

theorem sameRows_of_gone (hmem : attr ∈ removals m c) (hgone : rows m.probId d attr = (none, none)) :
    SameRows m c d attr := by
  obtain ⟨hstale, hfate⟩ := mem_removals.mp hmem
  simp only [SameRows, rows_update_eq, hfate, if_pos hstale, hgone, ite_self]

/-- The replay finds an attribute unless its row is gone. -/
theorem sameRows_iff {half : Prop} [Decidable half] (hmem : attr ∈ removals m c) (hproblem : d.problem = c.problem)
    (hrows : rows m.probId d attr = if half then (none, (rows m.probId c attr).2) else rows m.probId c attr) :
    SameRows m c d attr ↔ (half → (m.probId, attr) ∉ c.problemFileData) := by
  obtain ⟨hstale, hfate⟩ := mem_removals.mp hmem
  simp only [SameRows, rows_update_eq, hfate, if_pos hstale]
  by_cases hhalf : half
  · rw [if_pos hhalf] at hrows
    have hgone : attr ∉ stale m d := fun hstale => by
      obtain ⟨r, hr⟩ := Table.mem_iff_exists_row.mp (mem_stale_iff.mp hstale).2
      cases hr.symm.trans (congrArg Prod.fst hrows)
    rw [if_neg hgone, hrows, forall_prop_of_true hhalf, Prod.mk.injEq, and_iff_right rfl, Table.mem_iff_exists_row]
    exact Option.eq_none_iff_forall_ne_some.trans not_exists.symm
  · rw [if_neg hhalf] at hrows
    obtain ⟨htype, hattr⟩ := mem_stale_iff.mp hstale
    obtain ⟨r, hr⟩ := Table.mem_iff_exists_row.mp hattr
    have hstale' : attr ∈ stale m d := by
      refine mem_stale_iff.mpr ⟨?_, Table.mem_iff_exists_row.mpr ⟨r, (congrArg Prod.fst hrows).trans hr⟩⟩
      rw [getProblemType, hproblem]
      exact htype
    rw [if_pos hstale']
    exact iff_of_true rfl fun h => absurd h hhalf

end

/-- The crash does not come between the two statements that remove an attribute with a file. -/
def Clean (m : ProbMessage) (c : Contest) (k : Nat) : Prop :=
  ∀ attr, (removals m c)[k / 2]? = some attr → k % 2 = 1 → (m.probId, attr) ∉ c.problemFileData

section

variable {m : ProbMessage} {db : Db} (hprob : m.probId ≠ 4294967295) (htyped : Typed m.probId db.contest)
  (hnew : ¬Outdated m db.contest) (k : Nat)

include hprob htyped hnew

theorem interrupted_intProcess : Interrupted m db.contest ((ProbMessage.intProcess m).crashAfter k db).contest := by
  rw [crashAfter_intProcess hprob hnew]
  exact interrupted_rest (fun _ h => h) (updated_le htyped hnew) k

/-- The replay completes the update exactly if nothing was half removed. -/
theorem update_eq_iff_clean :
    update m ((ProbMessage.intProcess m).crashAfter k db).contest = update m db.contest ↔ Clean m db.contest k := by
  have hinterrupted := interrupted_intProcess hprob htyped hnew k
  rw [update_eq_iff_sameRows hinterrupted]
  rw [crashAfter_intProcess hprob hnew] at hinterrupted ⊢
  have hrows : ∀ attr i, (removals m db.contest)[i]? = some attr → _ := fun attr i hattr =>
    rows_rest (nodup_stale m db.contest) (fun _ h => h) (updated_le htyped hnew) hattr k
  constructor
  · intro hsame attr hattr hodd
    obtain ⟨hlt, -⟩ | ⟨-, hproblem, hrow⟩ := hrows attr _ hattr
    · exact absurd hlt (Nat.lt_irrefl _)
    · exact (sameRows_iff (List.mem_of_getElem? hattr) hproblem hrow).mp (hsame attr) (by omega)
  · intro hclean attr
    by_cases hmem : attr ∈ removals m db.contest
    · obtain ⟨i, hi⟩ := List.getElem?_of_mem hmem
      obtain ⟨-, hgone⟩ | ⟨-, hproblem, hrow⟩ := hrows attr i hi
      · exact sameRows_of_gone hmem hgone
      · refine (sameRows_iff hmem hproblem hrow).mpr fun hk => hclean attr ?_ (by omega)
        rwa [show k / 2 = i by omega]
    · cases hfate : fate m attr with
      | set value data => rw [SameRows, rows_update_eq, rows_update_eq, hfate]
      | keep => exact sameRows_of_untouched hinterrupted htyped (.inr (.inl hfate))
      | remove =>
        refine sameRows_of_untouched hinterrupted htyped (.inr (.inr ⟨hfate, fun hstale => ?_⟩))
        exact hmem (mem_removals.mpr ⟨hstale, hfate⟩)

end

end Abacus.Recovery.ProbReplay
