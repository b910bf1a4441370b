import Abacus.Library.Versioned
import Abacus.Peer.ProbUpdate
import Abacus.Peer.Statements

/-! # Convergence of problem updates

A server discards an update that is older than its version of the problem. The last update to be applied
decides everything but the files that it keeps.
-/

namespace Abacus.Convergence.Prob

open Library Library.Bytes Library.Versioned Database.Schema Database.Peer Database.Marks Database.Problems Peer.Classes
open Peer.Process Peer.ProbUpdate Peer.Statements

/-- What the requests of administrators make sure of. -/
structure Valid (p : Nat) (m : ProbMessage) : Prop where
  problem : m.probId = p
  proper : m.probId ≠ 4294967295
  type_ne : m.type ≠ []
  type_text : text m.type = m.type

/-- File data belongs to an attribute, and attributes to a problem that has a type. -/
structure WellFormed (p : Nat) (c : Contest) : Prop where
  fileData : ∀ attr, (p, attr) ∈ c.problemFileData → (p, attr) ∈ c.problemAttributes
  type_ne : ∀ attr, (p, attr) ∈ c.problemAttributes → getProblemType c p ≠ []

def version (p : Nat) (c : Contest) : Option Nat :=
  if getProblemType c p = [] then none else some (getProblemUpdateTime c p)

def observed (p : Nat) (c : Contest) (attr : Str) : Option Str × Option Str :=
  ((rows p c attr).1.map text, (rows p c attr).2)

def effect (attr : Str) (m : ProbMessage) : Option (Option Str × Option Str) :=
  match fate m attr with
  | .set value data => some (some (text value), data)
  | .keep => none
  | .remove => some (none, none)

/-- An update removes the rows of the dependencies that it can see, and leaves those of unknown problems. -/
def effectOnDependency (p : Nat) (c : Contest) (d : Nat) (m : ProbMessage) : Option Bool :=
  if d ∈ m.deps then some true else if d ∈ c.problem ∨ d = p then some false else none

variable {m : ProbMessage} {c' : Contest}

section

variable {p : Nat} {m : ProbMessage} {c : Contest} {ms : List ProbMessage}

theorem outdated_iff (hm : m.probId = p) : Outdated m c ↔ ¬Current ProbMessage.updateTime (version p c) m := by
  subst hm
  rw [Outdated, Current, version]
  split
  · next htype => simp [htype]
  · next htype => simp [htype]

theorem problem_update (hm : Valid p m) :
    ∃ r, (update m c).problem[p]? = some r ∧ text r.type = m.type ∧ r.updated = m.updateTime := by
  obtain ⟨rfl, -, htype, htext⟩ := hm
  change ∃ r, (problemAfter m c.problem (getProblemType c m.probId))[m.probId]? = some r ∧ _
  rw [getElem?_problemAfter, if_pos rfl, typed]
  split
  · rw [Table.getElem?_insert_row, if_pos rfl]
    exact ⟨_, rfl, htext, rfl⟩
  · next hsame =>
    have hsame := not_not.mp hsame
    -- the stored type is the message's, so there is a row
    cases hrow : c.problem[m.probId]? with
    | none =>
      rw [getProblemType, hrow] at hsame
      exact absurd hsame.symm htype
    | some r =>
      rw [getProblemType, hrow] at hsame
      exact ⟨_, rfl, hsame, rfl⟩

theorem getProblemType_update (hm : Valid p m) : getProblemType (update m c) p = m.type := by
  obtain ⟨r, hrow, htype, -⟩ := problem_update (c := c) hm
  rw [getProblemType, hrow]
  exact htype

theorem getProblemUpdateTime_update (hm : Valid p m) : getProblemUpdateTime (update m c) p = m.updateTime := by
  obtain ⟨r, hrow, -, hupdated⟩ := problem_update (c := c) hm
  rw [getProblemUpdateTime, hrow]
  exact hupdated

theorem version_update (hm : Valid p m) : version p (update m c) = some m.updateTime := by
  rw [version, getProblemType_update hm, if_neg hm.type_ne, getProblemUpdateTime_update hm]

theorem mem_problem_update (hm : Valid p m) (q : Nat) : q ∈ (update m c).problem ↔ q ∈ c.problem ∨ q = p := by
  by_cases hq : q = p
  · subst hq
    obtain ⟨r, hrow, -⟩ := problem_update (c := c) hm
    exact iff_of_true (Table.mem_iff_exists_row.mpr ⟨r, hrow⟩) (.inr rfl)
  · have hsame : (update m c).problem[q]? = c.problem[q]? := by
      change (problemAfter m c.problem _)[q]? = _
      rw [getElem?_problemAfter, hm.problem, if_neg hq]
    rw [Table.mem_iff_exists_row, hsame, ← Table.mem_iff_exists_row]
    simp [hq]

theorem rows_update (hm : Valid p m) (hc : WellFormed p c) (attr : Str) :
    rows p (update m c) attr =
      match fate m attr with
      | .set value data => (some value, data)
      | .keep => rows p c attr
      | .remove => (none, none) := by
  obtain ⟨rfl, -⟩ := hm
  rw [rows_update_eq]
  cases fate m attr with
  | set value data | keep => rfl
  | remove =>
    by_cases hstale : attr ∈ stale m c
    · simp only [if_pos hstale]
    · have hattr : (m.probId, attr) ∉ c.problemAttributes := fun h => hstale (mem_stale_iff.mpr ⟨hc.type_ne attr h, h⟩)
      have hfile : (m.probId, attr) ∉ c.problemFileData := fun h => hattr (hc.fileData attr h)
      simp only [if_neg hstale, rows, Std.ExtTreeMap.getElem?_eq_none hattr, Std.ExtTreeMap.getElem?_eq_none hfile]

theorem observed_update (hm : Valid p m) (hc : WellFormed p c) (attr : Str) :
    observed p (update m c) attr = (effect attr m).getD (observed p c attr) := by
  rw [observed, rows_update hm hc attr, effect]
  cases fate m attr with
  | set value data | keep | remove => rfl

theorem wellFormed_update (hm : Valid p m) (hc : WellFormed p c) : WellFormed p (update m c) where
  fileData attr hmem := by
    obtain ⟨data, hdata⟩ := Table.mem_iff_exists_row.mp hmem
    have hrows := rows_update hm hc attr
    rw [rows, hdata] at hrows
    rw [Table.mem_iff_exists_row]
    cases hfate : fate m attr with
    | set value data' =>
      rw [hfate] at hrows
      exact ⟨value, (Prod.ext_iff.mp hrows).1⟩
    | keep =>
      rw [hfate] at hrows
      obtain ⟨hattr, hfile⟩ := Prod.ext_iff.mp hrows
      obtain ⟨value, hvalue⟩ := Table.mem_iff_exists_row.mp
        (hc.fileData attr (Table.mem_iff_exists_row.mpr ⟨data, hfile.symm⟩))
      exact ⟨value, hattr.trans hvalue⟩
    | remove =>
      rw [hfate] at hrows
      cases (Prod.ext_iff.mp hrows).2
  type_ne attr _ := by
    rw [getProblemType_update hm]
    exact hm.type_ne

def applyAll (c : Contest) (ms : List ProbMessage) : Contest := ms.foldl (fun c m => update m c) c

theorem contest_process (db : Db) (env : Env) (key : MessageKey) (hm : Valid p m) :
    ((process env key (.prob m)).final db).contest =
      if Current ProbMessage.updateTime (version p db.contest) m then update m db.contest else db.contest := by
  rw [contest_final_process]
  split
  · next hcur =>
    have hnew : ¬Outdated m db.contest := fun h => (outdated_iff hm.problem).mp h hcur
    exact congrArg Db.contest (yields_intProcess hm.proper hnew).1
  · next hcur =>
    exact congrArg Db.contest (yields_intProcess_of_outdated hm.proper ((outdated_iff hm.problem).mpr hcur)).1

def problemTables (c : Contest) : Table Nat Problem × Table (Nat × Str) Str × Table (Nat × Str) Str :=
  (c.problem, c.problemAttributes, c.problemFileData)

theorem WellFormed.of_tables (h : WellFormed p c) (heq : problemTables c' = problemTables c) : WellFormed p c' := by
  simp only [problemTables, Prod.mk.injEq] at heq
  obtain ⟨hproblem, hattrs, hfiles⟩ := heq
  refine ⟨fun attr hfile => ?_, fun attr hattr => ?_⟩
  · rw [hattrs]
    exact h.fileData attr (hfiles ▸ hfile)
  · rw [getProblemType, hproblem]
    exact h.type_ne attr (hattrs ▸ hattr)

theorem problemTables_process (db : Db) (env : Env) (key : MessageKey) {m : Message} (hm : ∀ pm, m ≠ .prob pm) :
    problemTables ((process env key m).final db).contest = problemTables db.contest := by
  rw [contest_final_process]
  refine contest_final_intProcess (J := fun c => problemTables c = problemTables db.contest)
    (fun f hf c c' hc hstep => ?_) env rfl
  rw [← hc]
  cases hf with
  | setBonus m | setPassword m | putMark m | setServerAttribute m _ _ | putStartStop m =>
    cases hstep
    rfl
  | putClarificationRequest m _ | putClarification m _ | putMarkFile m _ _ | putSubmission m | addGroup m | addUser m =>
    obtain ⟨t, -, rfl⟩ := Option.map_eq_some_iff.mp hstep
    rfl
  | setProblemType m _ | setProblemUpdateTime m | deleteAttributeRow m _ _ | deleteFileDataRow m _ _
  | insertAttributeRow m _ _ _ | insertFileDataRow m _ _ _ _ | delProblemDependency m _ _ _
  | addProblemDependency m _ _ => exact absurd rfl (hm m)

theorem WellFormed.update_of_ne (h : WellFormed p c) (hp : p ≠ m.probId) : WellFormed p (update m c) := by
  have hproblem : (update m c).problem[p]? = c.problem[p]? := (getElem?_problemAfter _ _ p).trans (if_neg hp)
  refine ⟨fun attr hmem => ?_, fun attr hmem => ?_⟩
  · rw [Table.mem_iff_exists_row, fileData_update_of_ne hp, ← Table.mem_iff_exists_row] at hmem
    rw [Table.mem_iff_exists_row, attributes_update_of_ne hp, ← Table.mem_iff_exists_row]
    exact h.fileData attr hmem
  · rw [Table.mem_iff_exists_row, attributes_update_of_ne hp, ← Table.mem_iff_exists_row] at hmem
    rw [getProblemType, hproblem]
    exact h.type_ne attr hmem

/-- Processing keeps every problem well formed, so the databases of servers are. -/
theorem wellFormed_process {db : Db} (h : ∀ p, WellFormed p db.contest) (env : Env) (key : MessageKey) {m : Message}
    (hm : ∀ pm, m = .prob pm → Valid pm.probId pm) (p : Nat) : WellFormed p ((process env key m).final db).contest := by
  by_cases hprob : ∃ pm, m = .prob pm
  · obtain ⟨pm, rfl⟩ := hprob
    have hvalid := hm pm rfl
    rw [contest_process db env key hvalid]
    split
    · by_cases hp : p = pm.probId
      · subst hp
        exact wellFormed_update hvalid (h _)
      · exact (h p).update_of_ne hp
    · exact h p
  · exact (h p).of_tables (problemTables_process db env key fun pm heq => hprob ⟨pm, heq⟩)

theorem wellFormed_processAll {db : Db} {arrivals : List Arrival} (h : ∀ p, WellFormed p db.contest)
    (hm : ∀ a ∈ arrivals, ∀ pm, a.message = .prob pm → Valid pm.probId pm) (p : Nat) :
    WellFormed p (processAll arrivals db).contest := by
  induction arrivals generalizing db with
  | nil => exact h p
  | cons a arrivals ih =>
    obtain ⟨ha, hrest⟩ := List.forall_mem_cons.mp hm
    exact ih (wellFormed_process h a.env a.key ha) hrest

theorem contest_processAll (db : Db) {arrivals : List Arrival} (hms : ∀ m ∈ ms, Valid p m)
    (harr : arrivals.map Arrival.message = ms.map .prob) :
    (processAll arrivals db).contest =
      applyAll db.contest (accepted ProbMessage.updateTime (version p db.contest) ms) := by
  induction ms generalizing arrivals db with
  | nil =>
    rw [List.map_eq_nil_iff.mp harr]
    rfl
  | cons m ms ih =>
    obtain ⟨a, rest, rfl, ha, hrest⟩ := List.map_eq_cons_iff.mp harr
    have hm := hms m List.mem_cons_self
    have hcontest := contest_process db a.env a.key hm
    rw [← ha] at hcontest
    have hstep :=
      ih ((process a.env a.key a.message).final db) (fun m' hm' => hms m' (List.mem_cons_of_mem _ hm')) hrest
    change (processAll rest ((process a.env a.key a.message).final db)).contest = _
    rw [hstep, hcontest, accepted]
    split
    · rw [version_update hm]
      rfl
    · rfl

/-- What the updates `ms` have made of a problem. -/
structure After (p : Nat) (c : Contest) (ms : List ProbMessage) (c' : Contest) : Prop where
  wellFormed : WellFormed p c'
  problem : ∀ q, q ∈ c'.problem ∨ q = p ↔ q ∈ c.problem ∨ q = p
  type : getProblemType c' p = replace (fun m => some m.type) (getProblemType c p) ms
  updateTime : getProblemUpdateTime c' p = replace (fun m => some m.updateTime) (getProblemUpdateTime c p) ms
  observed : ∀ attr, observed p c' attr = replace (effect attr) (observed p c attr) ms
  dependencies : ∀ d, decide ((p, d) ∈ c'.problemDependencies) =
    replace (effectOnDependency p c d) (decide ((p, d) ∈ c.problemDependencies)) ms

theorem After.update (h : After p c ms c') (hm : Valid p m) : After p c (ms ++ [m]) (update m c') where
  wellFormed := wellFormed_update hm h.wellFormed
  problem q := by
    rw [mem_problem_update hm, or_assoc, or_self, h.problem]
  type := by
    rw [getProblemType_update hm, replace_append]
    rfl
  updateTime := by
    rw [getProblemUpdateTime_update hm, replace_append]
    rfl
  observed attr := by
    rw [observed_update hm h.wellFormed, h.observed, replace_append]
    rfl
  dependencies d := by
    have hrow : (p, d) ∈ (Peer.ProbUpdate.update m c').problemDependencies ↔
        d ∈ m.deps ∨ (p, d) ∈ c'.problemDependencies ∧ ¬(d ∈ c.problem ∨ d = p) := by
      rw [← h.problem, ← mem_problem_update hm, ← hm.problem]
      exact mem_dependencies_update
    rw [replace_append, ← h.dependencies, replace, List.foldl_cons, List.foldl_nil, effectOnDependency]
    split
    · next hdep => exact decide_eq_true (hrow.mpr (.inl hdep))
    · next hdep =>
      split
      · next hknown => exact decide_eq_false fun hmem => ((hrow.mp hmem).resolve_left hdep).2 hknown
      · next hknown => simp [hrow, hdep, hknown]

theorem after_applyAll (hc : WellFormed p c) (hms : ∀ m ∈ ms, Valid p m) : After p c ms (applyAll c ms) := by
  induction ms using List.reverseRecOn with
  | nil => exact ⟨hc, fun _ => Iff.rfl, rfl, rfl, fun _ => rfl, fun _ => rfl⟩
  | append_singleton ms m ih =>
    have hafter := ih fun m' hm' => hms m' (List.mem_append_left _ hm')
    rw [applyAll, List.foldl_append]
    exact hafter.update (hms m (by simp))

end

section

/-- The problem reads the same in both databases, and goes on to do so: `getProblemDependencies` does not show the rows
of dependencies that are no problems yet. -/
structure SameProblem (p : Nat) (c₁ c₂ : Contest) : Prop where
  type : getProblemType c₁ p = getProblemType c₂ p
  attributes : getProblemAttributes c₁ p = getProblemAttributes c₂ p
  fileData : ∀ attr, getProblemFileData c₁ p attr = getProblemFileData c₂ p attr
  dependencies : ∀ d, (p, d) ∈ c₁.problemDependencies ↔ (p, d) ∈ c₂.problemDependencies
  updateTime : getProblemUpdateTime c₁ p = getProblemUpdateTime c₂ p

/-- A database that a server can have after processing all the messages. -/
def EndsWith (c : Contest) (ms : List ProbMessage) (c' : Contest) : Prop :=
  ∃ (db : Db) (l : List ProbMessage) (arrivals : List Arrival),
    db.contest = c ∧ l.Perm ms ∧ arrivals.map Arrival.message = l.map .prob ∧ (processAll arrivals db).contest = c'

def Converges (p : Nat) (c : Contest) (ms : List ProbMessage) : Prop :=
  ∀ c₁ c₂, EndsWith c ms c₁ → EndsWith c ms c₂ → SameProblem p c₁ c₂

/-- The message is not older than the stored version, and none of the others is newer. -/
def IsNewest (p : Nat) (c : Contest) (ms : List ProbMessage) : ProbMessage → Prop :=
  Newest ProbMessage.updateTime (version p c) ms

/-- The newest messages agree on all that one of them does not keep; and no other message changes an attribute, or a row
for a dependency, that they all keep. -/
structure Agree (p : Nat) (c : Contest) (ms : List ProbMessage) : Prop where
  type : ∀ n₁ n₂, IsNewest p c ms n₁ → IsNewest p c ms n₂ → n₁.type = n₂.type
  attributes : ∀ attr, Settled ProbMessage.updateTime (effect attr) (version p c) (observed p c attr) ms
  dependencies : ∀ d, Settled ProbMessage.updateTime (effectOnDependency p c d) (version p c)
    (decide ((p, d) ∈ c.problemDependencies)) ms

variable {p : Nat} {c : Contest} {ms : List ProbMessage}

theorem getElem?_getProblemAttributes (attr : Str) :
    (getProblemAttributes c p)[attr]? = (c.problemAttributes[(p, attr)]?).map text := by
  have hdistinct : (c.problemAttributes.toList.filterMap fun r =>
      if r.1.1 = p then some (r.1.2, text r.2) else none).Pairwise fun a b => ¬compare a.1 b.1 = .eq := by
    refine List.pairwise_filterMap.mpr (Std.ExtTreeMap.distinct_keys_toList.imp ?_)
    rintro ⟨⟨q, a⟩, v⟩ ⟨⟨q', a'⟩, v'⟩ hne x hx y hy
    obtain ⟨hq, hxa⟩ := Option.ite_none_right_eq_some.mp hx
    obtain ⟨hq', hya⟩ := Option.ite_none_right_eq_some.mp hy
    rw [← Option.some.inj hxa, ← Option.some.inj hya]
    simp only [Std.LawfulEqOrd.compare_eq_iff_eq] at hne ⊢
    exact fun heq => hne (Prod.ext (hq.trans hq'.symm) heq)
  cases hrow : c.problemAttributes[(p, attr)]? with
  | some value =>
    refine Std.ExtTreeMap.getElem?_ofList_of_mem Std.ReflCmp.compare_self hdistinct ?_
    refine List.mem_filterMap.mpr ⟨((p, attr), value), Std.ExtTreeMap.mem_toList_iff_getElem?_eq_some.mpr hrow, ?_⟩
    exact if_pos rfl
  | none =>
    refine Std.ExtTreeMap.getElem?_eq_none fun hmem => ?_
    rw [← Std.ExtTreeMap.mem_keys, mem_keys_getProblemAttributes] at hmem
    obtain ⟨value, hvalue⟩ := Table.mem_iff_exists_row.mp hmem
    rw [hrow] at hvalue
    cases hvalue

theorem sameProblem_iff {c₁ c₂ : Contest} :
    SameProblem p c₁ c₂ ↔ getProblemType c₁ p = getProblemType c₂ p ∧
      (∀ attr, observed p c₁ attr = observed p c₂ attr) ∧
      (∀ d, decide ((p, d) ∈ c₁.problemDependencies) = decide ((p, d) ∈ c₂.problemDependencies)) ∧
      getProblemUpdateTime c₁ p = getProblemUpdateTime c₂ p := by
  have hattrs : (getProblemAttributes c₁ p = getProblemAttributes c₂ p ∧
      ∀ attr, getProblemFileData c₁ p attr = getProblemFileData c₂ p attr) ↔
        ∀ attr, observed p c₁ attr = observed p c₂ attr := by
    constructor
    · rintro ⟨hattr, hfile⟩ attr
      refine Prod.ext ?_ (hfile attr)
      change (c₁.problemAttributes[(p, attr)]?).map text = (c₂.problemAttributes[(p, attr)]?).map text
      rw [← getElem?_getProblemAttributes, hattr, getElem?_getProblemAttributes]
    · intro hobs
      refine ⟨?_, fun attr => (Prod.ext_iff.mp (hobs attr)).2⟩
      ext attr : 1
      rw [getElem?_getProblemAttributes, getElem?_getProblemAttributes]
      exact (Prod.ext_iff.mp (hobs attr)).1
  constructor
  · intro h
    exact ⟨h.type, hattrs.mp ⟨h.attributes, h.fileData⟩, fun d => decide_eq_decide.mpr (h.dependencies d), h.updateTime⟩
  · rintro ⟨htype, hobs, hdeps, htime⟩
    obtain ⟨hattr, hfile⟩ := hattrs.mpr hobs
    exact ⟨htype, hattr, hfile, fun d => decide_eq_decide.mp (hdeps d), htime⟩

section

variable (hms : ∀ m ∈ ms, Valid p m) (hc : WellFormed p c) {l : List ProbMessage}

include hms

theorem endsWith_iff : EndsWith c ms c' ↔
    ∃ l, l.Perm ms ∧ applyAll c (accepted ProbMessage.updateTime (version p c) l) = c' := by
  constructor
  · rintro ⟨db, l, arrivals, rfl, hperm, harr, rfl⟩
    refine ⟨l, hperm, ?_⟩
    rw [contest_processAll db (fun m hm => hms m (hperm.mem_iff.mp hm)) harr]
  · rintro ⟨l, hperm, rfl⟩
    let arrivals : List Arrival := l.map fun m => ⟨default, (0, 0), .prob m⟩
    have harr : arrivals.map Arrival.message = l.map .prob := by simp [arrivals]
    refine ⟨⟨.empty, c⟩, l, arrivals, rfl, hperm, harr, ?_⟩
    rw [contest_processAll _ (fun m hm => hms m (hperm.mem_iff.mp hm)) harr]

include hc

theorem after_end (hperm : l.Perm ms) : let A := accepted ProbMessage.updateTime (version p c) l
    After p c A (applyAll c A) :=
  after_applyAll hc fun m hm => hms m (hperm.mem_iff.mp (mem_of_mem_accepted hm).1)

/-- Convergence is convergence of each thing that an update replaces. -/
theorem converges_iff_ordered : Converges p c ms ↔
    Ordered ProbMessage.updateTime (fun m => some m.type) (version p c) (getProblemType c p) ms ∧
      (∀ attr, Ordered ProbMessage.updateTime (effect attr) (version p c) (observed p c attr) ms) ∧
      (∀ d, Ordered ProbMessage.updateTime (effectOnDependency p c d) (version p c)
        (decide ((p, d) ∈ c.problemDependencies)) ms) ∧
      Ordered ProbMessage.updateTime (fun m => some m.updateTime) (version p c) (getProblemUpdateTime c p) ms := by
  constructor
  · intro hconv
    have hsame : ∀ l₁ l₂ : List ProbMessage, l₁.Perm ms → l₂.Perm ms → _ := fun l₁ l₂ h₁ h₂ => sameProblem_iff.mp
      (hconv _ _ ((endsWith_iff hms).mpr ⟨l₁, h₁, rfl⟩) ((endsWith_iff hms).mpr ⟨l₂, h₂, rfl⟩))
    refine ⟨fun l₁ l₂ h₁ h₂ => ?_, fun attr l₁ l₂ h₁ h₂ => ?_, fun d l₁ l₂ h₁ h₂ => ?_, fun l₁ l₂ h₁ h₂ => ?_⟩
    · rw [← (after_end hms hc h₁).type, ← (after_end hms hc h₂).type]
      exact (hsame l₁ l₂ h₁ h₂).1
    · rw [← (after_end hms hc h₁).observed, ← (after_end hms hc h₂).observed]
      exact (hsame l₁ l₂ h₁ h₂).2.1 attr
    · rw [← (after_end hms hc h₁).dependencies, ← (after_end hms hc h₂).dependencies]
      exact (hsame l₁ l₂ h₁ h₂).2.2.1 d
    · rw [← (after_end hms hc h₁).updateTime, ← (after_end hms hc h₂).updateTime]
      exact (hsame l₁ l₂ h₁ h₂).2.2.2
  · rintro ⟨htype, hattrs, hdeps, htime⟩ c₁ c₂ hend₁ hend₂
    obtain ⟨l₁, h₁, rfl⟩ := (endsWith_iff hms).mp hend₁
    obtain ⟨l₂, h₂, rfl⟩ := (endsWith_iff hms).mp hend₂
    have hafter₁ := after_end hms hc h₁
    have hafter₂ := after_end hms hc h₂
    refine sameProblem_iff.mpr ⟨?_, fun attr => ?_, fun d => ?_, ?_⟩
    · rw [hafter₁.type, hafter₂.type, htype l₁ l₂ h₁ h₂]
    · rw [hafter₁.observed, hafter₂.observed, hattrs attr l₁ l₂ h₁ h₂]
    · rw [hafter₁.dependencies, hafter₂.dependencies, hdeps d l₁ l₂ h₁ h₂]
    · rw [hafter₁.updateTime, hafter₂.updateTime, htime l₁ l₂ h₁ h₂]

end

def sumProblem (time : Nat) (shortname : Str) : ProbMessage where
  probId := 1
  updateTime := time
  deps := []
  type := str "tcprob"
  files := (∅ : StringMap FileAttrib)
    |>.insert (str "testcase.input") { name := str "sum.in", data := str "1 2" }
    |>.insert (str "testcase.output") { name := str "sum.out", data := str "3" }
  strings := (∅ : StringMap Str)
    |>.insert (str "shortname") shortname
    |>.insert (str "longname") (str "Sum")
    |>.insert (str "multi_submit") (str "No")
    |>.insert (str "ignore_whitespace") (str "Yes")
  ints := (∅ : StringMap Int)
    |>.insert (str "time_limit") 1
    |>.insert (str "memory_limit") 64

theorem valid_sumProblem (time : Nat) (shortname : Str) : Valid 1 (sumProblem time shortname) where
  problem := rfl
  proper := show (1 : Nat) ≠ 4294967295 by decide
  type_ne := show str "tcprob" ≠ [] by decide
  type_text := show text (str "tcprob") = str "tcprob" by decide

theorem wellFormed_empty (p : Nat) : WellFormed p Contest.empty where
  fileData _ h := absurd h Std.ExtTreeMap.not_mem_empty
  type_ne _ h := absurd h Std.ExtTreeMap.not_mem_empty

theorem wellFormed_sumProblem :
    WellFormed 1 (processAll [⟨default, (1, 1), .prob (sumProblem 5 (str "A"))⟩] ⟨.empty, .empty⟩).contest := by
  refine wellFormed_processAll wellFormed_empty (List.forall_mem_singleton.mpr fun pm hpm => ?_) 1
  cases hpm
  exact valid_sumProblem 5 _

theorem effect_ne_none (h : ∀ f ∈ m.files.toList, f.2.name ≠ []) (attr : Str) : effect attr m ≠ none := by
  have hkeep : fate m attr ≠ .keep := by
    rw [fate]
    cases m.strings[attr]? with
    | some value => simp
    | none =>
      cases m.ints[attr]? with
      | some value => simp
      | none =>
        cases hf : m.files[attr]? with
        | none => simp
        | some f =>
          have hname := h (attr, f) (Std.ExtTreeMap.mem_toList_iff_getElem?_eq_some.mpr hf)
          simp [hname]
  rw [effect]
  cases hfate : fate m attr with
  | set value data => simp
  | keep => exact absurd hfate hkeep
  | remove => simp

end

end Abacus.Convergence.Prob
