import Abacus.Peer.Process

/-! # What a problem update does

Every row of the four problem tables is replaced, removed or kept, as its attribute is set by the message,
not named by it, or named as a file to keep.
-/

namespace Abacus.Peer.ProbUpdate

open Library Library.Bytes Database.Schema Database.Problems Peer.Classes Peer.Process
open Peer.Process.ProbMessage (named)
open Library.Prog (yields_bind yields_pure)

variable (m : ProbMessage)

section

def removeRow {ρ : Type} (t : Table (Nat × Str) ρ) (attr : Str) : Table (Nat × Str) ρ :=
  if named m attr then t else t.erase (m.probId, attr)

def put (t : Table (Nat × Str) Str) (attr : Str) : Option Str → Table (Nat × Str) Str
  | some row => t.insert (m.probId, attr) row
  | none => t.erase (m.probId, attr)

def putFile (ofFile : FileAttrib → Str) (t : Table (Nat × Str) Str) (f : Str × FileAttrib) : Table (Nat × Str) Str :=
  if f.2.name ≠ [] then put m t f.1 (some (ofFile f.2)) else t

section

variable (ofFile : FileAttrib → Str) (ofInt : Int → Option Str) (ofString : Str → Option Str)

def rowsAfter (t : Table (Nat × Str) Str) (attrs : List Str) : Table (Nat × Str) Str :=
  let t := attrs.foldl (removeRow m) t
  let t := m.files.toList.foldl (putFile m ofFile) t
  let t := m.ints.toList.foldl (fun t a => put m t a.1 (ofInt a.2)) t
  m.strings.toList.foldl (fun t a => put m t a.1 (ofString a.2)) t

end

def attributesAfter : Table (Nat × Str) Str → List Str → Table (Nat × Str) Str :=
  rowsAfter m FileAttrib.name (fun value => some (Misc.toString value)) some

def fileDataAfter : Table (Nat × Str) Str → List Str → Table (Nat × Str) Str :=
  rowsAfter m FileAttrib.data (fun _ => none) fun _ => none

def typed (t : Table Nat Problem) (exType : Str) : Table Nat Problem :=
  if exType ≠ m.type then
    t.insert m.probId { updated := ((t[m.probId]?).map Problem.updated).getD 0, type := m.type }
  else t

def problemAfter (t : Table Nat Problem) (exType : Str) : Table Nat Problem :=
  (typed m t exType).modify m.probId fun r => { r with updated := m.updateTime }

def dependenciesAfter (t : Table (Nat × Nat) Unit) (olds : List Nat) : Table (Nat × Nat) Unit :=
  let t := olds.foldl (fun t d => if d ∈ m.deps then t else t.erase (m.probId, d)) t
  m.deps.foldl (fun t d => if d ∈ olds then t else t.insert (m.probId, d) ()) t

/-- The attributes that are looked at for removal: none if the problem is new. -/
def stale (c : Contest) : List Str :=
  if getProblemType c m.probId ≠ [] then (getProblemAttributes c m.probId).keys else []

def attributesSet (c : Contest) : Contest where
  __ := c
  problem := problemAfter m c.problem (getProblemType c m.probId)
  problemAttributes := attributesAfter m c.problemAttributes (stale m c)
  problemFileData := fileDataAfter m c.problemFileData (stale m c)

def update (c : Contest) : Contest where
  __ := attributesSet m c
  problemDependencies := dependenciesAfter m c.problemDependencies (getProblemDependencies (attributesSet m c) m.probId)

def Outdated (c : Contest) : Prop :=
  getProblemType c m.probId ≠ [] ∧ m.updateTime < getProblemUpdateTime c m.probId

end

section

variable {m} {db : Db}

theorem yields_setContest (w : Contest → Contest) :
    Prog.Yields (setContest w) db { db with contest := w db.contest } () := Prog.yields_set _ _

theorem yields_readContest {α : Type} (g : Contest → α) : Prog.Yields (readContest g) db db (g db.contest) := ⟨rfl, rfl⟩

theorem yields_writeContest {w : Contest → Option Contest} {c : Contest} (h : w db.contest = some c) :
    Prog.Yields (writeContest w) db { db with contest := c } true := by
  refine Prog.yields_write_some ?_
  rw [onContest, h]
  rfl

theorem yields_delProblemAttribute (p : Nat) (attr : Str) :
    Prog.Yields (ProbMessage.delProblemAttribute p attr) db
      { db with contest := deleteFileDataRow (deleteAttributeRow db.contest p attr) p attr } () :=
  yields_bind (yields_setContest _) (yields_setContest _)

theorem yields_setProblemAttribute (p : Nat) (attr value : Str) :
    Prog.Yields (ProbMessage.setProblemAttribute p attr value) db
      { db with contest := { db.contest with
        problemAttributes := db.contest.problemAttributes.insert (p, attr) value
        problemFileData := db.contest.problemFileData.erase (p, attr) } } true := by
  refine yields_bind (yields_delProblemAttribute p attr) (yields_writeContest ?_)
  change (Table.insertNew (db.contest.problemAttributes.erase (p, attr)) (p, attr) value).map _ = _
  rw [Table.insertNew_erase]
  rfl

theorem yields_setProblemFile (p : Nat) (attr fname data : Str) :
    Prog.Yields (ProbMessage.setProblemFile p attr fname data) db
      { db with contest := { db.contest with
        problemAttributes := db.contest.problemAttributes.insert (p, attr) fname
        problemFileData := db.contest.problemFileData.insert (p, attr) data } } true := by
  refine yields_bind (yields_setProblemAttribute p attr fname) (yields_writeContest ?_)
  change (Table.insertNew (db.contest.problemFileData.erase (p, attr)) (p, attr) data).map _ = _
  rw [Table.insertNew_erase]
  rfl

theorem yields_all {p q : DbProg Bool} {db' db'' : Db} (hp : Prog.Yields p db db' true)
    (hq : Prog.Yields q db' db'' true) : Prog.Yields (ProbMessage.all p q) db db'' true :=
  yields_bind hp (yields_bind hq (yields_pure true db''))

theorem yields_removeAttributes (attrs : List Str) :
    Prog.Yields (ProbMessage.removeAttributes m attrs) db
      { db with contest := { db.contest with
        problemAttributes := attrs.foldl (removeRow m) db.contest.problemAttributes
        problemFileData := attrs.foldl (removeRow m) db.contest.problemFileData } } () := by
  induction attrs generalizing db with
  | nil => exact yields_pure () db
  | cons attr attrs ih =>
    rw [ProbMessage.removeAttributes, List.foldl_cons, List.foldl_cons, removeRow, removeRow]
    cases named m attr with
    | true => exact ih
    | false => exact yields_bind (yields_delProblemAttribute m.probId attr) ih

theorem yields_setFiles (files : List (Str × FileAttrib)) :
    Prog.Yields (ProbMessage.setFiles m.probId files) db
      { db with contest := { db.contest with
        problemAttributes := files.foldl (putFile m FileAttrib.name) db.contest.problemAttributes
        problemFileData := files.foldl (putFile m FileAttrib.data) db.contest.problemFileData } } true := by
  induction files generalizing db with
  | nil => exact yields_pure true db
  | cons f files ih =>
    obtain ⟨attr, f⟩ := f
    rw [ProbMessage.setFiles, List.foldl_cons, List.foldl_cons, putFile, putFile]
    split
    · exact yields_all (yields_setProblemFile m.probId attr f.name f.data) ih
    · exact yields_all (yields_pure true db) ih

theorem yields_setInts (ints : List (Str × Int)) :
    Prog.Yields (ProbMessage.setInts m.probId ints) db
      { db with contest := { db.contest with
        problemAttributes :=
          ints.foldl (fun t a => t.insert (m.probId, a.1) (Misc.toString a.2)) db.contest.problemAttributes
        problemFileData := ints.foldl (fun t a => t.erase (m.probId, a.1)) db.contest.problemFileData } } true := by
  induction ints generalizing db with
  | nil => exact yields_pure true db
  | cons a ints ih => exact yields_all (yields_setProblemAttribute m.probId a.1 (Misc.toString a.2)) ih

theorem yields_setStrings (strings : List (Str × Str)) :
    Prog.Yields (ProbMessage.setStrings m.probId strings) db
      { db with contest := { db.contest with
        problemAttributes := strings.foldl (fun t a => t.insert (m.probId, a.1) a.2) db.contest.problemAttributes
        problemFileData := strings.foldl (fun t a => t.erase (m.probId, a.1)) db.contest.problemFileData } } true := by
  induction strings generalizing db with
  | nil => exact yields_pure true db
  | cons a strings ih => exact yields_all (yields_setProblemAttribute m.probId a.1 a.2) ih

theorem yields_setType (exType : Str) :
    Prog.Yields (ProbMessage.setType m exType) db
      { db with contest := { db.contest with problem := typed m db.contest.problem exType } } () := by
  rw [ProbMessage.setType, typed]
  split
  · exact yields_setContest _
  · exact yields_pure () db

theorem setProblemUpdateTime_twice (c : Contest) (p time : Nat) :
    setProblemUpdateTime (setProblemUpdateTime c p time) p time = setProblemUpdateTime c p time := by
  simp only [setProblemUpdateTime]
  congr 1
  ext q : 1
  simp only [Table.getElem?_modify_row]
  split
  · rw [if_true, Option.map_map]
    rfl
  · rfl

theorem yields_setUpdateTime :
    Prog.Yields (ProbMessage.setUpdateTime m true) db
      { db with contest := setProblemUpdateTime db.contest m.probId m.updateTime } () := by
  have hyields : Prog.Yields (ProbMessage.setUpdateTime m true) db
      ⟨db.peer,
          setProblemUpdateTime (setProblemUpdateTime db.contest m.probId m.updateTime) m.probId m.updateTime⟩ () :=
    yields_bind (yields_setContest _) (yields_setContest fun c => setProblemUpdateTime c m.probId m.updateTime)
  rwa [setProblemUpdateTime_twice] at hyields

theorem yields_removeDeps (olds : List Nat) :
    Prog.Yields (ProbMessage.removeDeps m olds) db
      { db with contest := { db.contest with
        problemDependencies := olds.foldl (fun t d => if d ∈ m.deps then t else t.erase (m.probId, d))
          db.contest.problemDependencies } } () := by
  induction olds generalizing db with
  | nil => exact yields_pure () db
  | cons d olds ih =>
    rw [ProbMessage.removeDeps, List.foldl_cons]
    by_cases hd : d ∈ m.deps
    · rw [if_neg (not_not.mpr hd), if_pos hd]
      exact ih
    · rw [if_pos hd, if_neg hd]
      exact yields_bind (yields_setContest _) ih

theorem yields_addDeps (olds deps : List Nat) :
    Prog.Yields (ProbMessage.addDeps m.probId olds deps) db
      { db with contest := { db.contest with
        problemDependencies := deps.foldl (fun t d => if d ∈ olds then t else t.insert (m.probId, d) ())
          db.contest.problemDependencies } } () := by
  induction deps generalizing db with
  | nil => exact yields_pure () db
  | cons d deps ih =>
    rw [ProbMessage.addDeps, List.foldl_cons]
    by_cases hd : d ∈ olds
    · rw [if_neg (not_not.mpr hd), if_pos hd]
      exact ih
    · rw [if_pos hd, if_neg hd]
      by_cases hrow : (m.probId, d) ∈ db.contest.problemDependencies
      · -- the statement fails on a row that is there already
        rw [Table.insert_unit_of_mem hrow]
        refine yields_bind (Prog.yields_write_none ?_) ih
        simp only [onContest, addProblemDependency, Table.insertNew, if_pos hrow, Option.map_none]
      · have hadd : addProblemDependency db.contest m.probId d = some { db.contest with
            problemDependencies := db.contest.problemDependencies.insert (m.probId, d) () } := by
          rw [addProblemDependency, Table.insertNew, if_neg hrow]
          rfl
        exact yields_bind (yields_writeContest hadd) ih

theorem yields_setDependencies :
    Prog.Yields (ProbMessage.setDependencies m) db
      { db with contest := { db.contest with
        problemDependencies := dependenciesAfter m db.contest.problemDependencies
          (getProblemDependencies db.contest m.probId) } } () :=
  yields_bind (yields_readContest _) (yields_bind (yields_removeDeps _) (yields_addDeps _ m.deps))

theorem yields_apply {c : Contest} (hdb : db.contest = { c with
      problemAttributes := (stale m c).foldl (removeRow m) c.problemAttributes
      problemFileData := (stale m c).foldl (removeRow m) c.problemFileData }) :
    Prog.Yields (ProbMessage.apply m (getProblemType c m.probId)) db { db with contest := update m c } true := by
  obtain ⟨peer, contest⟩ := db
  subst hdb
  refine yields_bind (yields_setType _) (yields_bind (yields_all (yields_setFiles _)
    (yields_all (yields_setInts _) (yields_setStrings _))) (yields_bind yields_setUpdateTime ?_))
  exact yields_bind yields_setDependencies (yields_pure true _)

theorem yields_intProcess (hprob : m.probId ≠ 4294967295) (hnew : ¬Outdated m db.contest) :
    Prog.Yields (ProbMessage.intProcess m) db { db with contest := update m db.contest } true := by
  rw [ProbMessage.intProcess, if_neg hprob]
  refine yields_bind (yields_readContest _) ?_
  split
  · next htype =>
    refine yields_bind (yields_readContest _) ?_
    rw [if_neg fun h => hnew ⟨htype, h⟩]
    refine yields_bind (yields_readContest _) ?_
    refine yields_bind (yields_removeAttributes _) (yields_apply ?_)
    rw [stale, if_pos htype]
  · next htype =>
    refine yields_apply ?_
    rw [stale, if_neg htype]
    rfl

theorem yields_intProcess_of_outdated (hprob : m.probId ≠ 4294967295) (hold : Outdated m db.contest) :
    Prog.Yields (ProbMessage.intProcess m) db db true := by
  rw [ProbMessage.intProcess, if_neg hprob]
  refine yields_bind (yields_readContest _) ?_
  rw [if_pos hold.1]
  refine yields_bind (yields_readContest _) ?_
  rw [if_pos hold.2]
  exact yields_pure true db

end

section

variable {q d : Nat}

inductive Fate
  | set (value : Str) (data : Option Str)
  | keep
  | remove
  deriving DecidableEq

def fate (attr : Str) : Fate :=
  match m.strings[attr]?, m.ints[attr]?, m.files[attr]? with
  | some value, _, _ => .set value none
  | none, some value, _ => .set (Misc.toString value) none
  | none, none, some f => if f.name ≠ [] then .set f.name (some f.data) else .keep
  | none, none, none => .remove

theorem named_eq_false_iff (attr : Str) : named m attr = false ↔ fate m attr = .remove := by
  have hnone : ∀ {ρ : Type} (t : StringMap ρ), t.contains attr = false ↔ t[attr]? = none := by
    intro ρ t
    rw [Std.ExtTreeMap.contains_eq_isSome_getElem?, Option.isSome_eq_false_iff, Option.isNone_iff_eq_none]
  simp only [named, Bool.or_eq_false_iff, hnone, fate]
  cases m.strings[attr]? with
  | some value => simp
  | none =>
    cases m.ints[attr]? with
    | some value => simp
    | none =>
      cases m.files[attr]? with
      | none => simp
      | some f => by_cases hname : f.name = [] <;> simp [hname]

variable {m} {c : Contest} {attr : Str}

theorem getElem?_foldl_removeRow {ρ : Type} (t : Table (Nat × Str) ρ) (attrs : List Str) :
    (attrs.foldl (removeRow m) t)[(m.probId, attr)]? =
      if attr ∈ attrs ∧ named m attr = false then none else t[(m.probId, attr)]? := by
  induction attrs generalizing t with
  | nil => simp
  | cons a attrs ih =>
    rw [List.foldl_cons, ih, removeRow]
    by_cases ha : a = attr
    · subst ha
      cases named m a with
      | true | false => simp
    · have ha' : ¬attr = a := fun h => ha h.symm
      cases named m a with
      | true => simp [ha']
      | false => simp [Table.getElem?_erase_row, ha, ha']

theorem mem_keys_getProblemAttributes (p : Nat) :
    attr ∈ (getProblemAttributes c p).keys ↔ (p, attr) ∈ c.problemAttributes := by
  rw [Std.ExtTreeMap.mem_keys, getProblemAttributes, Std.ExtTreeMap.mem_ofList, List.contains_iff_mem]
  simp only [List.mem_map, List.mem_filterMap, Option.ite_none_right_eq_some, Option.some.injEq]
  constructor
  · rintro ⟨⟨a, v⟩, ⟨⟨⟨p', a'⟩, v'⟩, hrow, rfl, heq⟩, rfl⟩
    cases heq
    exact Table.mem_iff_exists_row.mpr ⟨v', Std.ExtTreeMap.mem_toList_iff_getElem?_eq_some.mp hrow⟩
  · intro hmem
    obtain ⟨v, hv⟩ := Table.mem_iff_exists_row.mp hmem
    exact ⟨(attr, text v), ⟨((p, attr), v), Std.ExtTreeMap.mem_toList_iff_getElem?_eq_some.mpr hv, rfl, rfl⟩, rfl⟩

theorem mem_stale_iff : attr ∈ stale m c ↔ getProblemType c m.probId ≠ [] ∧ (m.probId, attr) ∈ c.problemAttributes := by
  rw [stale]
  split
  · next htype => rw [mem_keys_getProblemAttributes, and_iff_right htype]
  · next htype => simp [htype]

theorem getElem?_put (t : Table (Nat × Str) Str) (a : Str) (row : Option Str) (q : Nat) :
    (put m t a row)[(q, attr)]? = if (m.probId, a) = (q, attr) then row else t[(q, attr)]? := by
  cases row with
  | some row => exact Table.getElem?_insert_row t _ _ row
  | none => exact Table.getElem?_erase_row t _ _

theorem getElem?_rowsAfter (row : Str → Option Str → Option Str) {ofFile : FileAttrib → Str}
    (hrow : ∀ f : FileAttrib, some (ofFile f) = row f.name (some f.data)) (t : Table (Nat × Str) Str)
    (attrs : List Str) :
    (rowsAfter m ofFile (fun value => row (Misc.toString value) none) (row · none) t attrs)[(m.probId, attr)]? =
      match fate m attr with
      | .set value data => row value data
      | .keep => t[(m.probId, attr)]?
      | .remove => if attr ∈ attrs then none else t[(m.probId, attr)]? := by
  let view (t : Table (Nat × Str) Str) : Option Str := t[(m.probId, attr)]?
  have hpair : ∀ {a : Str}, a ≠ attr → (m.probId, a) ≠ (m.probId, attr) := by
    intro a ha heq
    exact ha (Prod.ext_iff.mp heq).2
  have hstrings := Table.foldl_toList m.strings (fun t a => put m t a.1 (row a.2 none)) view attr
    (fun value _ => row value none) (fun t value => (getElem?_put t attr _ _).trans (if_pos rfl))
    fun t a value ha => (getElem?_put t a _ _).trans (if_neg (hpair ha))
  have hints := Table.foldl_toList m.ints (fun t a => put m t a.1 (row (Misc.toString a.2) none)) view attr
    (fun value _ => row (Misc.toString value) none) (fun t value => (getElem?_put t attr _ _).trans (if_pos rfl))
    fun t a value ha => (getElem?_put t a _ _).trans (if_neg (hpair ha))
  have hfiles := Table.foldl_toList m.files (putFile m ofFile) view attr
    (fun f old => if f.name ≠ [] then some (ofFile f) else old)
    (fun t f => by
      rw [putFile]
      split
      · exact (getElem?_put t attr _ _).trans (if_pos rfl)
      · rfl)
    fun t a f ha => by
      rw [putFile]
      split
      · exact (getElem?_put t a _ _).trans (if_neg (hpair ha))
      · rfl
  have hremove : view (attrs.foldl (removeRow m) t) = if attr ∈ attrs ∧ named m attr = false then none else view t :=
    getElem?_foldl_removeRow t attrs
  have hnamed := named_eq_false_iff m attr
  change view _ = _
  rw [rowsAfter, hstrings, hints, hfiles, hremove]
  simp only [hnamed, fate]
  cases m.strings[attr]? with
  | some value => rfl
  | none =>
    cases m.ints[attr]? with
    | some value => rfl
    | none =>
      cases m.files[attr]? with
      | some f => by_cases hname : f.name = [] <;> simp [hname, view, hrow]
      | none => simp [view]

theorem getElem?_attributesAfter (t : Table (Nat × Str) Str) (attrs : List Str) :
    (attributesAfter m t attrs)[(m.probId, attr)]? =
      match fate m attr with
      | .set value _ => some value
      | .keep => t[(m.probId, attr)]?
      | .remove => if attr ∈ attrs then none else t[(m.probId, attr)]? := by
  rw [← getElem?_rowsAfter (fun value _ => some value) fun _ => rfl]
  rfl

theorem getElem?_fileDataAfter (t : Table (Nat × Str) Str) (attrs : List Str) :
    (fileDataAfter m t attrs)[(m.probId, attr)]? =
      match fate m attr with
      | .set _ data => data
      | .keep => t[(m.probId, attr)]?
      | .remove => if attr ∈ attrs then none else t[(m.probId, attr)]? := by
  rw [← getElem?_rowsAfter (fun _ data => data) fun _ => rfl]
  rfl

def rows (p : Nat) (c : Contest) (attr : Str) : Option Str × Option Str :=
  (c.problemAttributes[(p, attr)]?, c.problemFileData[(p, attr)]?)

theorem rows_update_eq (c : Contest) :
    rows m.probId (update m c) attr =
      match fate m attr with
      | .set value data => (some value, data)
      | .keep => rows m.probId c attr
      | .remove => if attr ∈ stale m c then (none, none) else rows m.probId c attr := by
  change ((attributesAfter m c.problemAttributes (stale m c))[(m.probId, attr)]?,
    (fileDataAfter m c.problemFileData (stale m c))[(m.probId, attr)]?) = _
  rw [getElem?_attributesAfter, getElem?_fileDataAfter]
  cases fate m attr with
  | set value data | keep => rfl
  | remove =>
    by_cases hstale : attr ∈ stale m c
    · simp only [if_pos hstale]
    · simp only [if_neg hstale, rows]

theorem getElem?_rowsAfter_of_ne (ofFile : FileAttrib → Str) (ofInt : Int → Option Str) (ofString : Str → Option Str)
    (t : Table (Nat × Str) Str) (attrs : List Str) (hq : q ≠ m.probId) :
    (rowsAfter m ofFile ofInt ofString t attrs)[(q, attr)]? = t[(q, attr)]? := by
  let view (t : Table (Nat × Str) Str) : Option Str := t[(q, attr)]?
  have hpair : ∀ a : Str, (m.probId, a) ≠ (q, attr) := by
    intro a heq
    exact hq (Prod.ext_iff.mp heq).1.symm
  have hput : ∀ (t : Table (Nat × Str) Str) (a : Str) (row : Option Str), view (put m t a row) = view t :=
    fun t a row => (getElem?_put t a row q).trans (if_neg (hpair a))
  have hremove : ∀ (t : Table (Nat × Str) Str) (a : Str), view (removeRow m t a) = view t := by
    intro t a
    rw [removeRow]
    split
    · rfl
    · exact hput t a none
  have hfile : ∀ (t : Table (Nat × Str) Str) (f : Str × FileAttrib), view (putFile m ofFile t f) = view t := by
    intro t f
    rw [putFile]
    split
    · exact hput t f.1 _
    · rfl
  change view _ = view t
  rw [rowsAfter, Table.view_foldl fun t (a : Str × Str) => hput t a.1 (ofString a.2),
    Table.view_foldl fun t (a : Str × Int) => hput t a.1 (ofInt a.2), Table.view_foldl hfile, Table.view_foldl hremove]

theorem attributes_update_of_ne (hq : q ≠ m.probId) :
    (update m c).problemAttributes[(q, attr)]? = c.problemAttributes[(q, attr)]? :=
  getElem?_rowsAfter_of_ne FileAttrib.name (fun value => some (Misc.toString value)) some c.problemAttributes
    (stale m c) hq

theorem fileData_update_of_ne (hq : q ≠ m.probId) :
    (update m c).problemFileData[(q, attr)]? = c.problemFileData[(q, attr)]? :=
  getElem?_rowsAfter_of_ne FileAttrib.data (fun _ => none) (fun _ => none) c.problemFileData (stale m c) hq

theorem getElem?_problemAfter (t : Table Nat Problem) (exType : Str) (q : Nat) :
    (problemAfter m t exType)[q]? =
      if q = m.probId then ((typed m t exType)[q]?).map fun r => { r with updated := m.updateTime } else t[q]? := by
  rw [problemAfter, Table.getElem?_modify_row]
  by_cases hq : q = m.probId
  · subst hq
    rw [if_pos rfl, if_pos rfl]
  · have hq' : ¬m.probId = q := fun h => hq h.symm
    rw [if_neg hq, if_neg hq', typed]
    split
    · rw [Table.getElem?_insert_row, if_neg hq']
    · rfl

theorem mem_getProblemDependencies {p : Nat} :
    d ∈ getProblemDependencies c p ↔ (p, d) ∈ c.problemDependencies ∧ d ∈ c.problem := by
  simp only [getProblemDependencies, List.mem_map, List.mem_filter, Std.ExtTreeMap.mem_keys, decide_eq_true_eq]
  constructor
  · rintro ⟨⟨p', d'⟩, ⟨hrow, rfl, hd⟩, rfl⟩
    exact ⟨hrow, hd⟩
  · rintro ⟨hrow, hd⟩
    exact ⟨(p, d), ⟨hrow, rfl, hd⟩, rfl⟩

theorem mem_foldl_erase (t : Table (Nat × Nat) Unit) (olds : List Nat) (q d : Nat) :
    (q, d) ∈ olds.foldl (fun t d => if d ∈ m.deps then t else t.erase (m.probId, d)) t ↔
      (q, d) ∈ t ∧ ¬(q = m.probId ∧ d ∈ olds ∧ d ∉ m.deps) := by
  induction olds generalizing t with
  | nil => simp
  | cons e olds ih =>
    rw [List.foldl_cons, ih]
    by_cases he : e ∈ m.deps
    · rw [if_pos he]
      have hne : d ∉ m.deps → d ≠ e := fun h heq => h (heq ▸ he)
      simp only [List.mem_cons]
      grind
    · rw [if_neg he, Std.ExtTreeMap.mem_erase]
      simp only [ne_eq, Std.LawfulEqOrd.compare_eq_iff_eq, Prod.mk.injEq, List.mem_cons]
      grind

theorem mem_foldl_insert (t : Table (Nat × Nat) Unit) (olds deps : List Nat) (q d : Nat) :
    (q, d) ∈ deps.foldl (fun t d => if d ∈ olds then t else t.insert (m.probId, d) ()) t ↔
      (q, d) ∈ t ∨ q = m.probId ∧ d ∈ deps ∧ d ∉ olds := by
  induction deps generalizing t with
  | nil => simp
  | cons e deps ih =>
    rw [List.foldl_cons, ih]
    by_cases he : e ∈ olds
    · rw [if_pos he]
      simp only [List.mem_cons]
      grind
    · rw [if_neg he, Table.mem_insert_row]
      simp only [Prod.mk.injEq, List.mem_cons]
      grind

/-- A dependency on a problem that is there is the message's; one on a problem that is not is never removed. -/
theorem mem_dependencies_update : (m.probId, d) ∈ (update m c).problemDependencies ↔
      d ∈ m.deps ∨ (m.probId, d) ∈ c.problemDependencies ∧ d ∉ (update m c).problem := by
  change (m.probId, d) ∈ dependenciesAfter m _ _ ↔ _
  rw [dependenciesAfter, mem_foldl_insert, mem_foldl_erase, mem_getProblemDependencies]
  change _ ↔ _ ∨ _ ∧ d ∉ (attributesSet m c).problem
  have hsame : (attributesSet m c).problemDependencies = c.problemDependencies := rfl
  rw [hsame]
  by_cases hd : d ∈ (attributesSet m c).problem
  · by_cases hrow : (m.probId, d) ∈ c.problemDependencies
    · simp [hd, hrow]
    · simp [hd, hrow]
  · simp [hd, or_comm]

theorem mem_dependencies_update_of_ne (hq : q ≠ m.probId) :
    (q, d) ∈ (update m c).problemDependencies ↔ (q, d) ∈ c.problemDependencies := by
  change (q, d) ∈ dependenciesAfter m _ _ ↔ _
  rw [dependenciesAfter, mem_foldl_insert, mem_foldl_erase]
  simp [hq]

end

end Abacus.Peer.ProbUpdate
