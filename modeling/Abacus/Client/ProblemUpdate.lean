import Abacus.Client.Totality
import Abacus.Client.Walk
import Abacus.Convergence.Prob

/-! # What is stored of a problem update

After a `setprobattrs` request the tables are to say what its message says. Attributes are removed only
if the problem has a type, file data only with an attribute, and dependencies only on problems
that there are; so what an update leaves depends on what it finds.
-/

namespace Abacus.Client.ProblemUpdate

open Library Library.Bytes Client.Block Client.Action Client.ProblemManip Client.Walk
open Database.Schema Database.Problems Peer.Classes Peer.Process Peer.ProbUpdate Convergence.Prob

/-- Some request leads to the message. The size of its content is an `int`. -/
def Creatable (m : ProbMessage) : Prop :=
  ∃ (s : Server) (mb : MessageBlock) (db : Db) (reply : MessageBlock), mb.contentSize ≤ 2147483647 ∧
    Prog.result (actSetProbAttrs s mb) db = .ok (.message (.prob m) reply)

section

variable {m : ProbMessage} {name : Str} {e e' : Entry}

theorem mem_problemTypes_of_description {type : Str} (h : getProblemDescription type ≠ []) :
    ∃ t ∈ problemTypes, str t.1 = type := by
  unfold getProblemDescription at h
  split at h
  · exact absurd rfl h
  · next t hfind =>
    have htype := List.find?_some hfind
    exact ⟨t, List.mem_of_find?_eq_some hfind, of_decide_eq_true htype⟩

structure Created (m : ProbMessage) : Prop where
  known : ∃ t ∈ problemTypes, str t.1 = m.type
  unique : ∀ {name : Str} {e e' : Entry}, Holds m name e → Holds m name e' → e = e'

theorem names_nodup : ∀ t ∈ problemTypes, ((leavesOf (str t.1)).1.map Attribute.name).Nodup := by decide +kernel

theorem created_of_creatable (h : Creatable m) : Created m := by
  obtain ⟨s, mb, db, reply, hcontent, hresult⟩ := h
  rw [result_actSetProbAttrs] at hresult
  split at hresult
  · cases hresult
  · split at hresult
    · cases hresult
    · next hdesc =>
      obtain ⟨msg, houtcome, ⟨⟩⟩ := answer_eq_message hresult
      obtain ⟨t, ht, htype⟩ := mem_problemTypes_of_description hdesc
      rw [outcome, walk_eq, Outcome.bind_eq_ok] at houtcome
      obtain ⟨msg', hset, hended⟩ := houtcome
      obtain ⟨-, rfl⟩ := ended_eq_ok_iff.mp hended
      obtain ⟨-, rfl⟩ := (setAttributes_eq_ok_iff hcontent _).mp hset
      obtain ⟨-, -, hsame, -⟩ := foldl_put_header (newMessage s mb (numberOf s mb db) (typeOf mb db))
        (entries mb (probIdOf mb) (leavesOf (typeOf mb db)).1)
      refine ⟨⟨t, ht, htype.trans hsame.symm⟩, ?_⟩
      intro name e e' he he'
      have hnodup : ((entries mb (probIdOf mb) (leavesOf (typeOf mb db)).1).map Prod.fst).Nodup :=
        (map_fst_entries _).nodup (htype ▸ names_nodup t ht)
      have hnone (e : Entry) : ¬ Holds (newMessage s mb (numberOf s mb db) (typeOf mb db)) name e := by
        cases e <;> simp [Holds, newMessage]
      have hmem := (of_holds_foldl_put _ he).resolve_right (hnone e)
      have hmem' := (of_holds_foldl_put _ he').resolve_right (hnone e')
      exact (Prod.mk.inj (List.inj_on_of_nodup_map hnodup hmem hmem' rfl)).2

end

/-- The rows of the problem are what the message says, and the others are as they were. A file without name is kept. -/
structure Reflects (m : ProbMessage) (c c' : Contest) : Prop where
  type : getProblemType c' m.probId = m.type
  strings : ∀ (attr value : Str), m.strings[attr]? = some value → rows m.probId c' attr = (some value, none)
  ints : ∀ (attr : Str) (value : Int), m.ints[attr]? = some value →
    rows m.probId c' attr = (some (Misc.toString value), none)
  files : ∀ (attr : Str) (f : FileAttrib), m.files[attr]? = some f → f.name ≠ [] →
    rows m.probId c' attr = (some f.name, some f.data)
  kept : ∀ (attr : Str) (f : FileAttrib), m.files[attr]? = some f → f.name = [] →
    rows m.probId c' attr = rows m.probId c attr
  others : ∀ attr, Vacant m attr → rows m.probId c' attr = (none, none)
  dependencies : ∀ d, (m.probId, d) ∈ c'.problemDependencies ↔ d ∈ m.deps
  frame : ∀ q, q ≠ m.probId → c'.problem[q]? = c.problem[q]? ∧ (∀ attr, rows q c' attr = rows q c attr) ∧
    ∀ d, (q, d) ∈ c'.problemDependencies ↔ (q, d) ∈ c.problemDependencies

/-- The attributes that the update does not name can be looked at, and so can the dependencies that are to go. -/
structure Tidy (m : ProbMessage) (c : Contest) : Prop where
  attributes : ∀ attr, Vacant m attr → (m.probId, attr) ∈ c.problemAttributes → getProblemType c m.probId ≠ []
  fileData : ∀ attr, Vacant m attr → (m.probId, attr) ∈ c.problemFileData → (m.probId, attr) ∈ c.problemAttributes
  dependencies : ∀ d, (m.probId, d) ∈ c.problemDependencies → d ∉ m.deps → d ∈ c.problem ∨ d = m.probId

section

variable {m : ProbMessage} {c : Contest} {attr : Str}

theorem Created.valid (h : Created m) (hproper : m.probId ≠ 4294967295) : Valid m.probId m := by
  have hall : ∀ t ∈ problemTypes, str t.1 ≠ [] ∧ text (str t.1) = str t.1 := by decide +kernel
  obtain ⟨t, ht, htype⟩ := h.known
  obtain ⟨hne, htext⟩ := hall t ht
  rw [htype] at hne htext
  exact ⟨rfl, hproper, hne, htext⟩

theorem fate_of_vacant (h : Vacant m attr) : fate m attr = .remove := by
  have hstring : m.strings[attr]? = none := Option.eq_none_iff_forall_ne_some.mpr fun value => h (.string value)
  have hint : m.ints[attr]? = none := Option.eq_none_iff_forall_ne_some.mpr fun value => h (.int value)
  have hfile : m.files[attr]? = none := Option.eq_none_iff_forall_ne_some.mpr fun f => h (.file f)
  rw [fate, hstring, hint, hfile]

theorem fate_of_string {value : Str} (h : m.strings[attr]? = some value) : fate m attr = .set value none := by
  rw [fate, h]

theorem Created.strings_eq_none (hm : Created m) {e : Entry} (h : Holds m attr e) (he : ∀ value, .string value ≠ e) :
    m.strings[attr]? = none := by
  apply Option.eq_none_iff_forall_ne_some.mpr
  intro value hvalue
  have hholds : Holds m attr (.string value) := hvalue
  exact he value (hm.unique hholds h)

theorem Created.fate_of_int (hm : Created m) {value : Int} (h : m.ints[attr]? = some value) :
    fate m attr = .set (Misc.toString value) none := by
  have hholds : Holds m attr (.int value) := h
  rw [fate, hm.strings_eq_none hholds (by simp), h]

theorem Created.fate_of_file (hm : Created m) {f : FileAttrib} (h : m.files[attr]? = some f) :
    fate m attr = if f.name ≠ [] then .set f.name (some f.data) else .keep := by
  have hholds : Holds m attr (.file f) := h
  have hint : m.ints[attr]? = none := by
    apply Option.eq_none_iff_forall_ne_some.mpr
    intro value hvalue
    have hother : Holds m attr (.int value) := hvalue
    cases hm.unique hother hholds
  rw [fate, hm.strings_eq_none hholds (by simp), hint, h]

theorem rows_update_of_vacant (h : Vacant m attr) : rows m.probId (update m c) attr = (none, none) ↔
    attr ∈ stale m c ∨ rows m.probId c attr = (none, none) := by
  rw [rows_update_eq, fate_of_vacant h]
  by_cases hstale : attr ∈ stale m c
  · simp [hstale]
  · simp [hstale]

theorem tidy_of_reflects (hm : Valid m.probId m) (h : Reflects m c (update m c)) : Tidy m c where
  attributes attr hvacant hmem := by
    obtain hstale | hnone := (rows_update_of_vacant hvacant).mp (h.others attr hvacant)
    · exact (mem_stale_iff.mp hstale).1
    · obtain ⟨value, hvalue⟩ := Table.mem_iff_exists_row.mp hmem
      rw [rows, hvalue] at hnone
      cases hnone
  fileData attr hvacant hmem := by
    obtain hstale | hnone := (rows_update_of_vacant hvacant).mp (h.others attr hvacant)
    · exact (mem_stale_iff.mp hstale).2
    · obtain ⟨data, hdata⟩ := Table.mem_iff_exists_row.mp hmem
      rw [rows, hdata] at hnone
      cases (Prod.mk.inj hnone).2
  dependencies d hrow hdep := by
    rw [← mem_problem_update hm]
    by_contra hd
    exact hdep ((h.dependencies d).mp (mem_dependencies_update.mpr (.inr ⟨hrow, hd⟩)))

theorem Tidy.rows_of_vacant (h : Tidy m c) (hvacant : Vacant m attr) :
    rows m.probId (update m c) attr = (none, none) := by
  rw [rows_update_of_vacant hvacant]
  by_cases hattr : (m.probId, attr) ∈ c.problemAttributes
  · exact .inl (mem_stale_iff.mpr ⟨h.attributes attr hvacant hattr, hattr⟩)
  · have hfile : (m.probId, attr) ∉ c.problemFileData := fun hmem => hattr (h.fileData attr hvacant hmem)
    rw [rows, Std.ExtTreeMap.getElem?_eq_none hattr, Std.ExtTreeMap.getElem?_eq_none hfile]
    exact .inr rfl

theorem reflects_of_tidy (hm : Created m) (hvalid : Valid m.probId m) (h : Tidy m c) : Reflects m c (update m c) where
  type := getProblemType_update hvalid
  strings attr value hvalue := by rw [rows_update_eq, fate_of_string hvalue]
  ints attr value hvalue := by rw [rows_update_eq, hm.fate_of_int hvalue]
  files attr f hf hname := by rw [rows_update_eq, hm.fate_of_file hf, if_pos hname]
  kept attr f hf hname := by rw [rows_update_eq, hm.fate_of_file hf, if_neg (not_not.mpr hname)]
  others attr hvacant := h.rows_of_vacant hvacant
  dependencies d := by
    rw [mem_dependencies_update, mem_problem_update hvalid]
    constructor
    · rintro (hd | ⟨hrow, hno⟩)
      · exact hd
      · by_contra hd
        exact hno (h.dependencies d hrow hd)
    · exact .inl
  frame q hq := by
    refine ⟨?_, ?_, fun d => mem_dependencies_update_of_ne hq⟩
    · exact (getElem?_problemAfter _ _ q).trans (if_neg hq)
    · intro attr
      rw [rows, rows, attributes_update_of_ne hq, fileData_update_of_ne hq]

/-- After an update that is not outdated the tables reflect the message exactly if they were tidy before. -/
theorem reflects_iff_tidy {db db' : Db} (hcreated : Creatable m) (hnew : ¬ Outdated m db.contest)
    (hprocess : Prog.Yields (ProbMessage.intProcess m) db db' true) :
    Reflects m db.contest db'.contest ↔ Tidy m db.contest := by
  have hm := created_of_creatable hcreated
  have hproper : m.probId ≠ 4294967295 := by
    intro himproper
    have hresult := hprocess.2
    rw [ProbMessage.intProcess, if_pos himproper] at hresult
    cases hresult
  have hvalid := hm.valid hproper
  obtain ⟨rfl, -⟩ := hprocess
  rw [(yields_intProcess hproper hnew).1]
  exact ⟨tidy_of_reflects hvalid, reflects_of_tidy hm hvalid⟩

end

def keepRequest : MessageBlock :=
  request "setprobattrs" [("prob_id", "1"), ("prob_type", "interactiveprob"), ("shortname", "a"), ("longname", "A"),
    ("multi_submit", "No"), ("evaluator", "-"), ("time_limit", "1"), ("memory_limit", "1")]

def keepMessage : ProbMessage where
  probId := 1
  updateTime := 100
  deps := []
  type := str "interactiveprob"
  files := (∅ : StringMap FileAttrib).insert (str "evaluator") { name := [], data := [] }
  strings := (∅ : StringMap Str)
    |>.insert (str "shortname") (str "a")
    |>.insert (str "longname") (str "A")
    |>.insert (str "multi_submit") (str "No")
  ints := (∅ : StringMap Int)
    |>.insert (str "time_limit") 1
    |>.insert (str "memory_limit") 1

theorem creatable_keepMessage : Creatable keepMessage := by
  refine ⟨Totality.server, keepRequest, ⟨.empty, .empty⟩, .ok, by decide +kernel, ?_⟩
  have houtcome : outcome Totality.server keepRequest ⟨.empty, .empty⟩ = .ok keepMessage := by decide +kernel
  rw [result_actSetProbAttrs, houtcome, if_neg (by decide +kernel), if_neg (by decide +kernel)]
  rfl

/-- The update of a problem that is not there yet. -/
theorem reflects_new_problem : Reflects keepMessage .empty (update keepMessage .empty) := by
  have hnew : ¬ Outdated keepMessage Contest.empty := by
    rintro ⟨htype, -⟩
    exact htype (by decide +kernel)
  have hprocess : Prog.Yields (ProbMessage.intProcess keepMessage) ⟨.empty, .empty⟩ _ true :=
    yields_intProcess (by decide) hnew
  refine (reflects_iff_tidy creatable_keepMessage hnew hprocess).mpr ⟨?_, ?_, ?_⟩
  · intro attr _ hmem
    exact absurd hmem Std.ExtTreeMap.not_mem_empty
  · intro attr _ hmem
    exact absurd hmem Std.ExtTreeMap.not_mem_empty
  · intro d hmem
    exact absurd hmem Std.ExtTreeMap.not_mem_empty

def dangling : Contest :=
  { Contest.empty with
    problem := (∅ : Table Nat Problem).insert 1 { updated := 5, type := str "interactiveprob" }
    problemDependencies := (∅ : Table (Nat × Nat) Unit).insert (1, 7) () }

/-- An update without dependencies leaves the dependency on a problem that there is not. -/
theorem not_reflects_dangling : ¬ ∀ (m : ProbMessage) (db db' : Db), Creatable m → ¬ Outdated m db.contest →
    Prog.Yields (ProbMessage.intProcess m) db db' true → Reflects m db.contest db'.contest := by
  intro hall
  have hnew : ¬ Outdated keepMessage dangling := by
    rintro ⟨-, hold⟩
    exact absurd hold (by decide +kernel)
  have hprocess : Prog.Yields (ProbMessage.intProcess keepMessage) ⟨.empty, dangling⟩ _ true :=
    yields_intProcess (by decide) hnew
  have hreflects := hall keepMessage _ _ creatable_keepMessage hnew hprocess
  have hrow : (keepMessage.probId, 7) ∈ (update keepMessage dangling).problemDependencies := by decide +kernel
  exact absurd ((hreflects.dependencies 7).mp hrow) (by decide)

end Abacus.Client.ProblemUpdate
