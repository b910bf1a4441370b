import Abacus.Description.Grammar

/-! # The arguments of `addproblem` and `replaceproblem`

The tool means to refuse what is given twice, but nothing ever changes the flags that it looks at, and an
empty list of dependencies counts as none.
-/

namespace Abacus.Description.Arguments

open Library Library.Bytes Description.Tool Description.Grammar

structure ProblemInfo where
  id : Nat
  code : Str
  deriving DecidableEq

structure FoundAttribute extends ProblemAttribute where
  found : Bool

inductive Failure
  /-- The text goes to the standard error, and the result is 1. -/
  | refused (text : Str)
  | outOfBounds
  | rounds
  | tooLong
  deriving DecidableEq

structure Collected where
  normal : Table Str Str := ∅
  files : Table Str Str := ∅
  dependencies : List Nat := []

/-- What `setProblemAttributes` is called with. -/
structure Call extends Collected where
  probId : Nat
  probType : Str

def ofParse (context : Str) : ParseError → Failure
  | .badFormat msg => .refused (context ++ msg ++ str "\n")
  | .outOfBounds => .outOfBounds
  | .rounds => .rounds
  | .tooLong => .tooLong

/-- A list that is put between brackets, to be parsed like the one of an attribute. -/
def dependencyNames (value : Str) : Except Failure (List Str) :=
  if 2147483648 ≤ value.length then .error .tooLong
  else
    match problemParseList (str "]") (problemTokenize value ++ [str "]"]) with
    | .error e => .error (ofParse (str "Failed to parse dependency list: ") e)
    | .ok (names, rest) =>
      if rest.length ≠ 1 then
        .error (.refused (str "Failed to parse dependency list: Trailing garbage after dependency list\n"))
      else .ok names

def probsMap (probs : List ProblemInfo) : Table Str Nat := Table.insertAll ProblemInfo.code ProblemInfo.id ∅ probs

def addDependency (probsMap : Table Str Nat) (dependencies : List Nat) (name : Str) : Except Failure (List Nat) :=
  match probsMap[name]? with
  | none => .error (.refused (str "Unknown problem `" ++ name ++ str "'\n"))
  | some id =>
    if id = 0 then .error (.refused (str "Problem " ++ name ++ str " listed twice\n")) else .ok (dependencies ++ [id])

def listed (names : List Str) : Str := names.flatMap fun name => str "    " ++ name ++ str "\n"

def takeArgument (attribs : Table Str FoundAttribute) (probs : List ProblemInfo) (c : Collected) (arg : Str × Str) :
    Except Failure Collected :=
  if arg.1 = str "dependencies" then
    if c.dependencies ≠ [] then .error (.refused (str "Dependencies listed twice\n"))
    else do
      let names ← dependencyNames arg.2
      let dependencies ← names.foldlM (addDependency (probsMap probs)) c.dependencies
      return { c with dependencies }
  else
    match attribs[arg.1]? with
    | none =>
      .error (.refused (str "Invalid attribute `" ++ arg.1 ++ str "'. Valid attributes are:\n" ++ listed attribs.keys))
    | some a =>
      if a.found then .error (.refused (str "Attribute `" ++ arg.1 ++ str "' specified twice\n"))
      else if a.type = .file then .ok { c with files := c.files.insert arg.1 arg.2 }
      else .ok { c with normal := c.normal.insert arg.1 arg.2 }

/-- Names and values in turn; a name without a value is left out. -/
def argumentPairs : List Str → List (Str × Str)
  | name :: value :: rest => (name, value) :: argumentPairs rest
  | _ => []

def attributesOf (ans : Table Str ProblemAttribute) : Table Str FoundAttribute :=
  ans.map fun _ a => { a with found := false }

/-- What the server says of the types, of the description of this type and of the problems comes first. -/
def doAddOrReplaceProblem (types : List Str) (desc : Str) (probs : List ProblemInfo) (probId : Nat) (probType : Str)
    (args : List Str) : Except Failure Call :=
  if probType ∉ types then
    .error (.refused (str "Invalid problem type `" ++ probType ++ str "'. Valid types are:\n" ++ listed types))
  else
    match problemParseDesc desc with
    | .error e => .error (ofParse (str "Failed to parse problem format: ") e)
    | .ok ans =>
      ((argumentPairs args).foldlM (takeArgument (attributesOf ans) probs) {}).map fun c => { c with probId, probType }

section

variable (types : List Str) (desc : Str) (probs : List ProblemInfo) (probType : Str) (args : List (Str × Str))

/-- A value that lists these names. -/
def NamesIn (value : Str) (names : List Str) : Prop :=
  value.length < 2147483648 ∧ problemTokenize value = commaSeparated names ∧ ∀ name ∈ names, Plain name

/-- What a call stands for: valid names, each once, and dependencies on problems that exist, each once. -/
structure Checked : Prop where
  valid : ∃ as, Lists desc as ∧ ∀ arg ∈ args, arg.1 = str "dependencies" ∨ ∃ a ∈ as, a.name = arg.1
  once : (args.map Prod.fst).Nodup
  dependencies : ∀ arg ∈ args, arg.1 = str "dependencies" →
    ∃ names, NamesIn arg.2 names ∧ (∀ name ∈ names, ∃ p ∈ probs, p.code = name) ∧ names.Nodup

/-- What the tool does check. -/
structure Accepted : Prop where
  type : probType ∈ types
  described : ∃ as, Lists desc as ∧ ∀ arg ∈ args, arg.1 = str "dependencies" ∨ ∃ a ∈ as, a.name = arg.1
  dependencies : ∀ arg ∈ args, arg.1 = str "dependencies" →
    ∃ names, NamesIn arg.2 names ∧ ∀ name ∈ names, ∃ p ∈ probs, p.code = name ∧ p.id ≠ 0
  replaced : args.Pairwise fun a b => a.1 = str "dependencies" → b.1 = str "dependencies" → problemTokenize a.2 = []

structure NoRepeats : Prop where
  once : (args.map Prod.fst).Nodup
  dependencies : ∀ arg ∈ args, arg.1 = str "dependencies" → ∀ names, NamesIn arg.2 names → names.Nodup

end

section

variable {value : Str} {names : List Str} {probs : List ProblemInfo} {as : List ProblemAttribute} {c c' : Collected}
  {arg : Str × Str} {args : List (Str × Str)}

theorem dependencyNames_eq_ok_iff : dependencyNames value = .ok names ↔ NamesIn value names := by
  unfold dependencyNames
  by_cases hlong : 2147483648 ≤ value.length
  · rw [if_pos hlong]
    exact iff_of_false (fun h => by cases h) fun h => Nat.not_lt.mpr hlong h.1
  rw [if_neg hlong]
  constructor
  · intro h
    obtain ⟨values, rest, hvalues, htoks⟩ | ⟨values, hvalues, htoks⟩ | hbad :=
      problemParseList_cases (str "]") (problemTokenize value ++ [str "]"])
    · rw [htoks, problemParseList_values .square hvalues] at h
      dsimp only at h
      split at h
      · cases h
      · next hlength =>
        obtain rfl : rest = [] := List.length_eq_zero_iff.mp (Nat.succ_injective (not_not.mp hlength))
        cases h
        exact ⟨Nat.not_le.mp hlong, List.append_cancel_right htoks, hvalues⟩
    · rw [htoks, problemParseList_cut .square hvalues] at h
      cases h
    · rw [hbad] at h
      cases h
  · rintro ⟨-, htoks, hnames⟩
    rw [htoks, problemParseList_values .square hnames []]
    rfl

theorem getElem?_probsMap (hcodes : (probs.map ProblemInfo.code).Nodup) {name : Str} {id : Nat} :
    (probsMap probs)[name]? = some id ↔ ∃ p ∈ probs, p.code = name ∧ p.id = id := by
  constructor
  · intro h
    obtain hentered | ⟨-, hempty⟩ := Table.entered_of_getElem?_insertAll h
    · exact hentered
    · rw [Std.ExtTreeMap.getElem?_empty] at hempty
      cases hempty
  · rintro ⟨p, hp, rfl, rfl⟩
    have hmem : p.code ∈ probsMap probs := Table.mem_insertAll.mpr (.inr ⟨p, hp, rfl⟩)
    obtain ⟨id, hid⟩ := Table.mem_iff_exists_row.mp hmem
    obtain ⟨q, hq, hcode, hrow⟩ | ⟨hother, -⟩ := Table.entered_of_getElem?_insertAll hid
    · obtain rfl := List.inj_on_of_nodup_map hcodes hq hp hcode
      rw [hrow]
      exact hid
    · exact absurd rfl (hother p hp)

theorem exists_foldlM_addDependency_iff {m : Table Str Nat} {deps : List Nat} :
    (∃ r, names.foldlM (addDependency m) deps = .ok r) ↔ ∀ name ∈ names, ∃ id, m[name]? = some id ∧ id ≠ 0 := by
  induction names generalizing deps with
  | nil => exact iff_of_true ⟨deps, rfl⟩ (List.forall_mem_nil _)
  | cons name names ih =>
    rw [List.foldlM_cons, addDependency, List.forall_mem_cons]
    cases hname : m[name]? with
    | none => simp [bind, Except.bind]
    | some id =>
      by_cases hid : id = 0
      · simp [hid, bind, Except.bind]
      · dsimp only
        rw [if_neg hid]
        exact ih.trans ⟨fun h => ⟨⟨id, rfl, hid⟩, h⟩, And.right⟩

theorem length_of_foldlM_addDependency {m : Table Str Nat} {deps r : List Nat}
    (h : names.foldlM (addDependency m) deps = .ok r) : r.length = deps.length + names.length := by
  induction names generalizing deps with
  | nil =>
    cases h
    rfl
  | cons name names ih =>
    rw [List.foldlM_cons, addDependency] at h
    split at h
    · cases h
    · split at h
      · cases h
      · rw [ih h, List.length_append, List.length_singleton, List.length_cons]
        omega

theorem getElem?_attributesOf {name : Str} {a : FoundAttribute} (h : (attributesOf (collect ∅ as))[name]? = some a) :
    a.found = false ∧ ∃ a ∈ as, a.name = name := by
  rw [attributesOf, Std.ExtTreeMap.getElem?_map] at h
  obtain ⟨a, ha, rfl⟩ := Option.map_eq_some_iff.mp h
  have hmem : name ∈ collect ∅ as := Table.mem_iff_exists_row.mpr ⟨a, ha⟩
  exact ⟨rfl, (Table.mem_insertAll.mp hmem).resolve_left Std.ExtTreeMap.not_mem_empty⟩

/-- The argument can be taken, whatever was taken before. -/
def Takes (as : List ProblemAttribute) (probs : List ProblemInfo) (arg : Str × Str) : Prop :=
  if arg.1 = str "dependencies" then
    ∃ names, NamesIn arg.2 names ∧ ∀ name ∈ names, ∃ p ∈ probs, p.code = name ∧ p.id ≠ 0
  else ∃ a ∈ as, a.name = arg.1

theorem commaSeparated_eq_nil_iff : commaSeparated names = [] ↔ names = [] := by
  constructor
  · intro h
    cases names with
    | nil => rfl
    | cons first names =>
      obtain ⟨more, hmore⟩ := exists_commaSeparated_cons first names
      cases hmore.symm.trans h
  · rintro rfl
    rfl

theorem exists_probsMap_iff (hcodes : (probs.map ProblemInfo.code).Nodup) (name : Str) :
    (∃ id, (probsMap probs)[name]? = some id ∧ id ≠ 0) ↔ ∃ p ∈ probs, p.code = name ∧ p.id ≠ 0 := by
  simp only [getElem?_probsMap hcodes]
  constructor
  · rintro ⟨id, ⟨p, hp, hcode, rfl⟩, hne⟩
    exact ⟨p, hp, hcode, hne⟩
  · rintro ⟨p, hp, hcode, hne⟩
    exact ⟨p.id, ⟨p, hp, hcode, rfl⟩, hne⟩

/-- What an argument that was taken has passed, and when no dependencies are there after it. -/
theorem of_takeArgument (hcodes : (probs.map ProblemInfo.code).Nodup)
    (h : takeArgument (attributesOf (collect ∅ as)) probs c arg = .ok c') :
    Takes as probs arg ∧ (arg.1 = str "dependencies" → c.dependencies = []) ∧
      (c'.dependencies = [] ↔ c.dependencies = [] ∧ (arg.1 = str "dependencies" → problemTokenize arg.2 = [])) := by
  unfold takeArgument at h
  unfold Takes
  by_cases harg : arg.1 = str "dependencies"
  · rw [if_pos harg] at h ⊢
    split at h
    · cases h
    · next hc =>
      have hc := not_not.mp hc
      cases hnames : dependencyNames arg.2 with
      | error e =>
        rw [hnames] at h
        cases h
      | ok names =>
        cases hdeps : names.foldlM (addDependency (probsMap probs)) c.dependencies with
        | error e =>
          rw [hnames] at h
          dsimp only [bind, Except.bind] at h
          rw [hdeps] at h
          cases h
        | ok deps =>
          rw [hnames] at h
          dsimp only [bind, Except.bind] at h
          rw [hdeps] at h
          cases h
          have hin := dependencyNames_eq_ok_iff.mp hnames
          have hknown := exists_foldlM_addDependency_iff.mp ⟨deps, hdeps⟩
          have hlength := length_of_foldlM_addDependency hdeps
          refine ⟨⟨names, hin, fun name hname => (exists_probsMap_iff hcodes name).mp (hknown name hname)⟩,
            fun _ => hc, ?_⟩
          rw [hin.2.1, commaSeparated_eq_nil_iff, ← List.length_eq_zero_iff, hlength, hc, List.length_nil, Nat.zero_add,
            List.length_eq_zero_iff]
          exact ⟨fun h => ⟨rfl, fun _ => h⟩, fun h => h.2 harg⟩
  · rw [if_neg harg] at h ⊢
    split at h
    · cases h
    · next a ha =>
      obtain ⟨hfound, hlisted⟩ := getElem?_attributesOf ha
      rw [if_neg (by rw [hfound]; exact Bool.false_ne_true)] at h
      refine ⟨hlisted, fun heq => absurd heq harg, ?_⟩
      split at h <;> cases h <;> exact ⟨fun h => ⟨h, fun heq => absurd heq harg⟩, And.left⟩

theorem exists_takeArgument (hcodes : (probs.map ProblemInfo.code).Nodup) (h : Takes as probs arg)
    (hfree : arg.1 = str "dependencies" → c.dependencies = []) :
    ∃ c', takeArgument (attributesOf (collect ∅ as)) probs c arg = .ok c' := by
  unfold takeArgument
  unfold Takes at h
  by_cases harg : arg.1 = str "dependencies"
  · rw [if_pos harg] at h ⊢
    obtain ⟨names, hin, hknown⟩ := h
    obtain ⟨deps, hdeps⟩ := exists_foldlM_addDependency_iff.mpr fun name hname =>
      (exists_probsMap_iff hcodes name).mpr (hknown name hname)
    rw [if_neg (not_not.mpr (hfree harg)), dependencyNames_eq_ok_iff.mpr hin]
    dsimp only [bind, Except.bind]
    rw [hdeps]
    exact ⟨_, rfl⟩
  · rw [if_neg harg] at h ⊢
    have hmem : arg.1 ∈ collect ∅ as := Table.mem_insertAll.mpr (.inr h)
    obtain ⟨a, ha⟩ := Table.mem_iff_exists_row.mp hmem
    have hrow : (attributesOf (collect ∅ as))[arg.1]? = some { a with found := false } := by
      rw [attributesOf, Std.ExtTreeMap.getElem?_map, ha]
      rfl
    rw [hrow]
    dsimp only
    rw [if_neg Bool.false_ne_true]
    split
    · exact ⟨_, rfl⟩
    · exact ⟨_, rfl⟩

/-- The loop takes all arguments exactly if each can be taken, and nothing is listed before the last dependencies. -/
theorem exists_foldlM_takeArgument_iff (hcodes : (probs.map ProblemInfo.code).Nodup) :
    (∃ c', args.foldlM (takeArgument (attributesOf (collect ∅ as)) probs) c = .ok c') ↔
      (∀ arg ∈ args, Takes as probs arg) ∧ (c.dependencies ≠ [] → ∀ arg ∈ args, arg.1 ≠ str "dependencies") ∧
        args.Pairwise fun a b => a.1 = str "dependencies" → b.1 = str "dependencies" → problemTokenize a.2 = [] := by
  induction args generalizing c with
  | nil => simp [pure, Except.pure]
  | cons arg args ih =>
    rw [List.foldlM_cons, List.forall_mem_cons, List.forall_mem_cons, List.pairwise_cons]
    constructor
    · rintro ⟨c', h⟩
      cases hstep : takeArgument (attributesOf (collect ∅ as)) probs c arg with
      | error e =>
        rw [hstep] at h
        cases h
      | ok mid =>
        rw [hstep] at h
        obtain ⟨htakes, hfree, hmid⟩ := of_takeArgument hcodes hstep
        obtain ⟨hrest, hnone, hpairs⟩ := ih.mp ⟨c', h⟩
        refine ⟨⟨htakes, hrest⟩, fun hc => ⟨fun harg => hc (hfree harg), hnone fun hnil => hc (hmid.mp hnil).1⟩, ?_,
          hpairs⟩
        intro b hb harg hdep
        by_contra htoks
        exact hnone (fun hnil => htoks ((hmid.mp hnil).2 harg)) b hb hdep
    · rintro ⟨⟨htakes, hrest⟩, hnone, hfirst, hpairs⟩
      obtain ⟨mid, hstep⟩ := exists_takeArgument hcodes htakes fun harg => by_contra fun hc => (hnone hc).1 harg
      obtain ⟨-, -, hmid⟩ := of_takeArgument hcodes hstep
      rw [hstep]
      refine ih.mpr ⟨hrest, fun hne b hb hdep => hne (hmid.mpr ⟨?_, fun harg => hfirst b hb harg hdep⟩), hpairs⟩
      exact by_contra fun hc => (hnone hc).2 b hb hdep

end

section

variable {probs : List ProblemInfo} (types : List Str) (desc : Str) (probId : Nat) (probType : Str) (args : List Str)

theorem exists_call_iff (hcodes : (probs.map ProblemInfo.code).Nodup) :
    (∃ call, doAddOrReplaceProblem types desc probs probId probType args = .ok call) ↔
      Accepted types desc probs probType (argumentPairs args) := by
  unfold doAddOrReplaceProblem
  constructor
  · rintro ⟨call, h⟩
    split at h
    · cases h
    · next htype =>
      by_cases hlong : 2147483648 ≤ desc.length
      · rw [problemParseDesc, if_pos hlong] at h
        cases h
      obtain ⟨as, hlists, hparse⟩ | ⟨-, hparse⟩ | ⟨msg, hparse⟩ := problemParseDesc_cases (Nat.not_le.mp hlong)
      · rw [hparse] at h
        cases hloop : (argumentPairs args).foldlM (takeArgument (attributesOf (collect ∅ as)) probs) {} with
        | error e =>
          dsimp only at h
          rw [hloop] at h
          cases h
        | ok c =>
          obtain ⟨htakes, -, hpairs⟩ := (exists_foldlM_takeArgument_iff hcodes).mp ⟨c, hloop⟩
          refine ⟨not_not.mp htype, ⟨as, hlists, fun arg harg => ?_⟩, fun arg harg hdep => ?_, hpairs⟩
          · by_cases hdep : arg.1 = str "dependencies"
            · exact .inl hdep
            · have htake := htakes arg harg
              rw [Takes, if_neg hdep] at htake
              exact .inr htake
          · have htake := htakes arg harg
            rw [Takes, if_pos hdep] at htake
            exact htake
      · rw [hparse] at h
        cases h
      · rw [hparse] at h
        cases h
  · rintro ⟨htype, ⟨as, hlists, hvalid⟩, hdeps, hpairs⟩
    have htakes : ∀ arg ∈ argumentPairs args, Takes as probs arg := by
      intro arg harg
      unfold Takes
      split
      · next hdep => exact hdeps arg harg hdep
      · next hdep => exact (hvalid arg harg).resolve_left hdep
    obtain ⟨c, hloop⟩ : ∃ c,
        (argumentPairs args).foldlM (takeArgument (attributesOf (collect ∅ as)) probs) {} = .ok c :=
      (exists_foldlM_takeArgument_iff hcodes).mpr ⟨htakes, fun hne => absurd rfl hne, hpairs⟩
    rw [if_neg (not_not.mpr htype), problemParseDesc_of_lists hlists]
    dsimp only
    rw [hloop]
    exact ⟨_, rfl⟩

/-- A call is made for checked arguments only, if and only if arguments that pass the other checks do not repeat
anything. -/
theorem checked_of_call_iff (hcodes : (probs.map ProblemInfo.code).Nodup) :
    ((∃ call, doAddOrReplaceProblem types desc probs probId probType args = .ok call) →
        Checked desc probs (argumentPairs args)) ↔
      (Accepted types desc probs probType (argumentPairs args) → NoRepeats (argumentPairs args)) := by
  rw [exists_call_iff types desc probId probType args hcodes]
  constructor
  · intro h haccepted
    have hchecked := h haccepted
    refine ⟨hchecked.once, fun arg harg hdep names hnames => ?_⟩
    obtain ⟨names', hnames', -, hnodup⟩ := hchecked.dependencies arg harg hdep
    cases (dependencyNames_eq_ok_iff.mpr hnames).symm.trans (dependencyNames_eq_ok_iff.mpr hnames')
    exact hnodup
  · intro h haccepted
    have hno := h haccepted
    refine ⟨haccepted.described, hno.once, fun arg harg hdep => ?_⟩
    obtain ⟨names, hnames, hknown⟩ := haccepted.dependencies arg harg hdep
    refine ⟨names, hnames, fun name hname => ?_, hno.dependencies arg harg hdep names hnames⟩
    obtain ⟨p, hp, hcode, -⟩ := hknown name hname
    exact ⟨p, hp, hcode⟩

theorem checked_dependency : Checked (str "shortname S") [⟨7, str "A"⟩]
    (argumentPairs [str "shortname", str "B", str "dependencies", str "A"]) := by
  refine (checked_of_call_iff [str "batch"] (str "shortname S") 0 (str "batch") _ (by decide)).mpr (fun _ => ⟨?_, ?_⟩)
    ⟨_, rfl⟩
  · decide
  · intro arg harg hdep names hnames
    obtain rfl | harg := List.mem_cons.mp harg
    · exact absurd hdep (by decide)
    · cases List.mem_singleton.mp harg
      have hsame : dependencyNames (str "A") = .ok [str "A"] := by rfl
      cases (dependencyNames_eq_ok_iff.mpr hnames).symm.trans hsame
      exact List.nodup_singleton _

/-- The second value of an attribute replaces the first one, and nothing is said. -/
theorem not_checked_twice :
    (∃ call, doAddOrReplaceProblem [str "batch"] (str "shortname S") [] 0 (str "batch")
        [str "shortname", str "A", str "shortname", str "B"] = .ok call) ∧
      ¬Checked (str "shortname S") [] (argumentPairs [str "shortname", str "A", str "shortname", str "B"]) :=
  ⟨⟨_, rfl⟩, fun h => absurd h.once (by decide)⟩

end

end Abacus.Description.Arguments
