import Abacus.Client.ProblemManip

/-! # What the walk over a description builds

For each attribute of a description the walk looks up a header and checks its value. It takes the values
that are valid, and a file whose end is past `2 ^ 32`, which is not.
-/

namespace Abacus.Client.Walk

open Library Library.Bytes Misc Client.Block Client.Action Client.ProblemManip Database.Schema Peer.Classes

inductive Entry
  | string (value : Str)
  | int (value : Int)
  | file (file : FileAttrib)
  deriving DecidableEq

def put (msg : ProbMessage) (e : Str × Entry) : ProbMessage :=
  match e.2 with
  | .string value => { msg with strings := msg.strings.insert e.1 value }
  | .int value => { msg with ints := msg.ints.insert e.1 value }
  | .file file => { msg with files := msg.files.insert e.1 file }

section

variable (mb : MessageBlock) (probId : Nat)

def fileRange (desc : Str) : Option (Nat × Nat × Str) :=
  match fileReg desc with
  | none => none
  | some (start, size, name) =>
    match fromStringU32 start, fromStringU32 size with
    | some start, some size => some (start, size, name)
    | _, _ => none

/-- The range lies in the content. An empty one starts at the declared size at the latest. -/
def validRange (start size : Nat) : Bool :=
  if size = 0 then start ≤ toU32 mb.contentSize else start + size ≤ mb.content.length

def fileValue (value : Str) : Option FileAttrib :=
  if value = str "-" then if probId = 0 then none else some { name := [], data := [] }
  else
    match fileRange value with
    | none => none
    | some (start, size, name) =>
      if validRange mb start size then some { name, data := (mb.content.drop start).take size } else none

def entry (value : Str) : Kind → Option Entry
  | .string => some (.string value)
  | .int => (fromStringI32 value).map .int
  | .file => (fileValue mb probId value).map .file
  | .choice values => if value ∈ values then some (.string value) else none

/-- The value describes a file that is not in the content, and the check in 32 bits does not see it. -/
def Overruns (a : Attribute) : Prop :=
  a.kind = .file ∧ ∃ value, mb.headers[a.name]? = some value ∧ value ≠ str "-" ∧ ∃ start size name,
    fileRange value = some (start, size, name) ∧ wrap32 (start + size) ≤ toU32 mb.contentSize ∧ size ≠ 0 ∧
      mb.content.length < start + size

/-- The attribute is there with a valid value, or it may be missing and is. -/
def Fits (a : Attribute) : Prop :=
  match mb.headers[a.name]? with
  | some value => (entry mb probId value a.kind).isSome
  | none => a.optional = true

instance (a : Attribute) : Decidable (Fits mb probId a) :=
  match h : mb.headers[a.name]? with
  | some value => decidable_of_iff ((entry mb probId value a.kind).isSome = true) (by simp [Fits, h])
  | none => decidable_of_iff (a.optional = true) (by simp [Fits, h])

def entries (as : List Attribute) : List (Str × Entry) :=
  as.filterMap fun a => (mb.headers[a.name]?).bind fun value => (entry mb probId value a.kind).map fun e => (a.name, e)

end

section

variable {mb : MessageBlock} {attr desc : Str} {file : FileAttrib} {start size : Nat} {name : Str} {probId : Nat}
  {msg msg' : ProbMessage} {a : Attribute} {value : Str}

inductive FileCase (mb : MessageBlock) (desc : Str) : Outcome FileAttrib → Prop
  | taken {start size : Nat} {name : Str} (range : fileRange desc = some (start, size, name))
      (passed : wrap32 (start + size) ≤ toU32 mb.contentSize) (inside : size = 0 ∨ start + size ≤ mb.content.length) :
      FileCase mb desc (.ok { name, data := (mb.content.drop start).take size })
  | overrun {start size : Nat} {name : Str} (range : fileRange desc = some (start, size, name))
      (passed : wrap32 (start + size) ≤ toU32 mb.contentSize) (size_ne : size ≠ 0)
      (outside : mb.content.length < start + size) : FileCase mb desc (.fault .outOfBounds)
  | beyond {start size : Nat} {name : Str} (range : fileRange desc = some (start, size, name))
      (failed : toU32 mb.contentSize < wrap32 (start + size)) (msg : Str) : FileCase mb desc (.refused msg)
  | mismatch (range : fileRange desc = none) (msg : Str) : FileCase mb desc (.refused msg)
  | tooLarge (range : fileRange desc = none) : FileCase mb desc (.fault .badString)

theorem fileCase (mb : MessageBlock) (attr desc : Str) : FileCase mb desc (fileOf mb attr desc) := by
  cases hreg : fileReg desc with
  | none =>
    have hrange : fileRange desc = none := by simp only [fileRange, hreg]
    simp only [fileOf, hreg]
    exact .mismatch hrange _
  | some parts =>
    obtain ⟨start, size, name⟩ := parts
    cases hstart : fromStringU32 start with
    | none =>
      have hrange : fileRange desc = none := by simp only [fileRange, hreg, hstart]
      simp only [fileOf, hreg, hstart]
      exact .tooLarge hrange
    | some first =>
      cases hsize : fromStringU32 size with
      | none =>
        have hrange : fileRange desc = none := by simp only [fileRange, hreg, hstart, hsize]
        simp only [fileOf, hreg, hstart, hsize]
        exact .tooLarge hrange
      | some count =>
        have hrange : fileRange desc = some (first, count, name) := by simp only [fileRange, hreg, hstart, hsize]
        simp only [fileOf, hreg, hstart, hsize]
        split
        · next hbeyond => exact .beyond hrange hbeyond _
        · next hpassed =>
          unfold slice
          split
          · next hinside => exact .taken hrange (Nat.not_lt.mp hpassed) hinside
          · next houtside =>
            rw [not_or, Nat.not_le] at houtside
            exact .overrun hrange (Nat.not_lt.mp hpassed) houtside.1 houtside.2

theorem fileRange_lt (h : fileRange desc = some (start, size, name)) : start < 4294967296 ∧ size < 4294967296 := by
  unfold fileRange at h
  split at h
  · cases h
  · split at h
    · next hstart hsize =>
      cases h
      exact ⟨fromStringU32_lt hstart, fromStringU32_lt hsize⟩
    · cases h

theorem toU32_contentSize (hsize : mb.contentSize ≤ 2147483647) (hpos : 0 < mb.content.length) :
    toU32 mb.contentSize = mb.content.length := by
  have hcontent := mb.contentMatches
  unfold toU32
  omega

theorem validRange_of_taken (hlt : start < 4294967296) (hpassed : wrap32 (start + size) ≤ toU32 mb.contentSize)
    (hinside : size = 0 ∨ start + size ≤ mb.content.length) : validRange mb start size = true := by
  unfold validRange
  split
  · next hzero =>
    rw [hzero, Nat.add_zero, wrap32_of_le le_rfl hlt] at hpassed
    exact decide_eq_true hpassed
  · next hne => exact decide_eq_true (hinside.resolve_left hne)

theorem inside_of_validRange (hcontent : mb.contentSize ≤ 2147483647) (hlt : start < 4294967296)
    (h : validRange mb start size = true) :
    wrap32 (start + size) ≤ toU32 mb.contentSize ∧ (size = 0 ∨ start + size ≤ mb.content.length) := by
  unfold validRange at h
  split at h
  · next hzero =>
    rw [hzero, Nat.add_zero, wrap32_of_le le_rfl hlt]
    exact ⟨of_decide_eq_true h, .inl rfl⟩
  · next hne =>
    have hinside : start + size ≤ mb.content.length := of_decide_eq_true h
    have hdeclared : toU32 mb.contentSize = mb.content.length := toU32_contentSize hcontent (by omega)
    have hword : toU32 mb.contentSize < 4294967296 := toU32_lt _
    rw [wrap32_of_le hinside (by omega), hdeclared]
    exact ⟨hinside, .inr hinside⟩

theorem fileOf_eq_ok_iff (hcontent : mb.contentSize ≤ 2147483647) :
    fileOf mb attr desc = .ok file ↔ ∃ start size name, fileRange desc = some (start, size, name) ∧
      validRange mb start size = true ∧ file = { name, data := (mb.content.drop start).take size } := by
  have hcase := fileCase mb attr desc
  constructor
  · intro hok
    rw [hok] at hcase
    cases hcase with
    | taken hrange hpassed hinside =>
      exact ⟨_, _, _, hrange, validRange_of_taken (fileRange_lt hrange).1 hpassed hinside, rfl⟩
  · rintro ⟨start, size, name, hrange, hvalid, rfl⟩
    obtain ⟨hpassed, hinside⟩ := inside_of_validRange hcontent (fileRange_lt hrange).1 hvalid
    generalize hres : fileOf mb attr desc = res at hcase
    cases hcase with
    | taken hrange' =>
      cases hrange.symm.trans hrange'
      rfl
    | overrun hrange' _ hne houtside =>
      cases hrange.symm.trans hrange'
      exact absurd (hinside.resolve_left hne) (Nat.not_le.mpr houtside)
    | beyond hrange' hfailed =>
      cases hrange.symm.trans hrange'
      exact absurd hpassed (Nat.not_le.mpr hfailed)
    | mismatch hnone | tooLarge hnone => cases hrange.symm.trans hnone

theorem fileOf_eq_fault_iff : fileOf mb attr desc = .fault .outOfBounds ↔ ∃ start size name,
    fileRange desc = some (start, size, name) ∧ wrap32 (start + size) ≤ toU32 mb.contentSize ∧ size ≠ 0 ∧
      mb.content.length < start + size := by
  have hcase := fileCase mb attr desc
  constructor
  · intro hfault
    rw [hfault] at hcase
    cases hcase with
    | overrun hrange hpassed hne houtside => exact ⟨_, _, _, hrange, hpassed, hne, houtside⟩
  · rintro ⟨start, size, name, hrange, hpassed, hne, houtside⟩
    generalize hres : fileOf mb attr desc = res at hcase
    cases hcase with
    | taken hrange' _ hinside =>
      cases hrange.symm.trans hrange'
      exact absurd (hinside.resolve_left hne) (Nat.not_le.mpr houtside)
    | overrun => rfl
    | beyond hrange' hfailed =>
      cases hrange.symm.trans hrange'
      exact absurd hpassed (Nat.not_le.mpr hfailed)
    | mismatch hnone | tooLarge hnone => cases hrange.symm.trans hnone

theorem entry_eq_file_iff {kind : Kind} {file : FileAttrib} :
    entry mb probId value kind = some (.file file) ↔ kind = .file ∧ fileValue mb probId value = some file := by
  cases kind <;> simp [entry]

theorem fileRange_of_fileValue {file : FileAttrib} (h : fileValue mb probId value = some file)
    (hname : file.name ≠ []) : ∃ start size name, fileRange value = some (start, size, name) ∧
      file = { name, data := (mb.content.drop start).take size } := by
  unfold fileValue at h
  split at h
  · split at h
    · cases h
    · cases h
      exact absurd rfl hname
  · split at h
    · cases h
    · next start size name hrange =>
      rw [Option.ite_none_right_eq_some] at h
      obtain ⟨-, ⟨⟩⟩ := h
      exact ⟨start, size, name, hrange, rfl⟩

theorem setFile_eq_ok_iff (hcontent : mb.contentSize ≤ 2147483647) {attr : Str} :
    setFile mb probId msg attr value = .ok msg' ↔
      ∃ file, fileValue mb probId value = some file ∧ msg' = put msg (attr, .file file) := by
  unfold setFile fileValue
  split
  · split
    · simp
    · simp [put, eq_comm]
  · simp only [Outcome.bind_eq_ok, fileOf_eq_ok_iff hcontent, Outcome.ok.injEq]
    cases fileRange value with
    | none => simp
    | some range =>
      obtain ⟨start, size, name⟩ := range
      simp only [Option.some.injEq, Option.ite_none_right_eq_some]
      constructor
      · rintro ⟨file, ⟨_, _, _, ⟨⟩, hvalid, rfl⟩, rfl⟩
        exact ⟨_, ⟨hvalid, rfl⟩, rfl⟩
      · rintro ⟨file, ⟨hvalid, rfl⟩, rfl⟩
        exact ⟨_, ⟨start, size, name, rfl, hvalid, rfl⟩, rfl⟩

theorem setValue_eq_ok_iff (hcontent : mb.contentSize ≤ 2147483647) :
    setValue mb probId msg a value = .ok msg' ↔
      ∃ e, entry mb probId value a.kind = some e ∧ msg' = put msg (a.name, e) := by
  unfold setValue
  cases a.kind with
  | string => simp [entry, put, eq_comm]
  | int =>
    simp only [entry]
    cases fromStringI32 value with
    | none => simp
    | some z => simp [put, eq_comm]
  | file =>
    simp only [entry]
    rw [setFile_eq_ok_iff hcontent]
    cases fileValue mb probId value with
    | none | some file => simp
  | choice values =>
    simp only [entry]
    split
    · simp [put, eq_comm]
    · simp

theorem setValue_eq_fault_iff (hvalue : mb.headers[a.name]? = some value) :
    setValue mb probId msg a value = .fault .outOfBounds ↔ Overruns mb a := by
  have hiff : Overruns mb a ↔ a.kind = .file ∧ value ≠ str "-" ∧ fileOf mb a.name value = .fault .outOfBounds := by
    rw [fileOf_eq_fault_iff, Overruns]
    simp [hvalue]
  rw [hiff]
  unfold setValue
  cases a.kind with
  | string => simp
  | int =>
    simp only
    split <;> simp
  | file =>
    simp only [setFile]
    split
    · next hkeep =>
      split <;> simp [hkeep]
    · next hkeep =>
      cases hfile : fileOf mb a.name value with
      | ok file | refused text => simp [Outcome.bind]
      | fault f => simp [Outcome.bind, hkeep]
  | choice values =>
    simp only
    split <;> simp

theorem setAttribute_eq_ok_iff (hcontent : mb.contentSize ≤ 2147483647) :
    setAttribute mb probId msg a = .ok msg' ↔ Fits mb probId a ∧ msg' = (entries mb probId [a]).foldl put msg := by
  unfold setAttribute Fits entries
  cases hvalue : mb.headers[a.name]? with
  | none =>
    by_cases hoptional : a.optional = true
    · simp [hvalue, hoptional, eq_comm]
    · simp [hoptional]
  | some value =>
    simp only [setValue_eq_ok_iff hcontent]
    cases hentry : entry mb probId value a.kind with
    | none => simp
    | some e => simp [hvalue, hentry]

theorem setAttribute_eq_fault_iff : setAttribute mb probId msg a = .fault .outOfBounds ↔ Overruns mb a := by
  unfold setAttribute
  cases hvalue : mb.headers[a.name]? with
  | none =>
    apply iff_of_false
    · simp only
      split <;> simp
    · rintro ⟨-, value, hsome, -⟩
      rw [hvalue] at hsome
      cases hsome
  | some value => exact setValue_eq_fault_iff hvalue

theorem entries_cons (as : List Attribute) :
    entries mb probId (a :: as) = entries mb probId [a] ++ entries mb probId as := by
  rw [entries, ← List.singleton_append, List.filterMap_append]
  rfl

/-- The walk takes a request exactly if all its attributes fit, and it puts in what was found. -/
theorem setAttributes_eq_ok_iff (hcontent : mb.contentSize ≤ 2147483647) (as : List Attribute) :
    setAttributes mb probId as msg = .ok msg' ↔
      (∀ a ∈ as, Fits mb probId a) ∧ msg' = (entries mb probId as).foldl put msg := by
  induction as generalizing msg with
  | nil => simp [setAttributes, entries, eq_comm]
  | cons a as ih =>
    rw [setAttributes, Outcome.bind_eq_ok, List.forall_mem_cons, entries_cons, List.foldl_append]
    constructor
    · rintro ⟨next, hnext, hrest⟩
      obtain ⟨hfits, rfl⟩ := (setAttribute_eq_ok_iff hcontent).mp hnext
      obtain ⟨hall, rfl⟩ := ih.mp hrest
      exact ⟨⟨hfits, hall⟩, rfl⟩
    · rintro ⟨⟨hfits, hall⟩, rfl⟩
      exact ⟨_, (setAttribute_eq_ok_iff hcontent).mpr ⟨hfits, rfl⟩, ih.mpr ⟨hall, rfl⟩⟩

/-- It reads outside of the content exactly if the first attribute that does not fit overruns it. -/
theorem setAttributes_eq_fault_iff (hcontent : mb.contentSize ≤ 2147483647) (as : List Attribute) :
    setAttributes mb probId as msg = .fault .outOfBounds ↔
      ∃ before a after, as = before ++ a :: after ∧ (∀ b ∈ before, Fits mb probId b) ∧ Overruns mb a := by
  induction as generalizing msg with
  | nil => simp [setAttributes]
  | cons a as ih =>
    rw [setAttributes, Outcome.bind_eq_fault]
    constructor
    · rintro (hfault | ⟨next, hnext, hrest⟩)
      · exact ⟨[], a, as, rfl, List.forall_mem_nil _, setAttribute_eq_fault_iff.mp hfault⟩
      · obtain ⟨before, b, after, rfl, hbefore, hb⟩ := ih.mp hrest
        have hfits : Fits mb probId a := ((setAttribute_eq_ok_iff hcontent).mp hnext).1
        exact ⟨a :: before, b, after, rfl, List.forall_mem_cons.mpr ⟨hfits, hbefore⟩, hb⟩
    · rintro ⟨before, b, after, heq, hbefore, hb⟩
      cases before with
      | nil =>
        cases heq
        exact .inl (setAttribute_eq_fault_iff.mpr hb)
      | cons x before =>
        cases heq
        obtain ⟨hfits, hbefore⟩ := List.forall_mem_cons.mp hbefore
        exact .inr ⟨_, (setAttribute_eq_ok_iff hcontent).mpr ⟨hfits, rfl⟩, ih.mpr ⟨before, b, after, rfl, hbefore, hb⟩⟩

end

section

def Holds (msg : ProbMessage) (name : Str) : Entry → Prop
  | .string value => msg.strings[name]? = some value
  | .int value => msg.ints[name]? = some value
  | .file file => msg.files[name]? = some file

def Vacant (msg : ProbMessage) (name : Str) : Prop := ∀ e, ¬ Holds msg name e

variable {mb : MessageBlock} {probId : Nat} {msg : ProbMessage} {name other : Str} {e x : Entry}

theorem holds_put_of_ne (hne : other ≠ name) : Holds (put msg (other, x)) name e ↔ Holds msg name e := by
  cases x <;> cases e <;> simp [Holds, put, Std.ExtTreeMap.getElem?_insert, hne]

theorem holds_put_self (hvacant : Vacant msg name) : Holds (put msg (name, x)) name e ↔ e = x := by
  have hold := hvacant e
  cases x <;> cases e <;> simp [Holds, put] at hold ⊢ <;> first | exact hold | exact eq_comm

theorem holds_put (hvacant : Vacant msg other) :
    Holds (put msg (other, x)) name e ↔ (name, e) = (other, x) ∨ Holds msg name e := by
  by_cases heq : other = name
  · subst heq
    rw [holds_put_self hvacant]
    have hnot := hvacant e
    simp [hnot]
  · rw [holds_put_of_ne heq]
    simp [Ne.symm heq]

theorem of_holds_put (h : Holds (put msg (other, x)) name e) : (name, e) = (other, x) ∨ Holds msg name e := by
  by_cases heq : other = name
  · subst heq
    cases x <;> cases e <;> simp_all [Holds, put]
  · exact .inr ((holds_put_of_ne heq).mp h)

theorem of_holds_foldl_put (es : List (Str × Entry)) (h : Holds (es.foldl put msg) name e) :
    (name, e) ∈ es ∨ Holds msg name e := by
  induction es generalizing msg with
  | nil => exact .inr h
  | cons head es ih =>
    obtain hmem | hput := ih h
    · exact .inl (List.mem_cons_of_mem _ hmem)
    · obtain heq | hold := of_holds_put hput
      · exact .inl (List.mem_cons.mpr (.inl heq))
      · exact .inr hold

theorem holds_foldl_put (es : List (Str × Entry)) (hnames : (es.map Prod.fst).Nodup)
    (hvacant : ∀ n ∈ es.map Prod.fst, Vacant msg n) :
    Holds (es.foldl put msg) name e ↔ (name, e) ∈ es ∨ Holds msg name e := by
  induction es generalizing msg with
  | nil => simp
  | cons head es ih =>
    obtain ⟨n, x⟩ := head
    rw [List.map_cons, List.nodup_cons] at hnames
    rw [List.map_cons, List.forall_mem_cons] at hvacant
    have hnext : ∀ m ∈ es.map Prod.fst, Vacant (put msg (n, x)) m := by
      intro m hm e' hholds
      have hne : n ≠ m := fun heq => hnames.1 (heq ▸ hm)
      exact hvacant.2 m hm e' ((holds_put_of_ne hne).mp hholds)
    rw [List.foldl_cons, ih hnames.2 hnext, holds_put hvacant.1, List.mem_cons]
    tauto

theorem map_fst_entries (as : List Attribute) :
    ((entries mb probId as).map Prod.fst).Sublist (as.map Attribute.name) := by
  induction as with
  | nil => exact .slnil
  | cons a as ih =>
    have hone : ((entries mb probId [a]).map Prod.fst).Sublist [a.name] := by
      cases hvalue : mb.headers[a.name]? with
      | none => simp [entries, hvalue]
      | some value =>
        cases hentry : entry mb probId value a.kind with
        | none | some e => simp [entries, hvalue, hentry]
    rw [entries_cons, List.map_append]
    exact hone.append ih

theorem mem_entries {as : List Attribute} : (name, e) ∈ entries mb probId as ↔
    ∃ a ∈ as, ∃ value, a.name = name ∧ mb.headers[name]? = some value ∧ entry mb probId value a.kind = some e := by
  simp only [entries, List.mem_filterMap, Option.bind_eq_some_iff, Option.map_eq_some_iff, Prod.mk.injEq]
  constructor
  · rintro ⟨a, ha, value, hvalue, e', he', rfl, rfl⟩
    exact ⟨a, ha, value, rfl, hvalue, he'⟩
  · rintro ⟨a, ha, value, rfl, hvalue, he⟩
    exact ⟨a, ha, value, hvalue, e, he, rfl, rfl⟩

theorem foldl_put_header (msg : ProbMessage) (es : List (Str × Entry)) : (es.foldl put msg).probId = msg.probId ∧
    (es.foldl put msg).updateTime = msg.updateTime ∧ (es.foldl put msg).type = msg.type ∧
      (es.foldl put msg).deps = msg.deps := by
  induction es generalizing msg with
  | nil => exact ⟨rfl, rfl, rfl, rfl⟩
  | cons head es ih =>
    obtain ⟨n, x⟩ := head
    rw [List.foldl_cons]
    cases x <;> exact ih _

end

section

variable (s : Server) (mb : MessageBlock) (db : Db)

def probIdOf : Nat := toU32 (strtol (mb.get (str "prob_id")))

def typeOf : Str := problemType mb (probIdOf mb) db.contest

def numberOf : Nat := if probIdOf mb = 0 then nextIdOf s db .problem else probIdOf mb

def leavesOf (type : Str) : List Attribute × Ending :=
  attributes ((getProblemDescription type).length + 1) [] (getProblemDescription type)

def outcome : Outcome ProbMessage :=
  walk mb (probIdOf mb) (getProblemDescription (typeOf mb db)) (newMessage s mb (numberOf s mb db) (typeOf mb db))

def ended : Ending → ProbMessage → Outcome ProbMessage
  | .done, msg => .ok msg
  | .malformed, _ => .refused (str "Internal Server Error")
  | .broken, _ => .fault .outOfBounds

theorem ended_eq_ok_iff {ending : Ending} {msg msg' : ProbMessage} :
    ended ending msg = .ok msg' ↔ ending = .done ∧ msg = msg' := by
  cases ending <;> simp [ended]

theorem walk_eq (probId : Nat) (desc : Str) (msg : ProbMessage) : walk mb probId desc msg =
    (setAttributes mb probId (attributes (desc.length + 1) [] desc).1 msg).bind
      (ended (attributes (desc.length + 1) [] desc).2) := by
  unfold walk
  obtain ⟨as, ending⟩ := attributes (desc.length + 1) [] desc
  cases ending <;> rfl

def answer {α : Type} (message : α → Message) : Outcome α → Except ClientFault Answer
  | .ok a => .ok (.message (message a) .ok)
  | .refused msg => .ok (.error msg)
  | .fault f => .error f

theorem answer_eq_message {α : Type} {message : α → Message} {x : Outcome α} {m : Message} {reply : MessageBlock}
    (h : answer message x = .ok (.message m reply)) : ∃ a, x = .ok a ∧ m = message a := by
  cases x with
  | ok a =>
    cases h
    exact ⟨a, rfl, rfl⟩
  | refused msg | fault f => cases h

theorem result_problemNumber_bind {β : Type} (f : Nat → ClientProg β) :
    Prog.result (problemNumber s (probIdOf mb) >>= f) db = Prog.result (f (numberOf s mb db)) db := by
  have hreads : Prog.Reads (fun _ => True) (problemNumber s (probIdOf mb)) := reads_problemNumber _
  have hnumber : Prog.result (problemNumber s (probIdOf mb)) db = .ok (numberOf s mb db) := by
    unfold problemNumber numberOf
    split
    · exact result_nextId .problem
    · rfl
  rw [Prog.result_bind, hnumber, hreads.final_eq]

theorem result_actSetProbAttrs : Prog.result (actSetProbAttrs s mb) db =
    if typeOf mb db = [] then .ok (.error (str "You must specify prob_type for new problems"))
    else if getProblemDescription (typeOf mb db) = [] then
      .ok (.error (str "Invalid prob_type or internal server error"))
    else answer .prob (outcome s mb db) := by
  change Prog.result (if typeOf mb db = [] then _ else _) db = _
  split
  · rfl
  · change Prog.result (if getProblemDescription (typeOf mb db) = [] then _ else _) db = _
    split
    · rfl
    · change Prog.result (problemNumber s (probIdOf mb) >>= _) db = _
      rw [result_problemNumber_bind]
      generalize hwalk : outcome s mb db = result
      unfold outcome typeOf probIdOf at hwalk
      dsimp only
      rw [hwalk]
      cases result with
      | ok msg | refused msg | fault f => rfl

end

def request (action : String) (headers : List (String × String)) : MessageBlock :=
  (headers.foldl (fun (mb : MessageBlock) h => mb.set (str h.1) (str h.2)) (.ofAction (str action))).setContent
    (str "x")

end Abacus.Client.Walk
