import Abacus.Client.Totality
import Abacus.Client.Walk

/-! # The ranges that uploads are copied from

A file in a request is a range of its content. `setprobattrs` compares its end with the size of the
content in 32 bits, and `mark` compares nothing, so a request that passes all checks may read
outside of the content.
-/

namespace Abacus.Client.Slices

open Library Library.Bytes Misc Client.Block Client.Permissions Client.Action Client.ProblemManip Client.Marking
open Client.Walk
open Database.Schema Peer.Classes

structure Range where
  start : Nat
  size : Nat
  deriving DecidableEq

def Range.Inside (content : Str) (r : Range) : Prop := ∀ i, r.start ≤ i → i < r.start + r.size → i < content.length

variable {r : Range} {content : Str}

theorem Range.inside_iff :
    r.Inside content ↔ r.size = 0 ∨ r.start + r.size ≤ content.length := by
  constructor
  · intro h
    by_cases hzero : r.size = 0
    · exact .inl hzero
    · have hlast := h (r.start + r.size - 1) (by omega) (by omega)
      exact .inr (by omega)
  · intro h i hstart hend
    omega

/-- What a handler does with the ranges of a request. A copy that leaves the content is undefined. -/
inductive Copied (content : Str) {α : Type} (passes : Prop) (ranges : List Range) : Outcome α → Prop
  | built (hpasses : passes) (inside : ∀ r ∈ ranges, r.Inside content) (a : α) : Copied content passes ranges (.ok a)
  | overrun (hpasses : passes) (outside : ¬ ∀ r ∈ ranges, r.Inside content) :
      Copied content passes ranges (.fault .outOfBounds)
  | stopped {out : Outcome α} (hfails : ¬ passes) (h : ∀ a, out ≠ .ok a) : Copied content passes ranges out

section

variable {content : Str} {α β : Type} {passes passes' : Prop} {ranges ranges' : List Range}
  {x : Outcome α} {f : α → Outcome β}

theorem copied_pure (a : α) : Copied content True [] (.ok a) := .built trivial (List.forall_mem_nil _) a

theorem Copied.bind (hx : Copied content passes ranges x)
    (hf : ∀ a, x = .ok a → Copied content passes' ranges' (f a)) :
    Copied content (passes ∧ passes') (ranges ++ ranges') (x.bind f) := by
  cases hx with
  | built hpasses hinside a =>
    have hnext := hf a rfl
    simp only [Outcome.bind]
    generalize f a = out at hnext
    cases hnext with
    | built hpasses' hinside' b => exact .built ⟨hpasses, hpasses'⟩ (List.forall_mem_append.mpr ⟨hinside, hinside'⟩) b
    | overrun hpasses' houtside =>
      exact .overrun ⟨hpasses, hpasses'⟩ fun hall => houtside (List.forall_mem_append.mp hall).2
    | stopped hfails hstop => exact .stopped (fun h => hfails h.2) hstop
  | overrun hpasses houtside =>
    by_cases hpasses' : passes'
    · exact .overrun ⟨hpasses, hpasses'⟩ fun hall => houtside (List.forall_mem_append.mp hall).1
    · exact .stopped (fun h => hpasses' h.2) (by simp [Outcome.bind])
  | stopped hfails hstop =>
    apply Copied.stopped fun h => hfails h.1
    intro b hb
    obtain ⟨a, ha, -⟩ := Outcome.bind_eq_ok.mp hb
    exact hstop a ha

theorem Copied.map {g : α → β} (hx : Copied content passes ranges x) :
    Copied content passes ranges (x.bind fun a => .ok (g a)) := by
  have h := hx.bind (f := fun a => .ok (g a)) fun a _ => copied_pure (g a)
  rwa [and_true, List.append_nil] at h

theorem copied_slice (mb : MessageBlock) (start size : Nat) :
    Copied mb.content True [⟨start, size⟩] (slice mb start size) := by
  unfold slice
  split
  · next h => exact .built trivial (List.forall_mem_singleton.mpr (Range.inside_iff.mpr h)) _
  · next h => exact .overrun trivial fun hall => h (Range.inside_iff.mp (List.forall_mem_singleton.mp hall))

end

section

variable (mb : MessageBlock) (probId : Nat)

def valueRange (value : Str) : Option Range := (fileRange value).map fun (start, size, _) => { start, size }

def attributeRange (a : Attribute) : Option Range :=
  if a.kind = .file then (mb.headers[a.name]?).bind valueRange else none

/-- The end of the range is taken in 32 bits. -/
def filePasses (value : Str) : Bool :=
  if value = str "-" then probId ≠ 0
  else
    match valueRange value with
    | none => false
    | some r => wrap32 (r.start + r.size) ≤ toU32 mb.contentSize

def attributePasses (a : Attribute) : Bool :=
  match mb.headers[a.name]? with
  | none => a.optional
  | some value =>
    match a.kind with
    | .string => true
    | .int => (fromStringI32 value).isSome
    | .file => filePasses mb probId value
    | .choice values => value ∈ values

variable {mb : MessageBlock} {probId : Nat}

theorem copied_fileOf (attr value : Str) (hvalue : value ≠ str "-") :
    Copied mb.content (filePasses mb probId value = true) (valueRange value).toList (fileOf mb attr value) := by
  have hcase := fileCase mb attr value
  generalize fileOf mb attr value = out at hcase
  cases hcase with
  | @taken start size name hrange hpassed hinside =>
    have hvalued : valueRange value = some ⟨start, size⟩ := by rw [valueRange, hrange, Option.map_some]
    rw [hvalued]
    apply Copied.built
    · simpa [filePasses, hvalue, hvalued] using hpassed
    · exact List.forall_mem_singleton.mpr (Range.inside_iff.mpr hinside)
  | @overrun start size name hrange hpassed hne houtside =>
    have hvalued : valueRange value = some ⟨start, size⟩ := by rw [valueRange, hrange, Option.map_some]
    rw [hvalued]
    apply Copied.overrun
    · simpa [filePasses, hvalue, hvalued] using hpassed
    · intro hall
      have hinside := Range.inside_iff.mp (List.forall_mem_singleton.mp hall)
      exact Nat.not_le.mpr houtside (hinside.resolve_left hne)
  | @beyond start size name hrange hfailed =>
    have hvalued : valueRange value = some ⟨start, size⟩ := by rw [valueRange, hrange, Option.map_some]
    apply Copied.stopped _ nofun
    simpa [filePasses, hvalue, hvalued] using hfailed
  | mismatch hnone | tooLarge hnone => exact .stopped (by simp [filePasses, hvalue, valueRange, hnone]) nofun

theorem valueRange_keep : valueRange (str "-") = none := by decide +kernel

theorem copied_setFile (msg : ProbMessage) (attr value : Str) :
    Copied mb.content (filePasses mb probId value = true) (valueRange value).toList
      (setFile mb probId msg attr value) := by
  unfold setFile
  split
  · next hkeep =>
    subst hkeep
    rw [valueRange_keep]
    split
    · next hnew => exact .stopped (by simp [filePasses, hnew]) nofun
    · next hknown => exact .built (by simp [filePasses, hknown]) (List.forall_mem_nil _) _
  · next hvalue => exact (copied_fileOf attr value hvalue).map

theorem copied_check {α : Type} {passes : Prop} {out : Outcome α} (hok : passes → ∃ a, out = .ok a)
    (hstop : ¬ passes → ∀ a, out ≠ .ok a) : Copied content passes [] out := by
  by_cases hpasses : passes
  · obtain ⟨a, rfl⟩ := hok hpasses
    exact .built hpasses (List.forall_mem_nil _) a
  · exact .stopped hpasses (hstop hpasses)

theorem copied_setAttribute (msg : ProbMessage) (a : Attribute) :
    Copied mb.content (attributePasses mb probId a = true) (attributeRange mb a).toList
      (setAttribute mb probId msg a) := by
  unfold setAttribute attributePasses attributeRange
  cases mb.headers[a.name]? with
  | none =>
    simp only [Option.bind_none, ite_self, Option.toList_none]
    apply copied_check
    · intro hoptional
      exact ⟨msg, if_pos hoptional⟩
    · intro hneeded
      simp [hneeded]
  | some value =>
    simp only [Option.bind_some, setValue]
    cases a.kind with
    | string => exact .built rfl (List.forall_mem_nil _) _
    | int =>
      apply copied_check
      · intro hsome
        obtain ⟨z, hz⟩ := Option.isSome_iff_exists.mp hsome
        exact ⟨_, by rw [hz]⟩
      · intro hnone
        rw [Option.not_isSome_iff_eq_none] at hnone
        simp [hnone]
    | file => exact copied_setFile msg a.name value
    | choice values =>
      apply copied_check
      · intro hmem
        exact ⟨_, if_pos (of_decide_eq_true hmem)⟩
      · intro hmem
        simp [of_decide_eq_false (Bool.not_eq_true _ ▸ hmem)]

theorem wrap32_le_of_attributePasses {a : Attribute} (hpasses : attributePasses mb probId a = true)
    (hrange : attributeRange mb a = some r) : wrap32 (r.start + r.size) ≤ toU32 mb.contentSize := by
  rw [attributeRange, Option.ite_none_right_eq_some, Option.bind_eq_some_iff] at hrange
  obtain ⟨hkind, value, hvalue, hrange⟩ := hrange
  have hkeep : value ≠ str "-" := by
    rintro rfl
    rw [valueRange_keep] at hrange
    cases hrange
  simpa [attributePasses, hvalue, hkind, filePasses, hkeep, hrange] using hpasses

theorem copied_setAttributes (as : List Attribute) (msg : ProbMessage) :
    Copied mb.content (∀ a ∈ as, attributePasses mb probId a = true) (as.filterMap (attributeRange mb))
      (setAttributes mb probId as msg) := by
  induction as generalizing msg with
  | nil => exact .built (List.forall_mem_nil _) (List.forall_mem_nil _) msg
  | cons a as ih =>
    have hranges : (a :: as).filterMap (attributeRange mb) =
        (attributeRange mb a).toList ++ as.filterMap (attributeRange mb) := by
      simp only [List.filterMap_eq_flatMap_toList, List.flatMap_cons]
    have hfirst : Copied mb.content (attributePasses mb probId a = true) (attributeRange mb a).toList
        (setAttribute mb probId msg a) := copied_setAttribute msg a
    rw [List.forall_mem_cons, setAttributes, hranges]
    exact hfirst.bind fun next _ => ih next

end

section

variable (mb : MessageBlock)

def markRange (desc : Str) : Option Range :=
  (markFileReg desc).bind fun (start, size, _) =>
    (fromStringU32 start).bind fun start => (fromStringU32 size).map fun size => { start, size }

/-- A description that does not match is passed over; one that does has two numbers. -/
def markFilePasses (desc : Str) : Bool := (markFileReg desc).isNone || (markRange desc).isSome

variable {mb : MessageBlock}

theorem copied_fileOfMark (desc : Str) :
    Copied mb.content (markFilePasses desc = true) (markRange desc).toList (fileOfMark mb desc) := by
  unfold markFilePasses markRange fileOfMark
  cases markFileReg desc with
  | none => exact .built rfl (List.forall_mem_nil _) _
  | some parts =>
    obtain ⟨start, size, name⟩ := parts
    cases hstart : fromStringU32 start with
    | none => exact .stopped (by simp [hstart]) (by simp [hstart])
    | some first =>
      cases hsize : fromStringU32 size with
      | none => exact .stopped (by simp [hstart, hsize]) (by simp [hstart, hsize])
      | some count =>
        simpa [hstart, hsize] using (copied_slice mb first count).map

theorem copied_filesOf (descs : List Str) : Copied mb.content (∀ d ∈ descs, markFilePasses d = true)
    (descs.filterMap markRange) (filesOf mb descs) := by
  induction descs with
  | nil => exact .built (List.forall_mem_nil _) (List.forall_mem_nil _) []
  | cons desc descs ih =>
    have hranges : (desc :: descs).filterMap markRange = (markRange desc).toList ++ descs.filterMap markRange := by
      simp only [List.filterMap_eq_flatMap_toList, List.flatMap_cons]
    rw [List.forall_mem_cons, filesOf, hranges]
    exact (copied_fileOfMark desc).bind fun file _ => ih.map

end

section

inductive Upload
  | setProbAttrs
  | mark

variable (s : Server) (cc : Connection) (mb : MessageBlock) (db : Db)

def Upload.handler : Upload → ClientProg Answer
  | .setProbAttrs => actSetProbAttrs s mb
  | .mark => actPlaceMark s cc mb

def Upload.ranges : Upload → List Range
  | .setProbAttrs => (leavesOf (typeOf mb db)).1.filterMap (attributeRange mb)
  | .mark => (fileDescs mb).filterMap markRange

structure WalkPasses : Prop where
  type_ne : typeOf mb db ≠ []
  desc_ne : getProblemDescription (typeOf mb db) ≠ []
  attributes : ∀ a ∈ (leavesOf (typeOf mb db)).1, attributePasses mb (probIdOf mb) a = true
  done : (leavesOf (typeOf mb db)).2 = .done

structure MarkPasses : Prop where
  submission : ∃ submissionId, fromStringU32 (mb.get (str "submission_id")) = some submissionId ∧
    markRefusal s cc db.contest submissionId = none
  result : (fromStringU32 (mb.get (str "result"))).isSome = true
  files : ∀ d ∈ fileDescs mb, markFilePasses d = true

def Upload.Leads : Upload → Prop
  | .setProbAttrs => WalkPasses mb db
  | .mark => MarkPasses s cc mb db

inductive Answered (content : Str) (leads : Prop) (ranges : List Range) : Except ClientFault Answer → Prop
  | message (hleads : leads) (inside : ∀ r ∈ ranges, r.Inside content) (m : Message) (reply : MessageBlock) :
      Answered content leads ranges (.ok (.message m reply))
  | overrun (hleads : leads) (outside : ¬ ∀ r ∈ ranges, r.Inside content) :
      Answered content leads ranges (.error .outOfBounds)
  | stopped {res : Except ClientFault Answer} (hfails : ¬ leads) (h : ∀ m reply, res ≠ .ok (.message m reply)) :
      Answered content leads ranges res

variable {s : Server} {cc : Connection} {mb : MessageBlock} {db : Db}

theorem copied_outcome : Copied mb.content
    ((∀ a ∈ (leavesOf (typeOf mb db)).1, attributePasses mb (probIdOf mb) a = true) ∧
      (leavesOf (typeOf mb db)).2 = .done)
    (Upload.setProbAttrs.ranges mb db) (outcome s mb db) := by
  rw [Upload.ranges, outcome, walk_eq, ← List.append_nil (List.filterMap _ _)]
  apply (copied_setAttributes _ _).bind
  intro msg _
  apply copied_check
  · intro hdone
    exact ⟨msg, ended_eq_ok_iff.mpr ⟨hdone, rfl⟩⟩
  · intro hending msg' hok
    exact hending (ended_eq_ok_iff.mp hok).1

variable {ranges : List Range}

theorem answered_error {leads : Prop} (msg : Str) (hfails : ¬ leads) :
    Answered content leads ranges (.ok (.error msg)) := .stopped hfails nofun

theorem Copied.answered {α : Type} {passes : Prop} {x : Outcome α}
    (h : Copied content passes ranges x) (message : α → Message) :
    Answered content passes ranges (answer message x) := by
  cases h with
  | built hpasses hinside a => exact .message hpasses hinside _ _
  | overrun hpasses houtside => exact .overrun hpasses houtside
  | stopped hfails hstop =>
    cases x with
    | ok a => exact absurd rfl (hstop a)
    | refused msg => exact answered_error msg hfails
    | fault f => exact .stopped hfails nofun

theorem Answered.congr {leads leads' : Prop} {res : Except ClientFault Answer}
    (h : Answered content leads ranges res) (hiff : leads ↔ leads') : Answered content leads' ranges res :=
  propext hiff ▸ h

theorem answered_setProbAttrs : Answered mb.content (WalkPasses mb db) (Upload.setProbAttrs.ranges mb db)
    (Prog.result (actSetProbAttrs s mb) db) := by
  rw [result_actSetProbAttrs]
  split
  · next htype => exact answered_error _ fun h => h.type_ne htype
  · next htype =>
    split
    · next hdesc => exact answered_error _ fun h => h.desc_ne hdesc
    · next hdesc =>
      apply (copied_outcome.answered Message.prob).congr
      exact ⟨fun h => ⟨htype, hdesc, h.1, h.2⟩, fun h => ⟨h.attributes, h.done⟩⟩

def markMessage (s : Server) (cc : Connection) (mb : MessageBlock) (db : Db) (submissionId result : Nat)
    (files : List MarkFile) : Message :=
  .mark { submissionId, marker := cc.userId, result, time := time32 s, serverId := getId s db.peer,
          comment := mb.get (str "comment"), files }

theorem result_actPlaceMark : Prog.result (actPlaceMark s cc mb) db =
    match fromStringU32 (mb.get (str "submission_id")) with
    | none => .ok (.error (str "Invalid submission_id"))
    | some submissionId =>
      match markRefusal s cc db.contest submissionId with
      | some msg => .ok (.error msg)
      | none =>
        match fromStringU32 (mb.get (str "result")) with
        | none => .ok (.error (str "You must specify the result"))
        | some result => answer (markMessage s cc mb db submissionId result) (filesOf mb (fileDescs mb)) := by
  unfold actPlaceMark
  cases fromStringU32 (mb.get (str "submission_id")) with
  | none => rfl
  | some submissionId =>
    dsimp only
    rw [result_query_bind]
    cases markRefusal s cc db.contest submissionId with
    | some msg => rfl
    | none =>
      dsimp only
      cases fromStringU32 (mb.get (str "result")) with
      | none => rfl
      | some result =>
        change Prog.result (placeMark s cc mb submissionId result) db = _
        unfold placeMark
        cases filesOf mb (fileDescs mb) with
        | ok files | refused msg | fault f => rfl

theorem answered_mark : Answered mb.content (MarkPasses s cc mb db) (Upload.mark.ranges mb db)
    (Prog.result (actPlaceMark s cc mb) db) := by
  rw [result_actPlaceMark]
  split
  · next hid =>
    apply answered_error
    rintro ⟨⟨submissionId, hsome, -⟩, -, -⟩
    cases hid.symm.trans hsome
  · next submissionId hid =>
    split
    · next msg hrefusal =>
      apply answered_error
      rintro ⟨⟨submissionId', hsome, hnone⟩, -, -⟩
      cases hid.symm.trans hsome
      cases hrefusal.symm.trans hnone
    · next hrefusal =>
      split
      · next hresult =>
        apply answered_error
        rintro ⟨-, hsome, -⟩
        rw [hresult] at hsome
        cases hsome
      · next result hresult =>
        apply ((copied_filesOf (fileDescs mb)).answered _).congr
        constructor
        · intro hfiles
          exact ⟨⟨submissionId, hid, hrefusal⟩, by rw [hresult]; rfl, hfiles⟩
        · exact MarkPasses.files

theorem answered_upload (u : Upload) : Answered mb.content (u.Leads s cc mb db) (u.ranges mb db)
    (Prog.result (u.handler s cc mb) db) := by
  cases u with
  | setProbAttrs => exact answered_setProbAttrs
  | mark => exact answered_mark

/-- The message has a file with this data. A problem file that is kept has no name and no data. -/
def Stores : Message → Str → Prop
  | .prob m, data => ∃ (attr : Str) (file : FileAttrib), m.files[attr]? = some file ∧ file.name ≠ [] ∧ file.data = data
  | .mark m, data => ∃ file ∈ m.files, file.data = data
  | _, _ => False

def Range.bytes (content : Str) (r : Range) : Str := (content.drop r.start).take r.size

theorem stored_outcome (hcontent : mb.contentSize ≤ 2147483647) {msg : ProbMessage}
    (h : outcome s mb db = .ok msg) {data : Str} (hdata : Stores (.prob msg) data) :
    ∃ r ∈ Upload.setProbAttrs.ranges mb db, r.bytes mb.content = data := by
  rw [outcome, walk_eq, Outcome.bind_eq_ok] at h
  obtain ⟨msg', hset, hended⟩ := h
  obtain ⟨-, rfl⟩ := ended_eq_ok_iff.mp hended
  obtain ⟨-, rfl⟩ := (setAttributes_eq_ok_iff hcontent _).mp hset
  obtain ⟨attr, file, hfile, hname, rfl⟩ := hdata
  obtain hmem | hnew := of_holds_foldl_put (e := .file file) _ hfile
  · obtain ⟨a, ha, value, rfl, hvalue, hentry⟩ := mem_entries.mp hmem
    obtain ⟨hkind, hfile⟩ := entry_eq_file_iff.mp hentry
    obtain ⟨start, size, name, hrange, rfl⟩ := fileRange_of_fileValue hfile hname
    have hrange : attributeRange mb a = some ⟨start, size⟩ := by
      rw [attributeRange, if_pos hkind, hvalue, Option.bind_some, valueRange, hrange, Option.map_some]
    exact ⟨_, List.mem_filterMap.mpr ⟨a, ha, hrange⟩, rfl⟩
  · simp [Holds, newMessage] at hnew

theorem stored_fileOfMark {desc : Str} {file : Option MarkFile} (h : fileOfMark mb desc = .ok file) {f : MarkFile}
    (hf : f ∈ file.toList) : ∃ r, markRange desc = some r ∧ r.bytes mb.content = f.data := by
  unfold fileOfMark at h
  split at h
  · cases h
    cases hf
  · next start size name hreg =>
    split at h
    · next first count hstart hsize =>
      obtain ⟨data, hslice, hok⟩ := Outcome.bind_eq_ok.mp h
      cases hok
      obtain rfl := List.mem_singleton.mp hf
      unfold slice at hslice
      split at hslice
      · cases hslice
        exact ⟨⟨first, count⟩, by simp [markRange, hreg, hstart, hsize], rfl⟩
      · cases hslice
    · cases h

theorem stored_filesOf {descs : List Str} {files : List MarkFile} (h : filesOf mb descs = .ok files) {f : MarkFile}
    (hf : f ∈ files) : ∃ r ∈ descs.filterMap markRange, r.bytes mb.content = f.data := by
  induction descs generalizing files with
  | nil =>
    cases h
    cases hf
  | cons desc descs ih =>
    rw [filesOf, Outcome.bind_eq_ok] at h
    obtain ⟨file, hfile, hrest⟩ := h
    obtain ⟨more, hmore, ⟨⟩⟩ := Outcome.bind_eq_ok.mp hrest
    obtain hf | hf := List.mem_append.mp hf
    · obtain ⟨r, hr, hbytes⟩ := stored_fileOfMark hfile hf
      exact ⟨r, List.mem_filterMap.mpr ⟨desc, List.mem_cons_self, hr⟩, hbytes⟩
    · obtain ⟨r, hr, hbytes⟩ := ih hmore hf
      obtain ⟨d, hd, hr⟩ := List.mem_filterMap.mp hr
      exact ⟨r, List.mem_filterMap.mpr ⟨d, List.mem_cons_of_mem _ hd, hr⟩, hbytes⟩

/-- What a message stores is what was in a range of its request. -/
theorem stored_of_message (u : Upload) (hcontent : mb.contentSize ≤ 2147483647) {m : Message} {reply : MessageBlock}
    (h : Prog.result (u.handler s cc mb) db = .ok (.message m reply)) {data : Str} (hdata : Stores m data) :
    ∃ r ∈ u.ranges mb db, r.bytes mb.content = data := by
  cases u with
  | setProbAttrs =>
    rw [Upload.handler, result_actSetProbAttrs] at h
    split at h
    · cases h
    · split at h
      · cases h
      · obtain ⟨msg, hmsg, rfl⟩ := answer_eq_message h
        exact stored_outcome hcontent hmsg hdata
  | mark =>
    rw [Upload.handler, result_actPlaceMark] at h
    split at h
    · cases h
    · split at h
      · cases h
      · split at h
        · cases h
        · obtain ⟨files, hfiles, rfl⟩ := answer_eq_message h
          obtain ⟨f, hf, rfl⟩ := hdata
          exact stored_filesOf hfiles hf

/-- For `setprobattrs` the end has no more than 32 bits, and the declared size is not negative. `mark` relies on its
client. -/
def Upload.Bounded (mb : MessageBlock) : Upload → Range → Prop
  | .setProbAttrs, r => r.size = 0 ∨ r.start + r.size < 4294967296 ∧ 0 ≤ mb.contentSize
  | .mark, r => r.size = 0 ∨ (r.start + r.size : Int) ≤ mb.contentSize

theorem inside_iff_bounded_of_passes (hcontent : mb.contentSize ≤ 2147483647)
    (hpasses : wrap32 (r.start + r.size) ≤ toU32 mb.contentSize) :
    r.Inside mb.content ↔ Upload.setProbAttrs.Bounded mb r := by
  have hmatches := mb.contentMatches
  rw [Range.inside_iff, Upload.Bounded]
  apply or_congr_right'
  intro hne
  constructor
  · intro hinside
    omega
  · rintro ⟨hend, hsize⟩
    unfold toU32 at hpasses
    rw [wrap32, Nat.mod_eq_of_lt hend] at hpasses
    omega

theorem inside_iff_bounded_of_mark : r.Inside mb.content ↔ Upload.mark.Bounded mb r := by
  have hmatches := mb.contentMatches
  rw [Range.inside_iff, Upload.Bounded]
  omega

/-- The handler makes a message, and each file in it is copied from a range inside of the content. -/
def Upload.CopiesInside (s : Server) (cc : Connection) (mb : MessageBlock) (db : Db) (u : Upload) : Prop :=
  ∃ m reply, Prog.result (u.handler s cc mb) db = .ok (.message m reply) ∧
    ∀ data, Stores m data → ∃ r ∈ u.ranges mb db, r.Inside mb.content ∧ r.bytes mb.content = data

theorem copiesInside_iff_inside (u : Upload) (hcontent : mb.contentSize ≤ 2147483647) (hleads : u.Leads s cc mb db) :
    u.CopiesInside s cc mb db ↔ ∀ r ∈ u.ranges mb db, r.Inside mb.content := by
  have hanswered : Answered mb.content (u.Leads s cc mb db) _ (Prog.result (u.handler s cc mb) db) := answered_upload u
  constructor
  · rintro ⟨m, reply, hresult, -⟩
    rw [hresult] at hanswered
    cases hanswered with
    | message _ hinside => exact hinside
    | stopped hfails => exact absurd hleads hfails
  · intro hinside
    generalize hresult : Prog.result (u.handler s cc mb) db = res at hanswered
    cases hanswered with
    | message _ _ m reply =>
      refine ⟨m, reply, hresult, fun data hdata => ?_⟩
      obtain ⟨r, hr, hbytes⟩ := stored_of_message u hcontent hresult hdata
      exact ⟨r, hr, hinside r hr, hbytes⟩
    | overrun _ houtside => exact absurd hinside houtside
    | stopped hfails => exact absurd hleads hfails

/-- A request that passes every check is copied from inside of its content exactly if its ranges are bounded. -/
theorem copiesInside_iff_bounded (u : Upload) (hcontent : mb.contentSize ≤ 2147483647) (hleads : u.Leads s cc mb db) :
    u.CopiesInside s cc mb db ↔ ∀ r ∈ u.ranges mb db, u.Bounded mb r := by
  rw [copiesInside_iff_inside u hcontent hleads]
  apply forall₂_congr
  intro r hr
  cases u with
  | setProbAttrs =>
    obtain ⟨a, ha, hrange⟩ := List.mem_filterMap.mp hr
    exact inside_iff_bounded_of_passes hcontent (wrap32_le_of_attributePasses (hleads.attributes a ha) hrange)
  | mark => exact inside_iff_bounded_of_mark

def problemUpload (evaluator : String) : MessageBlock :=
  request "setprobattrs" [("prob_type", "interactiveprob"), ("shortname", "a"), ("longname", "A"),
    ("multi_submit", "No"), ("evaluator", evaluator), ("time_limit", "1"), ("memory_limit", "1")]

def markUpload (file : String) : MessageBlock :=
  request "mark" [("submission_id", "1"), ("result", "0"), ("file0", file)]

def admin : Connection where
  userId := 1
  groupId := 1
  permissions := getPermissions 1
  userId_lt := one_lt_word

/-- A file that is the whole content. -/
theorem copiesInside_whole_content :
    Upload.setProbAttrs.CopiesInside Totality.server admin (problemUpload "0 1 e") ⟨.empty, .empty⟩ := by
  have hleads : WalkPasses (problemUpload "0 1 e") ⟨.empty, .empty⟩ :=
    ⟨by decide +kernel, by decide +kernel, by decide +kernel, by decide +kernel⟩
  have hranges : Upload.setProbAttrs.ranges (problemUpload "0 1 e") ⟨.empty, .empty⟩ = [⟨0, 1⟩] := by decide +kernel
  refine (copiesInside_iff_bounded .setProbAttrs (by decide +kernel) hleads).mpr ?_
  rw [hranges]
  exact List.forall_mem_singleton.mpr (.inr ⟨by decide, by decide +kernel⟩)

/-- The end of the problem file wraps to 0, and the file of the mark starts past the content. -/
theorem not_copiesInside_past_content :
    (WalkPasses (problemUpload "4294967295 1 e") ⟨.empty, .empty⟩ ∧
      ¬Upload.setProbAttrs.CopiesInside Totality.server admin (problemUpload "4294967295 1 e") ⟨.empty, .empty⟩) ∧
    MarkPasses Totality.server admin (markUpload "5 5 log") ⟨.empty, .empty⟩ ∧
      ¬Upload.mark.CopiesInside Totality.server admin (markUpload "5 5 log") ⟨.empty, .empty⟩ := by
  have hwalk : WalkPasses (problemUpload "4294967295 1 e") ⟨.empty, .empty⟩ :=
    ⟨by decide +kernel, by decide +kernel, by decide +kernel, by decide +kernel⟩
  have hmark : MarkPasses Totality.server admin (markUpload "5 5 log") ⟨.empty, .empty⟩ :=
    ⟨⟨1, by decide +kernel, by decide +kernel⟩, by decide +kernel, by decide +kernel⟩
  have hpast : Upload.setProbAttrs.ranges (problemUpload "4294967295 1 e") ⟨.empty, .empty⟩ = [⟨4294967295, 1⟩] := by
    decide +kernel
  have hpast' : Upload.mark.ranges (markUpload "5 5 log") ⟨.empty, .empty⟩ = [⟨5, 5⟩] := by decide +kernel
  refine ⟨⟨hwalk, fun h => ?_⟩, hmark, fun h => ?_⟩
  · have hinside := (copiesInside_iff_inside .setProbAttrs (by decide +kernel) hwalk).mp h
    rw [hpast, List.forall_mem_singleton, Range.inside_iff] at hinside
    exact absurd hinside (by decide +kernel)
  · have hinside := (copiesInside_iff_inside .mark (by decide +kernel) hmark).mp h
    rw [hpast', List.forall_mem_singleton, Range.inside_iff] at hinside
    exact absurd hinside (by decide +kernel)

end

end Abacus.Client.Slices
