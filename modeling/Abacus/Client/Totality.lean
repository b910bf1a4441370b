import Abacus.Client.Created

/-! # When a request is answered

A handler that reads a number, copies a slice or follows a query answers only if the number can be
read, the slice lies inside the content and the rows are there.
-/

namespace Abacus.Client.Totality

open Library Library.Bytes Misc Client.Block Client.Permissions Client.Action Client.Process
open Client.Contest Client.Submit Client.ProblemManip Client.Marking Client.Created
open Database.Schema Database.Marks Database.Problems Database.People Database.Peer
open Peer.Classes Peer.Load Peer.Store Peer.Totality

variable (s : Server) (cc : Connection) (mb : MessageBlock) (db : Db)

def number (name : String) : Option Nat := fromStringU32 (mb.get (str name))

/-- Every clarification that the user sees without having asked has its request. -/
def Quoted (c : Contest) (uid : Nat) : Prop :=
  ∀ (id : Nat) (r : Clarification), c.clarification[id]? = some r → uid = 0 ∨ r.isPublic = true →
    r.clarificationReqId ∈ c.clarificationRequest

def FetchSound (id : Nat) : Prop :=
  fetchRefusal s cc db.contest id = none → mb.get (str "request") = str "data" →
    ∃ index, number mb "index" = some index ∧
      ∀ file ∈ getMarkFile db.contest id index, file.2.length < 2147483648

/-- The submission passes every check before the content is looked at. -/
def Accepted : Prop :=
  running s cc = true ∧ mb.contentSize ≤ maxSubmissionSize ∧ ∃ probId, number mb "prob_id" = some probId ∧
    probId ∈ getProblems db.contest ∧
    (hasSolved db.contest s.markOrder cc.userId probId = true →
      (getProblemAttributes db.contest probId).getD (str "multi_submit") [] = str "Yes") ∧
    isSubmissionAllowed db.contest s.markOrder cc.userId probId = true ∧
    mb.get (str "lang") ∈ languages s.languageSet ∧ nextIdOf s db .submission ≠ 4294967295

/-- The slice that a description asks for lies inside the content, unless it is empty. -/
def Inside (start size : Nat) : Prop := size = 0 ∨ start + size ≤ mb.content.length

def FileSound (desc : Str) : Prop :=
  ∀ f ∈ fileReg desc, ∃ start size, fromStringU32 f.1 = some start ∧ fromStringU32 f.2.1 = some size ∧
    (wrap32 (start + size) ≤ toU32 mb.contentSize → Inside mb start size)

def AttributeSound (a : Attribute) : Prop :=
  a.kind = .file → ∀ value ∈ mb.headers[a.name]?, value ≠ str "-" → FileSound mb value

/-- The attributes up to the first that is refused are sound. -/
def AttributesSound (probId : Nat) : List Attribute → Prop
  | [] => True
  | a :: as => AttributeSound mb a ∧
      ((∃ msg msg', setAttribute mb probId msg a = .ok msg') → AttributesSound probId as)

def describedAttributes (probId : Nat) (c : Contest) : List Attribute :=
  let desc := getProblemDescription (problemType mb probId c)
  (attributes (desc.length + 1) [] desc).1

def MarkFileSound (desc : Str) : Prop :=
  ∀ f ∈ markFileReg desc, ∃ start size, fromStringU32 f.1 = some start ∧ fromStringU32 f.2.1 = some size ∧
    Inside mb start size

/-- The message can be rebuilt, and what is asked for starts after its end. -/
def TransmitSound (skip : Nat) (row : PeerMessage) : Prop :=
  (∃ cls, classOfTypeId row.messageTypeId = some cls ∧ ∃ m, load cls row.data = .ok m) ∧
    blobHeader + row.data.length < 4294967296 ∧ blobHeader + row.data.length ≤ skip

section

variable {s cc mb db} {α β : Type}

theorem isSome_mapM_iff {f : α → Option β} {l : List α} : (l.mapM f).isSome = true ↔ ∀ a ∈ l, (f a).isSome = true := by
  induction l with
  | nil => simp
  | cons a l ih =>
    rw [List.mapM_cons, List.forall_mem_cons, ← ih]
    cases f a with
    | none => simp
    | some b => cases l.mapM f <;> simp

theorem isSome_clarificationAttrs (c : Contest) (id : Nat) (r : Clarification) :
    (clarificationAttrs c id r).isSome = true ↔ r.clarificationReqId ∈ c.clarificationRequest := by
  rw [clarificationAttrs, Table.mem_iff_exists_row]
  cases c.clarificationRequest[r.clarificationReqId]? with
  | none | some request => simp

theorem returns_actGetClarifications :
    Prog.Returns (actGetClarifications s cc) db ↔ Quoted db.contest (userOrAll cc .seeAllClarifications) := by
  have hlist : Prog.Returns (actGetClarifications s cc) db ↔
      (getClarifications db.contest s.clarificationOrder (userOrAll cc .seeAllClarifications)).isSome = true := by
    rw [actGetClarifications, returns_query_bind]
    cases getClarifications db.contest s.clarificationOrder (userOrAll cc .seeAllClarifications) with
    | none => exact iff_of_false (Prog.not_returns_raise _ _) (by simp)
    | some list => exact iff_of_true (Prog.returns_pure _ _) rfl
  rw [hlist, getClarifications, isSome_mapM_iff]
  constructor
  · intro hall id r hr hvisible
    rw [← isSome_clarificationAttrs _ id]
    refine hall (id, r) ((s.clarificationOrder.perm _ _).mem_iff.mpr (List.mem_filter.mpr ⟨?_, ?_⟩))
    · exact Std.ExtTreeMap.mem_toList_iff_getElem?_eq_some.mpr hr
    · grind
  · intro hquoted r hr
    obtain ⟨hrow, hvisible⟩ := List.mem_filter.mp ((s.clarificationOrder.perm _ _).mem_iff.mp hr)
    have hr := Std.ExtTreeMap.mem_toList_iff_getElem?_eq_some.mp hrow
    rw [isSome_clarificationAttrs]
    by_cases hseen : userOrAll cc .seeAllClarifications = 0 ∨ r.2.isPublic = true
    · exact hquoted r.1 r.2 hr hseen
    · -- it is an answer to a request of the user
      have hany : ((db.contest.clarificationRequest)[r.2.clarificationReqId]?).any
          (fun request => request.userId = userOrAll cc .seeAllClarifications) = true := by
        grind
      obtain ⟨request, hrequest, -⟩ := (Option.any_eq_true _ _).mp hany
      exact Table.mem_iff_exists_row.mpr ⟨request, hrequest⟩

theorem getSubmission_of_attrs {c : Contest} {id : Nat} {row : Submission} {attrs : AttributeList}
    (hrow : c.submission[id]? = some row) (hattrs : submissionAttrs c id row = some attrs) :
    getSubmission c id = attrs ∧ Listed c id := by
  have hget : getSubmission c id = attrs := by
    rw [getSubmission, hrow]
    dsimp only
    rw [hattrs]
    rfl
  refine ⟨hget, row, hrow, ?_⟩
  unfold submissionAttrs at hattrs
  split at hattrs
  · next user value huser hvalue =>
    exact ⟨Table.mem_iff_exists_row.mpr ⟨user, huser⟩, Table.mem_iff_exists_row.mpr ⟨value, hvalue⟩⟩
  · cases hattrs

theorem isSome_submissionToMB_of_attrs (hdb : InRange db.contest) {id : Nat} {row : Submission} {attrs : AttributeList}
    (hrow : db.contest.submission[id]? = some row) (hattrs : submissionAttrs db.contest id row = some attrs)
    (env : Peer.Process.Env) (reply : MessageBlock) (suffix : Str) :
    (Peer.Process.submissionToMB env db.contest attrs reply suffix).isSome = true := by
  obtain ⟨hget, hlisted⟩ := getSubmission_of_attrs hrow hattrs
  rw [← hget, Option.isSome_iff_ne_none]
  intro hnone
  exact (submissionToMB_eq_none_iff hdb id env reply suffix).mp hnone hlisted

theorem isSome_foldlM {f : β → α → Option β} {l : List α} (h : ∀ b, ∀ a ∈ l, (f b a).isSome = true) (b : β) :
    (l.foldlM f b).isSome = true := by
  induction l generalizing b with
  | nil => rfl
  | cons a l ih =>
    obtain ⟨b', hb'⟩ := Option.isSome_iff_exists.mp (h b a List.mem_cons_self)
    rw [List.foldlM_cons, hb']
    exact ih (fun b a ha => h b a (List.mem_cons_of_mem _ ha)) b'

theorem isSome_submissionsToMB (hdb : InRange db.contest) (uid : Nat) :
    (submissionsToMB s db.contest (getSubmissions db.contest uid)).isSome = true := by
  refine isSome_foldlM (fun reply r hr => ?_) _
  obtain ⟨⟨id, row⟩, hrow, hattrs⟩ := List.mem_filterMap.mp (List.fst_mem_of_mem_zipIdx hr)
  dsimp only at hattrs
  have hrow := Std.ExtTreeMap.mem_toList_iff_getElem?_eq_some.mp hrow
  split at hattrs
  · exact isSome_submissionToMB_of_attrs hdb hrow hattrs _ _ _
  · cases hattrs

theorem returns_orThrow (o : Option α) : Prog.Returns (orThrow o) db ↔ o.isSome = true := by
  cases o with
  | none => exact iff_of_false nofun nofun
  | some a => exact iff_of_true ⟨a, rfl⟩ rfl

theorem returns_actGetSubmissions (hdb : InRange db.contest) : Prog.Returns (actGetSubmissions s cc) db := by
  rw [actGetSubmissions, returns_query_bind, returns_orThrow]
  exact isSome_submissionsToMB hdb _

theorem returns_actGetSubmissionsForUser (hdb : InRange db.contest) :
    Prog.Returns (actGetSubmissionsForUser s cc mb) db ↔ (number mb "user_id").isSome = true := by
  rw [actGetSubmissionsForUser, returns_orThrow_bind, Option.isSome_iff_exists]
  refine exists_congr fun id => and_iff_left ?_
  rw [returns_query_bind, returns_orThrow]
  exact isSome_submissionsToMB hdb _

theorem returns_fetchData (id : Nat) :
    Prog.Returns (fetchData mb id) db ↔ ∃ index, number mb "index" = some index ∧
      ∀ file ∈ getMarkFile db.contest id index, file.2.length < 2147483648 := by
  rw [fetchData, returns_orThrow_bind]
  refine exists_congr fun index => and_congr_right fun _ => ?_
  rw [returns_query_bind]
  cases getMarkFile db.contest id index with
  | none => simp
  | some file => simp [returns_setContent]

theorem returns_actSubmissionFileFetcher :
    Prog.Returns (actSubmissionFileFetcher s cc mb) db ↔
      ∃ id, number mb "submission_id" = some id ∧ FetchSound s cc mb db id := by
  dsimp only [actSubmissionFileFetcher]
  rw [returns_orThrow_bind]
  refine exists_congr fun id => and_congr_right fun _ => ?_
  rw [returns_query_bind, FetchSound]
  cases fetchRefusal s cc db.contest id with
  | some msg => simp
  | none =>
    by_cases hcount : mb.get (str "request") = str "count"
    · simp +decide [hcount]
    · by_cases hdata : mb.get (str "request") = str "data"
      · simp +decide [hdata, returns_fetchData]
      · simp [hcount, hdata]

theorem returns_actGetSubmissionSource :
    Prog.Returns (actGetSubmissionSource cc mb) db ↔ ∃ id, number mb "submission_id" = some id ∧
      ∀ source ∈ retrieveSubmission db.contest (userOrAll cc .seeAllSubmissions) id, source.1.length < 2147483648 := by
  rw [actGetSubmissionSource, returns_orThrow_bind]
  refine exists_congr fun id => and_congr_right fun _ => ?_
  rw [returns_query_bind]
  cases retrieveSubmission db.contest (userOrAll cc .seeAllSubmissions) id with
  | none => simp
  | some source =>
    have hcontent : Prog.Returns (setContent MessageBlock.ok source.1) db ↔ _ := returns_setContent _ _
    dsimp only
    rw [Prog.returns_bind]
    simp only [Prog.returns_pure, and_true, Option.mem_some_iff, forall_eq']
    exact hcontent

theorem returns_submissionContent_bind (f : Str → ClientProg α) :
    Prog.Returns (submissionContent mb >>= f) db ↔ 0 ≤ mb.contentSize ∧ Prog.Returns (f mb.content) db := by
  unfold submissionContent
  split
  · next hsize => exact iff_of_false nofun fun h => by omega
  · next hsize => exact ⟨fun h => ⟨by omega, h⟩, fun h => h.2⟩

theorem returns_actSubmit : Prog.Returns (actSubmit s cc mb) db ↔ (Accepted s cc mb db → 0 ≤ mb.contentSize) := by
  unfold Accepted number
  dsimp only [actSubmit, submitSolution]
  cases fromStringU32 (mb.get (str "prob_id")) with
  | none => simp
  | some probId => simp [returns_submissionContent_bind]

theorem returns_actGetProblemFile :
    Prog.Returns (actGetProblemFile mb) db ↔
      ∀ id, number mb "prob_id" = some id → id ≠ 0 → mb.get (str "file") ≠ [] →
        ∀ data ∈ getProblemFileData db.contest id (mb.get (str "file")), data.length < 2147483648 := by
  unfold number
  dsimp only [actGetProblemFile]
  cases fromStringU32 (mb.get (str "prob_id")) with
  | none => simp
  | some id =>
    by_cases hid : id = 0
    · simp [hid]
    · simp only [Option.filter_some, hid, ne_eq, not_false_eq_true, decide_true, if_true]
      simp only [Prog.returns_if_pure, returns_query_bind, Option.some.injEq, forall_eq', hid, not_false_eq_true,
        forall_true_left]
      refine forall_congr' fun _ => ?_
      cases getProblemFileData db.contest id (mb.get (str "file")) with
      | none => simp
      | some data => simp [returns_setContent]

theorem returns_rebuild (row : PeerMessage) :
    Prog.Returns (rebuild row) db ↔
      (∃ cls, classOfTypeId row.messageTypeId = some cls ∧ ∃ m, load cls row.data = .ok m) ∧
        blobHeader + row.data.length < 4294967296 := by
  rw [rebuild]
  cases classOfTypeId row.messageTypeId with
  | none => simp
  | some cls =>
    simp only [Option.some.injEq, exists_eq_left']
    cases load cls row.data with
    | error e => cases e <;> simp
    | ok m =>
      dsimp only
      split
      · next h => simp [h]
      · next h => simp [h]

theorem returns_tcpTransmitAction :
    Prog.Returns (tcpTransmitAction mb) db ↔ ∃ serverId, number mb "server_id" = some serverId ∧
      ∃ messageId, number mb "message_id" = some messageId ∧ ∃ skip, number mb "skip" = some skip ∧
        (serverId ≠ 0 → messageId ≠ 0 → ∀ row ∈ db.peer.peerMessage[(serverId, messageId)]?,
          TransmitSound skip row) := by
  rw [tcpTransmitAction, returns_orThrow_bind]
  refine exists_congr fun serverId => and_congr_right fun _ => ?_
  rw [returns_orThrow_bind]
  refine exists_congr fun messageId => and_congr_right fun _ => ?_
  rw [returns_orThrow_bind]
  refine exists_congr fun skip => and_congr_right fun _ => ?_
  simp only [Prog.returns_if_pure, Prog.returns_read_bind, not_or, and_imp, ne_eq]
  refine forall_congr' fun _ => forall_congr' fun _ => ?_
  cases db.peer.peerMessage[(serverId, messageId)]? with
  | none => simp
  | some row =>
    have hrebuild : Prog.Returns (rebuild row) db ↔ _ := returns_rebuild row
    have hreads : Prog.Reads (fun _ => True) (rebuild row) := by grind [rebuild]
    have hskip (m : MessageBlock) :
        Prog.Returns (if skip < blobHeader + row.data.length then .raise .freedMemory else pure m : ClientProg _) db ↔
          blobHeader + row.data.length ≤ skip := by
      split
      · next h => exact iff_of_false (Prog.not_returns_raise _ _) (by omega)
      · next h => exact iff_of_true (Prog.returns_pure _ _) (by omega)
    dsimp only
    simp only [hreads.returns_bind, hskip, Option.mem_some_iff, forall_eq', TransmitSound]
    rw [← and_assoc, ← hrebuild]
    exact exists_and_right

def NoFault {α : Type} (x : Outcome α) : Prop := ∀ f, x ≠ .fault f

@[simp] theorem noFault_ok (a : α) : NoFault (.ok a) := nofun

@[simp] theorem noFault_refused (msg : Str) : NoFault (.refused msg : Outcome α) := nofun

@[simp] theorem not_noFault_fault (f : ClientFault) : ¬NoFault (.fault f : Outcome α) := fun h => h f rfl

theorem noFault_bind (x : Outcome α) (f : α → Outcome β) :
    NoFault (x.bind f) ↔ NoFault x ∧ ∀ a, x = .ok a → NoFault (f a) := by
  cases x <;> simp [Outcome.bind]

@[simp] theorem noFault_bind_ok (x : Outcome α) (f : α → β) : NoFault (x.bind fun a => .ok (f a)) ↔ NoFault x := by
  simp [noFault_bind]

theorem noFault_slice (start size : Nat) : NoFault (slice mb start size) ↔ Inside mb start size := by
  unfold slice Inside
  split
  · next h => exact iff_of_true (noFault_ok _) h
  · next h => exact iff_of_false (not_noFault_fault _) h

theorem noFault_fileOf (attr desc : Str) : NoFault (fileOf mb attr desc) ↔ FileSound mb desc := by
  unfold fileOf FileSound
  cases fileReg desc with
  | none => simp
  | some f =>
    obtain ⟨start, size, name⟩ := f
    simp only [Option.mem_some_iff, forall_eq']
    cases fromStringU32 start with
    | none => simp
    | some start =>
      cases fromStringU32 size with
      | none => simp
      | some size =>
        simp only [Option.some.injEq, exists_eq_left', exists_and_left]
        split
        · next h => exact iff_of_true (noFault_refused _) fun hle => by omega
        · next h => simp [noFault_slice, not_lt.mp h]

theorem noFault_setAttribute (probId : Nat) (msg : ProbMessage) (a : Attribute) :
    NoFault (setAttribute mb probId msg a) ↔ AttributeSound mb a := by
  unfold setAttribute AttributeSound
  cases mb.headers[a.name]? with
  | none =>
    dsimp only
    split <;> simp
  | some value =>
    simp only [Option.mem_some_iff, forall_eq', setValue]
    cases a.kind with
    | string => simp
    | int => cases fromStringI32 value <;> simp
    | file =>
      simp only [setFile, forall_true_left]
      split
      · next h =>
        split <;> simp [h]
      · next h => simp [h, noFault_fileOf]
    | choice values =>
      simp only
      split <;> simp

theorem exists_setAttribute_ok {probId : Nat} {msg msg' : ProbMessage} {a : Attribute}
    (h : setAttribute mb probId msg a = .ok msg') (other : ProbMessage) :
    ∃ other', setAttribute mb probId other a = .ok other' := by
  have hmap {α : Type} {x : Outcome α} {f g : α → ProbMessage} (hf : (x.bind fun a => .ok (f a)) = .ok msg') :
      ∃ other', (x.bind fun a => .ok (g a)) = .ok other' := by
    cases x with
    | ok a => exact ⟨g a, rfl⟩
    | refused text | fault e => cases hf
  unfold setAttribute at h ⊢
  cases hheader : mb.headers[a.name]? with
  | none =>
    rw [hheader] at h
    by_cases hoptional : a.optional = true
    · exact ⟨other, if_pos hoptional⟩
    · rw [if_neg hoptional] at h
      cases h
  | some value =>
    rw [hheader] at h
    unfold setValue at h ⊢
    cases hkind : a.kind with
    | string => exact ⟨_, rfl⟩
    | int =>
      rw [hkind] at h
      dsimp only at h ⊢
      cases hval : fromStringI32 value with
      | none =>
        rw [hval] at h
        cases h
      | some val => exact ⟨_, rfl⟩
    | file =>
      rw [hkind] at h
      dsimp only [setFile] at h ⊢
      by_cases hkeep : value = str "-"
      · rw [if_pos hkeep] at h ⊢
        by_cases hnew : probId = 0
        · rw [if_pos hnew] at h
          cases h
        · exact ⟨_, if_neg hnew⟩
      · rw [if_neg hkeep] at h ⊢
        exact hmap h
    | choice values =>
      rw [hkind] at h
      dsimp only at h ⊢
      by_cases hvalue : value ∈ values
      · exact ⟨_, if_pos hvalue⟩
      · rw [if_neg hvalue] at h
        cases h

theorem noFault_setAttributes (probId : Nat) (as : List Attribute) (msg : ProbMessage) :
    NoFault (setAttributes mb probId as msg) ↔ AttributesSound mb probId as := by
  induction as generalizing msg with
  | nil => exact iff_of_true (noFault_ok _) trivial
  | cons a as ih =>
    rw [setAttributes, noFault_bind, AttributesSound, noFault_setAttribute]
    simp only [ih]
    refine and_congr_right fun _ => ⟨fun h => ?_, fun h msg' hmsg' => h ⟨msg, msg', hmsg'⟩⟩
    rintro ⟨other, other', hother⟩
    obtain ⟨msg', hmsg'⟩ := exists_setAttribute_ok hother msg
    exact h msg' hmsg'

/-- The descriptions of the registered types are well formed. -/
theorem ending_description (type : Str) :
    (attributes ((getProblemDescription type).length + 1) [] (getProblemDescription type)).2 = .done := by
  unfold getProblemDescription
  cases htype : problemTypes.find? fun t => str t.1 = type with
  | none => rfl
  | some t =>
    have hall : ∀ t ∈ problemTypes, (attributes (((str ", ").intercalate (t.2.map str)).length + 1) []
        ((str ", ").intercalate (t.2.map str))).2 = .done := by
      decide +kernel
    exact hall t (List.mem_of_find?_eq_some htype)

theorem noFault_walk (probId : Nat) (c : Contest) (msg : ProbMessage) :
    NoFault (walk mb probId (getProblemDescription (problemType mb probId c)) msg) ↔
      AttributesSound mb probId (describedAttributes mb probId c) := by
  unfold walk describedAttributes
  have hending := ending_description (problemType mb probId c)
  dsimp only
  rw [hending, noFault_bind_ok, noFault_setAttributes]

theorem fileOfMark_ne_refused (desc msg : Str) : fileOfMark mb desc ≠ .refused msg := by
  unfold fileOfMark slice
  grind [Outcome.bind]

theorem noFault_fileOfMark (desc : Str) : NoFault (fileOfMark mb desc) ↔ MarkFileSound mb desc := by
  unfold fileOfMark MarkFileSound
  cases markFileReg desc with
  | none => simp
  | some f =>
    obtain ⟨start, size, name⟩ := f
    simp only [Option.mem_some_iff, forall_eq']
    cases fromStringU32 start with
    | none => simp
    | some start =>
      cases fromStringU32 size with
      | none => simp
      | some size => simp [noFault_slice]

theorem noFault_filesOf (descs : List Str) : NoFault (filesOf mb descs) ↔ ∀ desc ∈ descs, MarkFileSound mb desc := by
  induction descs with
  | nil => exact iff_of_true (noFault_ok _) nofun
  | cons desc descs ih =>
    rw [filesOf, noFault_bind, noFault_fileOfMark, List.forall_mem_cons, ← ih]
    simp only [noFault_bind_ok]
    refine and_congr_right fun hsound => ⟨fun h => ?_, fun h _ _ => h⟩
    -- a description is never refused, so the next one is looked at
    cases hfile : fileOfMark mb desc with
    | ok file => exact h file hfile
    | refused msg => exact absurd hfile (fileOfMark_ne_refused desc msg)
    | fault f => exact absurd hfile ((noFault_fileOfMark desc).mpr hsound f)

theorem returns_actSetProbAttrs :
    Prog.Returns (actSetProbAttrs s mb) db ↔
      AttributesSound mb (toU32 (strtol (mb.get (str "prob_id"))))
        (describedAttributes mb (toU32 (strtol (mb.get (str "prob_id")))) db.contest) := by
  dsimp only [actSetProbAttrs]
  generalize toU32 (strtol (mb.get (str "prob_id"))) = probId
  have hdesc (h : getProblemDescription (problemType mb probId db.contest) = []) :
      AttributesSound mb probId (describedAttributes mb probId db.contest) := by
    rw [describedAttributes, h]
    trivial
  have hnumber (f : Nat → ClientProg Answer) : Prog.Returns (problemNumber s probId >>= f) db ↔
      Prog.Returns (f (if probId = 0 then nextIdOf s db .problem else probId)) db := by
    unfold problemNumber
    split
    · exact returns_nextId_bind _ _
    · exact Iff.rfl
  rw [returns_query_bind, Prog.returns_if_pure, Prog.returns_if_pure, hnumber]
  generalize newMessage s mb _ _ = msg
  rw [← noFault_walk probId db.contest msg] at hdesc ⊢
  generalize hwalk : walk mb probId (getProblemDescription (problemType mb probId db.contest)) msg = outcome at hdesc ⊢
  constructor
  · intro h
    by_cases hempty : getProblemDescription (problemType mb probId db.contest) = []
    · exact hdesc hempty
    · have htype : problemType mb probId db.contest ≠ [] := by
        intro htype
        rw [htype] at hempty
        exact hempty rfl
      have hreturns := h htype hempty
      cases outcome with
      | ok msg => exact noFault_ok _
      | refused text => exact noFault_refused _
      | fault f => exact absurd hreturns (Prog.not_returns_raise _ _)
  · intro hsound _ _
    cases outcome with
    | ok msg | refused text => exact Prog.returns_pure _ _
    | fault f => exact absurd hsound (not_noFault_fault f)

theorem returns_placeMark (submissionId result : Nat) :
    Prog.Returns (placeMark s cc mb submissionId result) db ↔ ∀ desc ∈ fileDescs mb, MarkFileSound mb desc := by
  rw [← noFault_filesOf, placeMark]
  cases filesOf mb (fileDescs mb) with
  | ok files | refused msg | fault f => simp

theorem returns_actPlaceMark :
    Prog.Returns (actPlaceMark s cc mb) db ↔
      ∀ id, number mb "submission_id" = some id → markRefusal s cc db.contest id = none →
        (number mb "result").isSome = true → ∀ desc ∈ fileDescs mb, MarkFileSound mb desc := by
  unfold number
  dsimp only [actPlaceMark]
  cases fromStringU32 (mb.get (str "submission_id")) with
  | none => simp [reject]
  | some id =>
    simp only [returns_query_bind, Option.some.injEq, forall_eq']
    cases markRefusal s cc db.contest id with
    | some msg => simp
    | none =>
      cases fromStringU32 (mb.get (str "result")) with
      | none => simp [reject]
      | some result => simp [returns_placeMark]

end

section

/-- What the request and the tables must be for the handler of an action to come to an answer. -/
def Sound : ActionName → Prop
  | .getclarifications => Quoted db.contest (userOrAll cc .seeAllClarifications)
  | .submit => Accepted s cc mb db → 0 ≤ mb.contentSize
  | .getsubmissionsForUser => (number mb "user_id").isSome = true
  | .fetchfile => ∃ id, number mb "submission_id" = some id ∧ FetchSound s cc mb db id
  | .getsubmissionsource => ∃ id, number mb "submission_id" = some id ∧
      ∀ source ∈ retrieveSubmission db.contest (userOrAll cc .seeAllSubmissions) id, source.1.length < 2147483648
  | .setprobattrs => AttributesSound mb (toU32 (strtol (mb.get (str "prob_id"))))
      (describedAttributes mb (toU32 (strtol (mb.get (str "prob_id")))) db.contest)
  | .getprobfile => ∀ id, number mb "prob_id" = some id → id ≠ 0 → mb.get (str "file") ≠ [] →
      ∀ data ∈ getProblemFileData db.contest id (mb.get (str "file")), data.length < 2147483648
  | .mark => ∀ id, number mb "submission_id" = some id → markRefusal s cc db.contest id = none →
      (number mb "result").isSome = true → ∀ desc ∈ fileDescs mb, MarkFileSound mb desc
  | .udtcppeermessageget => ∃ serverId, number mb "server_id" = some serverId ∧
      ∃ messageId, number mb "message_id" = some messageId ∧ ∃ skip, number mb "skip" = some skip ∧
        (serverId ≠ 0 → messageId ≠ 0 → ∀ row ∈ db.peer.peerMessage[(serverId, messageId)]?, TransmitSound skip row)
  | _ => True

variable {s cc mb db}

theorem reads_answer (action : ActionName) : Prog.Reads (fun _ => True) (answer s cc mb action) := by
  cases action <;> grind [answer]

theorem returns_answer_iff (hdb : InRange db.contest) (action : ActionName) :
    Prog.Returns (answer s cc mb action) db ↔ Sound s cc mb db action := by
  cases action with
  | getclarifications => exact (Prog.returns_map _ _).trans returns_actGetClarifications
  | submit => exact returns_actSubmit
  | getsubmissions => exact iff_of_true ((Prog.returns_map _ _).mpr (returns_actGetSubmissions hdb)) trivial
  | getsubmissionsForUser => exact (Prog.returns_map _ _).trans (returns_actGetSubmissionsForUser hdb)
  | fetchfile => exact (Prog.returns_map _ _).trans returns_actSubmissionFileFetcher
  | getsubmissionsource => exact (Prog.returns_map _ _).trans returns_actGetSubmissionSource
  | setprobattrs => exact returns_actSetProbAttrs
  | getprobfile => exact (Prog.returns_map _ _).trans returns_actGetProblemFile
  | mark => exact returns_actPlaceMark
  | udtcppeermessageget => exact (Prog.returns_map _ _).trans returns_tcpTransmitAction
  | _ => exact iff_of_true (Prog.Reads.returns (by grind [answer]) db) trivial

theorem fits_of_wellformed {m : Message} (h : Wellformed m) : Fits m := by
  cases m with
  | createUser m => exact h.2.2.1
  | submission m => exact ⟨h.1, h.2.2.2.1⟩
  | clarification m => exact h.2.2.2.1
  | _ => trivial

theorem returns_finish (hdb : InRange db.contest) {a : Answer} (ha : Creates Wellformed a) :
    Prog.Returns (finish s a) db ↔ Creates (Handled s db) a := by
  cases a with
  | reply r => exact iff_of_true (Prog.returns_pure _ _) trivial
  | message m r => exact returns_triggerMessage hdb (fits_of_wellformed ha) r

theorem returns_intProcess (hdb : Bounded db) (action : ActionName) :
    Prog.Returns (intProcess s cc mb action) db ↔
      Sound s cc mb db action ∧ Prog.Gives (answer s cc mb action) db (Creates (Handled s db)) := by
  rw [intProcess, (reads_answer action).returns_bind, ← returns_answer_iff hdb.contest]
  have hmade : Prog.Gives (answer s cc mb action) db (Creates Wellformed) := gives_answer hdb action
  constructor
  · rintro ⟨a, ha, hfinish⟩
    refine ⟨⟨a, ha⟩, fun b hb => ?_⟩
    obtain rfl := Except.ok.inj (ha.symm.trans hb)
    exact (returns_finish hdb.contest (hmade a ha)).mp hfinish
  · rintro ⟨⟨a, ha⟩, hhandled⟩
    exact ⟨a, ha, (returns_finish hdb.contest (hmade a ha)).mpr (hhandled a ha)⟩

end

section

variable (s : Server) (cc : Connection) (mb : MessageBlock) (db : Db)

def replies (outputs : List ConnectionOutput) : List MessageBlock :=
  outputs.filterMap fun
    | .sendMessageBlock r => some r
    | .effect _ => none

/-- There is one reply, it has the id of the request, and no exception escapes. -/
def Answered : Prop :=
  (process s cc mb).result db = .ok () ∧
    ∃ r, replies ((process s cc mb).run db).2.1 = [r] ∧ r.messageId = mb.messageId

/-- The server has not been initialised, or the request is refused, or it can be served. -/
def Servable : Prop :=
  getId s db.peer ≠ 0 → ∀ action, findAction mb.action = some action →
    (permissionTest action).matches cc.permissions = true →
      Sound s cc mb db action ∧ Prog.Gives (answer s cc mb action) db (Creates (Handled s db))

variable {s cc mb db}

theorem returns_reply (hdb : Bounded db) : Prog.Returns (reply s cc mb) db ↔ Servable s cc mb db := by
  rw [reply, Prog.returns_read_bind, Prog.returns_if_pure, Servable]
  refine forall_congr' fun _ => ?_
  cases findAction mb.action with
  | none => simp
  | some action =>
    simp only [Option.some.injEq, forall_eq', Prog.returns_if_else_pure]
    refine forall_congr' fun _ => ?_
    rw [← returns_intProcess hdb, ← Prog.returns_embed ConnectionOutput.effect id, Prog.returns_bind]
    exact exists_congr fun r => and_iff_left (Prog.returns_pure _ _)

theorem replies_reply : replies ((reply s cc mb).run db).2.1 = [] := by
  have heffects (os : List Effect) : replies (os.map .effect) = [] := by
    simp [replies, List.filterMap_map]
  change replies (Prog.run (if getId s db.peer = 0 then _ else _) db).2.1 = []
  split
  · rfl
  · split
    · rfl
    · next action _ =>
      split
      · rw [Prog.run_bind, Prog.run_embed]
        cases (Prog.run (intProcess s cc mb action) db).2.2 with
        | error e => exact heffects _
        | ok r => exact (congrArg replies (List.append_nil _)).trans (heffects _)
      · rfl

def sent (mb : MessageBlock) (r : Option MessageBlock) : MessageBlock :=
  (r.getD (.error (str "Internal error - no reply generated by " ++ mb.action))).setMessageId mb.messageId

theorem run_process (s : Server) (cc : Connection) (mb : MessageBlock) (db : Db) :
    (process s cc mb).result db = ((reply s cc mb).result db).map (fun _ => ()) ∧
      replies ((process s cc mb).run db).2.1 = ((reply s cc mb).result db).toOption.toList.map (sent mb) := by
  have hnone : replies ((reply s cc mb).run db).2.1 = [] := replies_reply
  unfold Prog.result process
  rw [Prog.run_bind]
  rcases hreply : (reply s cc mb).run db with ⟨db', os, e | r⟩
  · rw [hreply] at hnone
    exact ⟨rfl, hnone⟩
  · rw [hreply] at hnone
    have hreplies : replies (os ++ [.sendMessageBlock (sent mb r)]) = [sent mb r] := by
      rw [replies, List.filterMap_append]
      exact congrArg (· ++ [sent mb r]) hnone
    exact ⟨rfl, hreplies⟩

theorem replies_of_permitted {action : ActionName} {act : ClientProg MessageBlock} (hself : getId s db.peer ≠ 0)
    (haction : findAction mb.action = some action) (hmay : (permissionTest action).matches cc.permissions = true)
    (hanswer : answer s cc mb action = Answer.reply <$> act) :
    replies ((process s cc mb).run db).2.1 = (act.result db).toOption.toList.map fun r => sent mb (some r) := by
  have hhandler : (intProcess s cc mb action).result db = act.result db := by
    rw [intProcess, hanswer]
    change Prog.result ((act >>= fun r => pure (Answer.reply r)) >>= finish s) db = _
    rw [Prog.result_bind, Prog.result_bind]
    cases act.result db with
    | error e | ok r => rfl
  have hembed : (Prog.embed ConnectionOutput.effect id (intProcess s cc mb action)).result db =
      ((intProcess s cc mb action).result db).mapError id := by
    rw [Prog.result, Prog.run_embed]
    rfl
  have hreply : (reply s cc mb).result db = (act.result db).map some := by
    rw [reply, Prog.result_read_bind, if_neg hself, haction]
    dsimp only
    rw [if_pos hmay, Prog.result_bind, hembed, hhandler]
    cases act.result db with
    | error e | ok r => rfl
  rw [(run_process s cc mb db).2, hreply]
  cases act.result db with
  | error e | ok r => rfl

theorem replies_of_refused {action : ActionName} (haction : findAction mb.action = some action)
    (hmay : getId s db.peer = 0 ∨ (permissionTest action).matches cc.permissions = false) :
    replies ((process s cc mb).run db).2.1 =
      [sent mb (some (.error (if getId s db.peer = 0
        then str "Server has not yet been initialised - please try again later"
        else str "Action not permitted")))] := by
  have hreply : (reply s cc mb).result db = .ok (some (.error (if getId s db.peer = 0
      then str "Server has not yet been initialised - please try again later" else str "Action not permitted"))) := by
    rw [reply, Prog.result_read_bind]
    split
    · rfl
    · next hself =>
      rw [haction]
      dsimp only
      rw [if_neg (Bool.eq_false_iff.mp (hmay.resolve_left hself))]
      rfl
  rw [(run_process s cc mb db).2, hreply]
  rfl

theorem answered_iff_returns : Answered s cc mb db ↔ Prog.Returns (reply s cc mb) db := by
  obtain ⟨hresult, hreplies⟩ := run_process s cc mb db
  rw [Answered, hresult, hreplies, Prog.Returns]
  cases (reply s cc mb).result db with
  | error e => exact iff_of_false (by simp [Except.map]) (by simp)
  | ok r => exact iff_of_true ⟨rfl, sent mb r, rfl, rfl⟩ ⟨r, rfl⟩

def server : Server := default

def contestant : Connection where
  userId := 33
  groupId := 1
  permissions := getPermissions 3
  userId_lt := by decide

def fetchCount (submissionId : String) : MessageBlock :=
  ((MessageBlock.ofAction (str "fetchfile")).set (str "request") (str "count")).set (str "submission_id")
    (str submissionId)

theorem bounded_empty : Bounded ⟨.empty, .empty⟩ where
  contest := Peer.Totality.init_started.1
  server := by simp [PeerTables.empty]

end

end Abacus.Client.Totality
