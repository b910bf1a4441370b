import Abacus.Client.Process
import Abacus.Peer.Blob
import Mathlib.Algebra.Order.BigOperators.Group.List
import Mathlib.Algebra.Order.Ring.Nat

/-! # The messages that requests create

Whatever the request says, the numbers in a message that a handler creates have their types,
and a problem file without name has no data.
-/

namespace Abacus.Client.Created

open Library Library.Bytes Misc Client.Block Client.Action Client.Process
open Client.Users Client.Contest Client.Submit Client.ProblemManip Client.Marking
open Database.Schema Peer.Classes Peer.Store Peer.Blob Support.Timer
open Library.Prog (gives_pure gives_bind gives_bind_of reads_read)

def Word (n : Nat) : Prop := n < 4294967296

theorem word_zero : Word 0 := by
  unfold Word
  decide

theorem word_one : Word 1 := by
  unfold Word
  decide

def Int32 (z : Int) : Prop := -2147483648 ≤ z ∧ z ≤ 2147483647

structure WordsOfProb (m : ProbMessage) : Prop where
  probId : Word m.probId
  updateTime : Word m.updateTime
  deps : ∀ d ∈ m.deps, Word d
  ints : ∀ (attr : Str) (z : Int), m.ints[attr]? = some z → Int32 z
  files : ∀ (attr : Str) (file : FileAttrib), m.files[attr]? = some file → file.name = [] → file.data = []

def Wellformed : Message → Prop
  | .createServer m => Word m.serverId
  | .createUser m => Word m.userId ∧ Word m.type ∧ Word m.groupId ∧ Word m.requestorId
  | .createGroup m => Word m.groupId
  | .passwd m => Word m.userId
  | .prob m => WordsOfProb m
  | .submission m => Word m.submissionId ∧ Word m.userId ∧ Word m.probId ∧ Word m.time ∧ Word m.serverId
  | .startStop m => Word m.groupId ∧ Word m.time ∧ Word m.action
  | .mark m => Word m.submissionId ∧ Word m.marker ∧ Word m.result ∧ Word m.time ∧ Word m.serverId
  | .clarification m => Word m.request ∧ Word m.clarificationRequestId ∧ Word m.clarificationId ∧ Word m.userId ∧
      Word m.probId ∧ Word m.time ∧ Word m.serverId
  | .bonus m => Word m.userId ∧ Int32 m.points ∧ Int32 m.seconds

variable {m : Message}

theorem Wellformed.filesNamed (h : Wellformed m) : FilesNamed m := by
  cases m with
  | prob m => exact h.files
  | _ => trivial

theorem length_le_dataSize {f : Field} (hf : f ∈ fields m) : f.length ≤ dataSize m :=
  List.le_sum_of_mem (List.mem_map_of_mem hf)

theorem Wellformed.typed (h : Wellformed m) (hsize : dataSize m < 4294967296) : Typed m := by
  have hbytes {data : Str} (hdata : Field.bytes data ∈ fields m) : TypedField (.word data.length) :=
    (length_le_dataSize hdata).trans_lt hsize
  have hnil := List.forall_mem_nil TypedField
  rw [Typed]
  cases m <;>
    simp only [fields, List.forall_mem_append, List.forall_mem_cons, List.forall_mem_flatMap, List.forall_mem_map]
  case createServer m => exact ⟨⟨h, trivial, hnil⟩, fun _ _ => ⟨trivial, trivial, hnil⟩⟩
  case createUser m =>
    obtain ⟨huser, htype, hgroup, hrequestor⟩ := h
    exact ⟨huser, htype, hgroup, hrequestor, trivial, trivial, trivial, hnil⟩
  case createGroup m => exact ⟨h, trivial, hnil⟩
  case passwd m => exact ⟨h, trivial, hnil⟩
  case prob m =>
    have hcount : Word m.deps.length := by
      simp only [dataSize, fields, List.map_append, List.sum_append, List.map_map, Function.comp_def, Field.length,
        List.map_const', List.sum_replicate_nat, List.map_cons, List.map_nil, List.sum_cons, List.sum_nil] at hsize
      unfold Word
      omega
    refine ⟨⟨⟨⟨⟨⟨h.probId, h.updateTime, hcount, hnil⟩, h.deps⟩, trivial, hnil⟩, fun a ha => ?_⟩, ?_⟩, fun a ha => ?_⟩
    · exact ⟨trivial, trivial, h.ints a.1 a.2 (Std.ExtTreeMap.mem_toList_iff_getElem?_eq_some.mp ha), hnil⟩
    · exact fun a _ => ⟨trivial, trivial, trivial, hnil⟩
    · have hdata : TypedField (.word a.2.data.length) :=
        hbytes (List.mem_append_right _ (List.mem_flatMap.mpr ⟨a, ha, by simp [fileAttrib]⟩))
      simp only [fileAttrib, List.forall_mem_cons]
      exact ⟨trivial, trivial, trivial, hdata, trivial, hnil⟩
  case submission m =>
    obtain ⟨hid, huser, hprob, htime, hserver⟩ := h
    exact ⟨hid, huser, hprob, htime, hserver, hbytes (by simp [fields]), trivial, trivial, hnil⟩
  case startStop m =>
    obtain ⟨hgroup, htime, haction⟩ := h
    exact ⟨hgroup, htime, haction, hnil⟩
  case mark m =>
    obtain ⟨hid, hmarker, hresult, htime, hserver⟩ := h
    refine ⟨⟨hid, hmarker, hresult, htime, hserver, trivial, hnil⟩, fun file hfile => ?_⟩
    have hdata : TypedField (.word file.data.length) :=
      hbytes (List.mem_append_right _ (List.mem_flatMap.mpr ⟨file, hfile, by simp [markFile]⟩))
    simp only [markFile, List.forall_mem_cons]
    exact ⟨trivial, hdata, trivial, hnil⟩
  case clarification m =>
    obtain ⟨hrequest, hreqId, hid, huser, hprob, htime, hserver⟩ := h
    exact ⟨hrequest, hreqId, hid, huser, hprob, htime, hserver, trivial, hnil⟩
  case bonus m =>
    obtain ⟨huser, hpoints, hseconds⟩ := h
    exact ⟨huser, hpoints, hseconds, hnil⟩

def Creates (P : Message → Prop) : Answer → Prop
  | .reply _ => True
  | .message m _ => P m

variable {s : Server} {cc : Connection} {mb : MessageBlock} {db : Db}

theorem gives_reply {P : Message → Prop} (p : ClientProg MessageBlock) :
    Prog.Gives (Answer.reply <$> p) db (Creates P) := Prog.gives_map _ fun _ => trivial

theorem gives_check {P : Message → Prop} {c : Prop} [Decidable c] {msg : Str} {p : ClientProg Answer}
    (h : ¬c → Prog.Gives p db (Creates P)) : Prog.Gives (if c then pure (Answer.error msg) else p) db (Creates P) := by
  split
  · exact gives_pure trivial
  · next hc => exact h hc

theorem gives_actPasswd : Prog.Gives (actPasswd s cc mb) db (Creates Wellformed) := by
  refine gives_check fun _ => ?_
  refine gives_bind (reads_query _) fun newpass => ?_
  refine gives_check fun _ => ?_
  exact gives_pure cc.userId_lt

theorem gives_actIdPasswd : Prog.Gives (actIdPasswd s mb) db (Creates Wellformed) := by
  dsimp only [actIdPasswd]
  split
  · next userId huser =>
    refine gives_check fun _ => ?_
    refine gives_bind (reads_query _) fun newpass => ?_
    refine gives_check fun _ => ?_
    exact gives_pure (fromStringU32_lt huser)
  · exact gives_pure trivial

theorem typeOf_lt (name : Str) : Word (typeOf name) := by
  unfold typeOf
  cases htype : typemap.find? fun t => str t.1 = name with
  | none => exact word_zero
  | some t =>
    have hall : ∀ t ∈ typemap, t.2 < 4294967296 := by decide
    exact hall t (List.mem_of_find?_eq_some htype)

theorem gives_actAddUser (hdb : Bounded db) : Prog.Gives (actAddUser s cc mb) db (Creates Wellformed) := by
  refine gives_check fun _ => gives_check fun _ => gives_check fun _ => ?_
  refine gives_bind (reads_query _) fun groupname => ?_
  refine gives_check fun _ => gives_check fun _ => ?_
  refine gives_bind (reads_query _) fun taken => ?_
  refine gives_check fun _ => gives_check fun _ => ?_
  refine gives_bind_of (reads_nextId _) (gives_nextId hdb _) fun userId huser => ?_
  refine gives_check fun _ => ?_
  exact gives_pure ⟨huser, typeOf_lt _, toU32_lt _, cc.userId_lt⟩

theorem gives_actAddGroup (hdb : Bounded db) : Prog.Gives (actAddGroup s mb) db (Creates Wellformed) := by
  refine gives_check fun _ => ?_
  refine gives_bind (reads_query _) fun taken => ?_
  refine gives_check fun _ => gives_check fun _ => ?_
  refine gives_bind_of (reads_nextId _) (gives_nextId hdb _) fun groupId hgroup => ?_
  refine gives_check fun _ => ?_
  exact gives_pure hgroup

theorem gives_actAddServer (hdb : Bounded db) : Prog.Gives (actAddServer s mb) db (Creates Wellformed) := by
  refine gives_bind (reads_read _) fun self => ?_
  refine gives_check fun _ => gives_check fun _ => ?_
  refine gives_bind (reads_read _) fun taken => ?_
  refine gives_check fun _ => ?_
  refine gives_bind_of (reads_nextId _) (gives_nextId hdb _) fun serverId hserver => ?_
  refine gives_check fun _ => ?_
  exact gives_pure hserver

theorem gives_actSetbonus : Prog.Gives (actSetbonus mb) db (Creates Wellformed) := by
  dsimp only [actSetbonus]
  split
  · next userId huser =>
    split
    · next points hpoints =>
      split
      · next seconds hseconds =>
        exact gives_pure ⟨fromStringU32_lt huser, fromStringI32_range hpoints, fromStringI32_range hseconds⟩
      · exact gives_pure trivial
    · exact gives_pure trivial
  · exact gives_pure trivial

theorem gives_requestProblem : Prog.Gives (requestProblem mb) db fun r => ∀ id, r = .ok id → Word id := by
  dsimp only [requestProblem]
  split
  · refine gives_pure fun id hid => ?_
    cases hid
    exact word_zero
  · split
    · next probId hprob =>
      refine gives_bind (reads_query _) fun problems => ?_
      split
      · refine gives_pure fun id hid => ?_
        cases hid
        exact fromStringU32_lt hprob
      · exact gives_pure nofun
    · exact gives_pure nofun

theorem gives_actClarificationRequest (hdb : Bounded db) :
    Prog.Gives (actClarificationRequest s cc mb) db (Creates Wellformed) := by
  refine gives_bind_of reads_requestProblem gives_requestProblem fun problem hproblem => ?_
  cases problem with
  | error msg => exact gives_pure trivial
  | ok probId =>
    refine gives_bind_of (reads_nextId _) (gives_nextId hdb _) fun id hid => ?_
    refine gives_check fun _ => ?_
    refine gives_bind_of (reads_read _) (gives_getId hdb) fun self hself => ?_
    exact gives_pure ⟨word_one, hid, word_zero, cc.userId_lt, hproblem probId rfl, toU32_lt _, hself⟩

theorem gives_actClarification (hdb : Bounded db) : Prog.Gives (actClarification s cc mb) db (Creates Wellformed) := by
  dsimp only [actClarification]
  split
  · next requestId hrequest =>
    refine gives_bind (reads_query _) fun request => ?_
    refine gives_check fun _ => ?_
    refine gives_bind_of (reads_nextId _) (gives_nextId hdb _) fun id hid => ?_
    refine gives_check fun _ => ?_
    refine gives_bind_of (reads_read _) (gives_getId hdb) fun self hself => ?_
    refine gives_pure ⟨word_zero, fromStringU32_lt hrequest, hid, cc.userId_lt, ?_, toU32_lt _, hself⟩
    dsimp only [Word]
    split <;> decide
  · exact gives_pure trivial

theorem gives_actStartStop : Prog.Gives (actStartStop mb) db (Creates Wellformed) := by
  dsimp only [actStartStop]
  split
  · next action haction =>
    split
    · split
      · next groupId hgroup =>
        refine gives_pure ⟨?_, toU32_lt _, ?_⟩
        · unfold startStopGroup at hgroup
          split at hgroup
          · cases hgroup
            exact word_zero
          · exact fromStringU32_lt hgroup
        · unfold startStopAction timerStart timerStop at haction
          unfold Word
          grind
      · exact gives_pure trivial
    · exact gives_pure trivial
  · exact gives_pure trivial

section

variable {msg msg' : ProbMessage} {probId : Nat}

theorem gives_actSubmit (hdb : Bounded db) : Prog.Gives (actSubmit s cc mb) db (Creates Wellformed) := by
  dsimp only [actSubmit, submitSolution]
  refine gives_check fun _ => gives_check fun _ => ?_
  split
  · next probId hprob =>
    refine gives_bind (reads_query _) fun problems => ?_
    refine gives_check fun _ => ?_
    refine gives_bind (reads_query _) fun solved => ?_
    refine gives_bind (reads_query _) fun multiSubmit => ?_
    refine gives_check fun _ => ?_
    refine gives_bind (reads_query _) fun allowed => ?_
    refine gives_check fun _ => gives_check fun _ => ?_
    refine gives_bind_of (reads_nextId _) (gives_nextId hdb _) fun id hid => ?_
    refine gives_check fun _ => ?_
    refine gives_bind_of (reads_read _) (gives_getId hdb) fun self hself => ?_
    refine gives_bind reads_submissionContent fun content => ?_
    exact gives_pure ⟨hid, cc.userId_lt, fromStringU32_lt hprob, toU32_lt _, hself⟩
  · exact gives_pure trivial

theorem gives_actPlaceMark (hdb : Bounded db) : Prog.Gives (actPlaceMark s cc mb) db (Creates Wellformed) := by
  have hreject (msg : String) : Prog.Gives (reject msg) db (Creates Wellformed) :=
    gives_bind (Prog.reads_output _) fun _ => gives_pure trivial
  dsimp only [actPlaceMark]
  split
  · next submissionId hid =>
    refine gives_bind (reads_query _) fun refusal => ?_
    split
    · exact gives_pure trivial
    · split
      · next result hresult =>
        unfold placeMark
        split
        · refine gives_bind (Prog.reads_output _) fun _ => ?_
          refine gives_bind_of (reads_read _) (gives_getId hdb) fun self hself => ?_
          exact gives_pure ⟨fromStringU32_lt hid, cc.userId_lt, fromStringU32_lt hresult, toU32_lt _, hself⟩
        · exact gives_pure trivial
        · exact Prog.gives_raise _
      · exact hreject _
  · exact hreject _

theorem name_ne_nil_of_fileReg {desc start size name : Str} (h : fileReg desc = some (start, size, name)) :
    name ≠ [] := by
  unfold fileReg matchFile at h
  grind

theorem name_ne_nil_of_fileOf {attr desc : Str} {file : FileAttrib} (h : fileOf mb attr desc = .ok file) :
    file.name ≠ [] := by
  unfold fileOf at h
  split at h
  · cases h
  · next start size name hreg =>
    split at h
    · split at h
      · cases h
      · obtain ⟨data, -, hfile⟩ := Outcome.bind_eq_ok.mp h
        cases hfile
        exact name_ne_nil_of_fileReg hreg
    · cases h

theorem WordsOfProb.insertFile (h : WordsOfProb msg) (attr : Str) {file : FileAttrib}
    (hfile : file.name = [] → file.data = []) : WordsOfProb { msg with files := msg.files.insert attr file } where
  probId := h.probId
  updateTime := h.updateTime
  deps := h.deps
  ints := h.ints
  files := by
    intro attr' file' hget
    rw [Table.getElem?_insert_row] at hget
    split at hget
    · cases hget
      exact hfile
    · exact h.files attr' file' hget

theorem WordsOfProb.setFile (h : WordsOfProb msg) {attr value : Str}
    (hset : setFile mb probId msg attr value = .ok msg') : WordsOfProb msg' := by
  unfold ProblemManip.setFile at hset
  split at hset
  · split at hset
    · cases hset
    · cases hset
      exact h.insertFile attr fun _ => rfl
  · obtain ⟨file, hfile, hmsg⟩ := Outcome.bind_eq_ok.mp hset
    cases hmsg
    exact h.insertFile attr fun hname => absurd hname (name_ne_nil_of_fileOf hfile)

theorem WordsOfProb.setAttribute (h : WordsOfProb msg) {a : Attribute}
    (hset : setAttribute mb probId msg a = .ok msg') : WordsOfProb msg' := by
  unfold ProblemManip.setAttribute at hset
  split at hset
  · next value _ =>
    unfold setValue at hset
    split at hset
    · cases hset
      exact ⟨h.probId, h.updateTime, h.deps, h.ints, h.files⟩
    · split at hset
      · cases hset
      · next z hz =>
        cases hset
        refine ⟨h.probId, h.updateTime, h.deps, fun attr z' hget => ?_, h.files⟩
        rw [Table.getElem?_insert_row] at hget
        split at hget
        · cases hget
          exact fromStringI32_range hz
        · exact h.ints attr z' hget
    · exact h.setFile hset
    · split at hset
      · cases hset
        exact ⟨h.probId, h.updateTime, h.deps, h.ints, h.files⟩
      · cases hset
  · split at hset
    · cases hset
      exact h
    · cases hset

theorem WordsOfProb.setAttributes (as : List Attribute) (h : WordsOfProb msg)
    (hset : setAttributes mb probId as msg = .ok msg') : WordsOfProb msg' := by
  induction as generalizing msg with
  | nil =>
    cases hset
    exact h
  | cons a as ih =>
    obtain ⟨next, hnext, hrest⟩ := Outcome.bind_eq_ok.mp hset
    exact ih (h.setAttribute hnext) hrest

theorem wordsOfProb_newMessage (hprob : Word probId) (type : Str) : WordsOfProb (newMessage s mb probId type) where
  probId := hprob
  updateTime := toU32_lt _
  deps := by
    intro d hd
    obtain ⟨text, -, rfl⟩ := List.mem_map.mp hd
    exact toU32_lt _
  ints := by
    intro attr z hz
    simp [newMessage] at hz
  files := by
    intro attr file hfile
    simp [newMessage] at hfile

theorem gives_actSetProbAttrs (hdb : Bounded db) : Prog.Gives (actSetProbAttrs s mb) db (Creates Wellformed) := by
  have hnumber (probId : Nat) (hprob : Word probId) : Prog.Gives (problemNumber s probId) db Word := by
    unfold problemNumber
    split
    · exact gives_nextId hdb _
    · exact gives_pure hprob
  refine gives_bind (reads_query _) fun type => ?_
  refine gives_check fun _ => gives_check fun _ => ?_
  refine gives_bind_of (reads_problemNumber _) (hnumber _ (toU32_lt _)) fun number hprob => ?_
  split
  · next msg hwalk =>
    refine gives_pure ?_
    obtain ⟨msg', hset, hend⟩ := Outcome.bind_eq_ok.mp hwalk
    have hwords := (wordsOfProb_newMessage hprob type).setAttributes _ hset
    split at hend
    · cases hend
      exact hwords
    · cases hend
    · cases hend
  · exact gives_pure trivial
  · exact Prog.gives_raise _

end

/-- Every message that a handler creates is well formed. -/
theorem gives_answer (hdb : Bounded db) (action : ActionName) :
    Prog.Gives (answer s cc mb action) db (Creates Wellformed) := by
  cases action with
  | passwd => exact gives_actPasswd
  | idPasswd => exact gives_actIdPasswd
  | adduser => exact gives_actAddUser hdb
  | addgroup => exact gives_actAddGroup hdb
  | addserver => exact gives_actAddServer hdb
  | setbonus => exact gives_actSetbonus
  | clarificationrequest => exact gives_actClarificationRequest hdb
  | clarification => exact gives_actClarification hdb
  | startstop => exact gives_actStartStop
  | submit => exact gives_actSubmit hdb
  | setprobattrs => exact gives_actSetProbAttrs hdb
  | mark => exact gives_actPlaceMark hdb
  | _ => exact gives_reply _

end Abacus.Client.Created
