import Abacus.Peer.Process

/-! # The statements of each message

Which statements processing a message can execute, and which exceptions it can throw, whatever the tables
hold. Invariants follow from here one statement at a time.
-/

namespace Abacus.Peer.Statements

open Library Library.Bytes Database.Schema Database.Peer Database.Marks Database.Problems Database.People Peer.Classes
open Peer.Process
open Library.Prog (limits_pure limits_bind limits_output)

inductive SetsAttribute (m : ProbMessage) : Str → Str → Prop
  | int {attr : Str} {value : Int} (h : (attr, value) ∈ m.ints.toList) : SetsAttribute m attr (Misc.toString value)
  | string {attr value : Str} (h : (attr, value) ∈ m.strings.toList) : SetsAttribute m attr value
  | file {attr : Str} {f : FileAttrib} (h : (attr, f) ∈ m.files.toList) (hname : f.name ≠ []) :
      SetsAttribute m attr f.name

/-- The problems in dependencies that an update deletes, the attributes that it removes without naming them, and whether
it sets the type. -/
structure Scope where
  known : Nat → Prop
  doomed : Str → Prop
  retyped : Prop

def Scope.any : Scope where
  known _ := True
  doomed _ := True
  retyped := True

inductive Statement (scope : Scope) : Message → (Contest → Option Contest) → Prop
  | setBonus (m : BonusMessage) : Statement scope (.bonus m) fun c => some (setBonus c m.userId m.points m.seconds)
  | setPassword (m : PasswdMessage) : Statement scope (.passwd m) fun c => some (setPassword c m.userId m.newpass)
  | putClarificationRequest (m : ClarificationMessage) : m.request ≠ 0 →
      Statement scope (.clarification m) fun c => putClarificationRequest c m.clarificationRequestId
        { userId := m.userId, time := m.time, problemId := m.probId, text := m.text }
  | putClarification (m : ClarificationMessage) : m.request = 0 →
      Statement scope (.clarification m) fun c => putClarification c m.clarificationId
        { clarificationReqId := m.clarificationRequestId, userId := m.userId, time := m.time, isPublic := m.probId ≠ 0,
          text := m.text }
  | putMark (m : MarkMessage) :
      Statement scope (.mark m) fun c => some (putMark c m.submissionId m.marker m.time m.result m.comment m.serverId)
  | putMarkFile (m : MarkMessage) (file : MarkFile) : file ∈ m.files →
      Statement scope (.mark m) fun c => putMarkFile c m.submissionId m.marker file.name file.data
  | putSubmission (m : SubmissionMessage) :
      Statement scope (.submission m) fun c => putSubmission c m.submissionId
        { userId := m.userId, probId := m.probId, time := m.time, serverId := m.serverId, content := m.content,
          language := m.language }
  | addGroup (m : MessageCreateGroup) : Statement scope (.createGroup m) fun c => addGroup c m.groupId m.groupname
  | addUser (m : MessageCreateUser) :
      Statement scope (.createUser m) fun c => addUser c m.userId m.username m.friendlyname m.password m.type m.groupId
  | setServerAttribute (m : MessageCreateServer) (name value : Str) :
      Statement scope (.createServer m) fun c => some (setServerAttribute c m.serverId name value)
  | putStartStop (m : MsgStartStop) :
      Statement scope (.startStop m) fun c =>
        some (putStartStop c m.groupId (if m.action = Support.Timer.timerStart then .start else .stop) m.time)
  | setProblemType (m : ProbMessage) : scope.retyped →
      Statement scope (.prob m) fun c => some (setProblemType c m.probId m.type)
  | setProblemUpdateTime (m : ProbMessage) :
      Statement scope (.prob m) fun c => some (setProblemUpdateTime c m.probId m.updateTime)
  | deleteAttributeRow (m : ProbMessage) (attr : Str) :
      (ProbMessage.named m attr = false ∧ scope.doomed attr) ∨ (∃ value, SetsAttribute m attr value) →
      Statement scope (.prob m) fun c => some (deleteAttributeRow c m.probId attr)
  | deleteFileDataRow (m : ProbMessage) (attr : Str) :
      (ProbMessage.named m attr = false ∧ scope.doomed attr) ∨ (∃ value, SetsAttribute m attr value) →
      Statement scope (.prob m) fun c => some (deleteFileDataRow c m.probId attr)
  | insertAttributeRow (m : ProbMessage) (attr value : Str) : SetsAttribute m attr value →
      Statement scope (.prob m) fun c => insertAttributeRow c m.probId attr value
  | insertFileDataRow (m : ProbMessage) (attr : Str) (f : FileAttrib) : (attr, f) ∈ m.files.toList → f.name ≠ [] →
      Statement scope (.prob m) fun c => insertFileDataRow c m.probId attr f.data
  | delProblemDependency (m : ProbMessage) (d : Nat) : d ∉ m.deps → scope.known d →
      Statement scope (.prob m) fun c => some (delProblemDependency c m.probId d)
  | addProblemDependency (m : ProbMessage) (d : Nat) : d ∈ m.deps →
      Statement scope (.prob m) fun c => addProblemDependency c m.probId d

inductive PeerStatement : Message → (PeerTables → Option PeerTables) → Prop
  | insertServer (m : MessageCreateServer) : PeerStatement (.createServer m) fun t => insertServer t m.serverId m.name
  | insertNoAck (m : MessageCreateServer) :
      PeerStatement (.createServer m) fun t => insertNoAck t (serverBatch t m.serverId)

def Executes (scope : Scope) (m : Message) (w : Db → Option Db) : Prop :=
  (∃ f, Statement scope m f ∧ w = onContest f) ∨ ∃ f, PeerStatement m f ∧ w = onPeer f

/-- Only messages about a submission or a clarification can throw. -/
inductive Throws : Message → Fault → Prop
  | mark (m : MarkMessage) : Throws (.mark m) .badString
  | submission (m : SubmissionMessage) : Throws (.submission m) .badString
  | reply (m : ClarificationMessage) (fault : Fault) : m.request = 0 → Throws (.clarification m) fault

abbrev Limited {α : Type} (I : Db → Prop) (scope : Scope) (m : Message) (p : DbProg α) : Prop :=
  Prog.Limits I (Executes scope m) (Throws m) p

section

variable {I : Db → Prop} {scope : Scope} {m : Message} {W : (Db → Option Db) → Prop} {E : Fault → Prop} {α : Type}

theorem limits_writeContest {f : Contest → Option Contest} (h : Statement scope m f) :
    Prog.Limits I (Executes scope m) E (writeContest f) :=
  Prog.limits_write (.inl ⟨f, h, rfl⟩)

theorem limits_setContest {g : Contest → Contest} (h : Statement scope m fun c => some (g c)) :
    Prog.Limits I (Executes scope m) E (setContest g) :=
  Prog.limits_set (.inl ⟨_, h, rfl⟩)

theorem limits_readContest (g : Contest → α) : Prog.Limits I W E (readContest g) := fun _ _ => trivial

theorem limits_orRaise {fault : Fault} (h : E fault) (a : Option α) : Prog.Limits I W E (orRaise fault a) := by
  cases a with
  | none => exact h
  | some a => trivial

theorem limits_putFiles {m : MarkMessage} {files : List MarkFile} (h : ∀ file ∈ files, file ∈ m.files) :
    Limited I scope (.mark m) (MarkMessage.putFiles m.submissionId m.marker files) := by
  induction files with
  | nil => exact limits_pure ()
  | cons file files ih =>
    refine limits_bind (limits_writeContest (.putMarkFile m file (h file List.mem_cons_self))) fun _ => ih ?_
    exact fun file' hfile' => h file' (List.mem_cons_of_mem _ hfile')

theorem limits_announce (env : Env) (m : MarkMessage) (h : E .badString) :
    Prog.Limits I W E (MarkMessage.announce env m) := by
  refine limits_bind (limits_readContest _) fun mb => ?_
  refine limits_bind (limits_orRaise h mb) fun mb => limits_bind (limits_readContest _) fun userId => ?_
  refine limits_bind (limits_output _) fun _ => ?_
  split
  · exact limits_bind (limits_output _) fun _ => limits_pure true
  · exact limits_pure true

theorem limits_mark (env : Env) (m : MarkMessage) :
    Limited I scope (.mark m) (MarkMessage.intProcess env m) :=
  limits_bind (limits_setContest (.putMark m)) fun _ =>
    limits_bind (limits_putFiles fun _ h => h) fun _ => limits_announce env m (.mark m)

theorem limits_bonus (m : BonusMessage) :
    Limited I scope (.bonus m) (BonusMessage.intProcess m) :=
  limits_bind (limits_setContest (.setBonus m)) fun _ =>
    limits_bind (limits_output _) fun _ => limits_pure true

theorem limits_passwd (m : PasswdMessage) :
    Limited I scope (.passwd m) (PasswdMessage.intProcess m) :=
  limits_bind (limits_setContest (.setPassword m)) fun _ => limits_pure true

theorem limits_processRequest (m : ClarificationMessage) (hrequest : m.request ≠ 0) :
    Limited I scope (.clarification m) (ClarificationMessage.processRequest m) := by
  refine limits_bind (limits_writeContest (.putClarificationRequest m hrequest)) fun stored => ?_
  split
  · exact limits_pure false
  refine limits_bind (limits_readContest _) fun req => ?_
  split
  · exact limits_pure false
  · exact limits_bind (limits_output _) fun _ => limits_pure true

theorem limits_processReply (m : ClarificationMessage) (hreply : m.request = 0) :
    Limited I scope (.clarification m) (ClarificationMessage.processReply m) := by
  refine limits_bind (limits_readContest _) fun req => ?_
  refine limits_bind (limits_writeContest (.putClarification m hreply)) fun stored => ?_
  split
  · exact limits_pure false
  refine limits_bind (limits_readContest _) fun reply => ?_
  refine limits_bind (limits_orRaise (.reply m _ hreply) _) fun reply => ?_
  rw [ClarificationMessage.announce]
  split
  · exact limits_pure false
  dsimp only
  split
  · exact limits_bind (limits_output _) fun _ => limits_pure true
  · refine limits_bind (limits_orRaise (.reply m _ hreply) _) fun userId => ?_
    exact limits_bind (limits_output _) fun _ => limits_pure true

theorem limits_clarification (m : ClarificationMessage) :
    Limited I scope (.clarification m) (ClarificationMessage.intProcess m) := by
  unfold ClarificationMessage.intProcess
  split
  · next hrequest => exact limits_processRequest m hrequest
  · next hreply => exact limits_processReply m (not_not.mp hreply)

theorem limits_fail (m : SubmissionMessage) : Prog.Limits I W E (SubmissionMessage.fail m) :=
  limits_bind (limits_readContest _) fun _ => limits_bind (limits_output _) fun _ => limits_pure false

theorem limits_dispatch (env : Env) (m : SubmissionMessage) (listed : Bool) :
    Prog.Limits I W E (SubmissionMessage.dispatch env m listed) := by
  have hrest : Prog.Limits I W E (if listed then pure true else SubmissionMessage.fail m) := by
    cases listed with
    | true => exact limits_pure true
    | false => exact limits_fail m
  refine limits_bind (limits_readContest _) fun marks => ?_
  dsimp only
  split
  · exact limits_bind (limits_output _) fun _ => hrest
  · exact hrest

theorem limits_notify (env : Env) (m : SubmissionMessage) (h : E .badString) :
    Prog.Limits I W E (SubmissionMessage.notify env m) := by
  refine limits_bind (limits_readContest _) fun s => ?_
  split
  · exact limits_dispatch env m false
  · refine limits_bind ?_ fun _ => limits_dispatch env m true
    refine limits_bind (limits_readContest _) fun mb => ?_
    exact limits_bind (limits_orRaise h mb) fun _ => limits_output _

theorem limits_submission (env : Env) (m : SubmissionMessage) :
    Limited I scope (.submission m) (SubmissionMessage.intProcess env m) := by
  refine limits_bind (limits_writeContest (.putSubmission m)) fun stored => ?_
  split
  · exact limits_fail m
  · exact limits_notify env m (.submission m)

theorem limits_createGroup (env : Env) (m : MessageCreateGroup) :
    Limited I scope (.createGroup m) (MessageCreateGroup.intProcess env m) :=
  limits_bind (limits_writeContest (.addGroup m)) fun added =>
    limits_bind (limits_output _) fun _ => limits_pure added

theorem limits_createUser (m : MessageCreateUser) :
    Limited I scope (.createUser m) (MessageCreateUser.intProcess m) := by
  refine limits_bind (limits_writeContest (.addUser m)) fun added => ?_
  dsimp only
  split
  · exact limits_bind (limits_output _) fun _ => limits_pure added
  · exact limits_pure added

theorem limits_setAttributes (m : MessageCreateServer) (attribs : List (Str × Str)) :
    Limited I scope (.createServer m)
      (MessageCreateServer.setAttributes m.serverId attribs) := by
  induction attribs with
  | nil => exact limits_pure ()
  | cons attrib attribs ih => exact limits_bind (limits_setContest (.setServerAttribute m _ _)) fun _ => ih

theorem limits_bookMessages (env : Env) (m : MessageCreateServer) :
    Prog.Limits I (Executes scope (.createServer m)) E (MessageCreateServer.bookMessages env m) := by
  rw [MessageCreateServer.bookMessages]
  split
  · exact limits_bind (Prog.limits_write (.inr ⟨_, .insertNoAck m, rfl⟩)) fun _ => limits_pure ()
  · exact limits_pure ()

theorem limits_createServer (env : Env) (m : MessageCreateServer) :
    Limited I scope (.createServer m) (MessageCreateServer.intProcess env m) := by
  refine limits_bind (Prog.limits_write (.inr ⟨_, .insertServer m, rfl⟩)) fun added => ?_
  split
  · exact limits_pure false
  refine limits_bind (limits_bookMessages env m) fun _ => limits_bind (limits_setAttributes m _) fun _ => ?_
  exact limits_bind (limits_output _) fun _ => limits_pure true

theorem limits_scheduleEnds (now : Int)
    (timer : Support.Timer.TimerSupportModule) (groupId : Nat) (groups : List Nat) (done : List Int) :
    Prog.Limits I W E (MsgStartStop.scheduleEnds now timer groupId groups done) := by
  induction groups generalizing done with
  | nil => exact limits_pure ()
  | cons g groups ih =>
    rw [MsgStartStop.scheduleEnds]
    split
    · exact limits_bind (limits_output _) fun _ => ih _
    · exact ih _

theorem limits_startStop (env : Env) (m : MsgStartStop) :
    Limited I scope (.startStop m) (MsgStartStop.intProcess env m) := by
  have hrest : Limited I scope (.startStop m) (do
      let groups ← readContest fun c => (groupList c).map Prod.fst
      MsgStartStop.scheduleEnds env.now
        (env.timer.addEvent { time := m.time, groupId := m.groupId, action := m.action }) m.groupId groups []
      return true) :=
    limits_bind (limits_readContest _) fun groups =>
      limits_bind (limits_scheduleEnds _ _ _ groups []) fun _ => limits_pure true
  refine limits_bind (limits_setContest (.putStartStop m)) fun _ => limits_bind (limits_output _) fun _ => ?_
  dsimp only
  split
  · exact limits_bind (limits_output _) fun _ => hrest
  · refine limits_bind (limits_output _) fun _ => limits_bind (limits_output _) fun _ => ?_
    exact limits_bind (limits_output _) fun _ => hrest

section

variable {m : ProbMessage}

theorem limits_all {p q : DbProg Bool} (hp : Prog.Limits I W E p) (hq : Prog.Limits I W E q) :
    Prog.Limits I W E (ProbMessage.all p q) :=
  limits_bind hp fun _ => limits_bind hq fun _ => limits_pure _

theorem limits_delProblemAttribute {attr : Str}
    (h : (ProbMessage.named m attr = false ∧ scope.doomed attr) ∨ ∃ value, SetsAttribute m attr value) :
    Limited I scope (.prob m) (ProbMessage.delProblemAttribute m.probId attr) :=
  limits_bind (limits_setContest (.deleteAttributeRow m attr h)) fun _ =>
    limits_setContest (.deleteFileDataRow m attr h)

theorem limits_setProblemAttribute {attr value : Str} (h : SetsAttribute m attr value) :
    Limited I scope (.prob m) (ProbMessage.setProblemAttribute m.probId attr value) :=
  limits_bind (limits_delProblemAttribute (.inr ⟨value, h⟩)) fun _ =>
    limits_writeContest (.insertAttributeRow m attr value h)

theorem limits_removeAttributes {attrs : List Str} (h : ∀ attr ∈ attrs, scope.doomed attr) :
    Limited I scope (.prob m) (ProbMessage.removeAttributes m attrs) := by
  induction attrs with
  | nil => exact limits_pure ()
  | cons attr attrs ih =>
    have hrest := ih fun attr' hattr' => h attr' (List.mem_cons_of_mem _ hattr')
    rw [ProbMessage.removeAttributes]
    cases hnamed : ProbMessage.named m attr with
    | true => exact hrest
    | false =>
      refine limits_bind (limits_delProblemAttribute (.inl ⟨hnamed, ?_⟩)) fun _ => hrest
      exact h attr List.mem_cons_self

theorem limits_setFiles {files : List (Str × FileAttrib)} (h : ∀ f ∈ files, f ∈ m.files.toList) :
    Limited I scope (.prob m) (ProbMessage.setFiles m.probId files) := by
  induction files with
  | nil => exact limits_pure true
  | cons f files ih =>
    obtain ⟨attr, f⟩ := f
    have hf := h (attr, f) List.mem_cons_self
    refine limits_all ?_ (ih fun f' hf' => h f' (List.mem_cons_of_mem _ hf'))
    split
    · next hname =>
      refine limits_bind (limits_setProblemAttribute (.file hf hname)) fun ok => ?_
      split
      · exact limits_pure false
      · exact limits_writeContest (.insertFileDataRow m attr f hf hname)
    · exact limits_pure true

theorem limits_setInts {ints : List (Str × Int)} (h : ∀ a ∈ ints, a ∈ m.ints.toList) :
    Limited I scope (.prob m) (ProbMessage.setInts m.probId ints) := by
  induction ints with
  | nil => exact limits_pure true
  | cons a ints ih =>
    refine limits_all (limits_setProblemAttribute (.int (h a List.mem_cons_self))) (ih fun a' ha' => ?_)
    exact h a' (List.mem_cons_of_mem _ ha')

theorem limits_setStrings {strings : List (Str × Str)} (h : ∀ a ∈ strings, a ∈ m.strings.toList) :
    Limited I scope (.prob m) (ProbMessage.setStrings m.probId strings) := by
  induction strings with
  | nil => exact limits_pure true
  | cons a strings ih =>
    refine limits_all (limits_setProblemAttribute (.string (h a List.mem_cons_self))) (ih fun a' ha' => ?_)
    exact h a' (List.mem_cons_of_mem _ ha')

theorem limits_removeDeps {olds : List Nat} (h : ∀ d ∈ olds, scope.known d) :
    Limited I scope (.prob m) (ProbMessage.removeDeps m olds) := by
  induction olds with
  | nil => exact limits_pure ()
  | cons d olds ih =>
    have hrest := ih fun d' hd' => h d' (List.mem_cons_of_mem _ hd')
    rw [ProbMessage.removeDeps]
    split
    · next hd =>
      exact limits_bind (limits_setContest (.delProblemDependency m d hd (h d List.mem_cons_self))) fun _ => hrest
    · exact hrest

theorem limits_addDeps (olds : List Nat) {deps : List Nat} (h : ∀ d ∈ deps, d ∈ m.deps) :
    Limited I scope (.prob m) (ProbMessage.addDeps m.probId olds deps) := by
  induction deps with
  | nil => exact limits_pure ()
  | cons d deps ih =>
    have hrest := ih fun d' hd' => h d' (List.mem_cons_of_mem _ hd')
    rw [ProbMessage.addDeps]
    split
    · refine limits_bind (limits_writeContest (.addProblemDependency m d (h d List.mem_cons_self))) fun _ => hrest
    · exact hrest

theorem limits_setType (m : ProbMessage) (exType : Str) (h : exType ≠ m.type → scope.retyped) :
    Limited I scope (.prob m) (ProbMessage.setType m exType) := by
  unfold ProbMessage.setType
  split
  · next hne => exact limits_setContest (.setProblemType m (h hne))
  · exact limits_pure ()

theorem limits_setProblemAttributes (m : ProbMessage) :
    Limited I scope (.prob m) (ProbMessage.setAttributes m) :=
  limits_all (limits_setFiles fun _ h => h) (limits_all (limits_setInts fun _ h => h) (limits_setStrings fun _ h => h))

theorem limits_setUpdateTime (m : ProbMessage) (ok : Bool) :
    Limited I scope (.prob m) (ProbMessage.setUpdateTime m ok) := by
  refine limits_bind (limits_setContest (.setProblemUpdateTime m)) fun _ => ?_
  cases ok with
  | true => exact limits_setContest (.setProblemUpdateTime m)
  | false => exact limits_pure ()

theorem limits_setDependencies (m : ProbMessage) (hknown : ∀ db, I db → ∀ d ∈ db.contest.problem, scope.known d) :
    Limited I scope (.prob m) (ProbMessage.setDependencies m) := by
  refine Prog.limits_read_bind fun db hdb => ?_
  refine limits_bind (limits_removeDeps fun d hd => ?_) fun _ => limits_addDeps _ fun _ h => h
  obtain ⟨⟨p, d'⟩, hrow, rfl⟩ := List.mem_map.mp hd
  exact hknown db hdb d' (of_decide_eq_true (List.mem_filter.mp hrow).2).2

theorem limits_apply (m : ProbMessage) (exType : Str) (hretyped : exType ≠ m.type → scope.retyped)
    (hknown : ∀ db, I db → ∀ d ∈ db.contest.problem, scope.known d) :
    Limited I scope (.prob m) (ProbMessage.apply m exType) :=
  limits_bind (limits_setType m exType hretyped) fun _ => limits_bind (limits_setProblemAttributes m) fun ok =>
    limits_bind (limits_setUpdateTime m ok) fun _ => limits_bind (limits_setDependencies m hknown) fun _ =>
      limits_pure ok

theorem limits_prob (m : ProbMessage) :
    Limited I .any (.prob m) (ProbMessage.intProcess m) := by
  have happly : ∀ exType, Limited I .any (.prob m) (ProbMessage.apply m exType) :=
    fun exType => limits_apply m exType (fun _ => trivial) fun _ _ _ _ => trivial
  rw [ProbMessage.intProcess]
  split
  · exact limits_pure false
  refine limits_bind (limits_readContest _) fun exType => ?_
  split
  · refine limits_bind (limits_readContest _) fun updated => ?_
    split
    · exact limits_pure true
    refine limits_bind (limits_readContest _) fun attrs => ?_
    exact limits_bind (limits_removeAttributes fun _ _ => trivial) fun _ => happly exType
  · exact happly exType

end

theorem limits_intProcess (env : Env) (m : Message) :
    Limited I .any m (intProcess env m) :=
  match m with
  | .createServer m => limits_createServer env m
  | .createUser m => limits_createUser m
  | .createGroup m => limits_createGroup env m
  | .passwd m => limits_passwd m
  | .prob m => limits_prob m
  | .submission m => limits_submission env m
  | .startStop m => limits_startStop env m
  | .mark m => limits_mark env m
  | .clarification m => limits_clarification m
  | .bonus m => limits_bonus m

end

section

variable {J : Contest → Prop} {scope : Scope} {m : Message}

theorem keeps_executes (hJ : ∀ f, Statement scope m f → ∀ c c', J c → f c = some c' → J c') (w : Db → Option Db)
    (hw : Executes scope m w) (d d' : Db) (hd : J d.contest) (h : w d = some d') : J d'.contest := by
  obtain ⟨f, hf, rfl⟩ | ⟨f, -, rfl⟩ := hw
  · obtain ⟨c, hc, rfl⟩ := Option.map_eq_some_iff.mp h
    exact hJ f hf d.contest c hd hc
  · obtain ⟨t, -, rfl⟩ := Option.map_eq_some_iff.mp h
    exact hd

theorem contest_final_intProcess (hJ : ∀ f, Statement .any m f → ∀ c c', J c → f c = some c' → J c') (env : Env)
    {db : Db} (hdb : J db.contest) : J ((intProcess env m).final db).contest :=
  Prog.Limits.final (I := fun db : Db => J db.contest) (keeps_executes hJ) (limits_intProcess env m) hdb

theorem peerMessage_of_executes {scope : Scope} {t : Table MessageKey PeerMessage} (w : Db → Option Db)
    (hw : Executes scope m w) (d d' : Db) (hd : d.peer.peerMessage = t) (h : w d = some d') :
    d'.peer.peerMessage = t := by
  obtain ⟨f, -, rfl⟩ | ⟨f, hf, rfl⟩ := hw
  · obtain ⟨c, -, rfl⟩ := Option.map_eq_some_iff.mp h
    exact hd
  · obtain ⟨t', ht', rfl⟩ := Option.map_eq_some_iff.mp h
    cases hf with
    | insertServer m =>
      obtain ⟨server, -, rfl⟩ := Option.map_eq_some_iff.mp ht'
      exact hd
    | insertNoAck m =>
      dsimp only [insertNoAck] at ht'
      split at ht'
      · cases ht'
        exact hd
      · cases ht'

theorem peerMessage_final (env : Env) (m : Message) (db : Db) :
    ((intProcess env m).final db).peer.peerMessage = db.peer.peerMessage :=
  Prog.Limits.final (I := fun d : Db => d.peer.peerMessage = db.peer.peerMessage) peerMessage_of_executes
    (limits_intProcess env m) rfl

theorem peerMessage_crashAfter (env : Env) (m : Message) (k : Nat) (db : Db) :
    ((intProcess env m).crashAfter k db).peer.peerMessage = db.peer.peerMessage :=
  Prog.Limits.crashAfter (I := fun d : Db => d.peer.peerMessage = db.peer.peerMessage) peerMessage_of_executes
    (limits_intProcess env m) k rfl

end

end Abacus.Peer.Statements
