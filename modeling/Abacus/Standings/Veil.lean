import Abacus.Library.Lockstep
import Abacus.Standings.Live

/-! # Databases that differ in hidden marks

Databases that differ in some marks stay so while the same messages are processed, as the only message that reads
marks only tells the clients what it reads. The contestants get the same rows from both.
-/

namespace Abacus.Standings.Veil

open Library Library.Bytes Database.Schema Database.Marks Database.Problems Database.People Database.Peer
open Support.Timer Client.Block Peer.Classes
open Peer.Process hiding Arrival
open Update Rows Score Incremental Messages

def withMarks (c : Contest) (submissionMark : Table (Nat × Nat) SubmissionMark) : Contest := { c with submissionMark }

/-- The contests differ only in the marks of the submissions in `hidden`. -/
structure Veiled (hidden : Set Nat) (c c' : Contest) : Prop where
  tables : c' = withMarks c c'.submissionMark
  marks : ∀ id ∉ hidden, ∀ marker : Nat, c'.submissionMark[(id, marker)]? = c.submissionMark[(id, marker)]?

theorem Veiled.refl (hidden : Set Nat) (c : Contest) : Veiled hidden c c := ⟨rfl, fun _ _ _ => rfl⟩

variable {hidden : Set Nat} {c c' : Contest} {α : Type}

theorem Veiled.read (h : Veiled hidden c c') {g : Contest → α} (hg : ∀ c t, g (withMarks c t) = g c) : g c' = g c := by
  rw [h.tables, hg]

theorem Veiled.write (h : Veiled hidden c c') {w : Contest → Option Contest}
    (hw : ∀ c t, w (withMarks c t) = (w c).map fun c => withMarks c t) : Option.Rel (Veiled hidden) (w c) (w c') := by
  have hsame := hw c c.submissionMark
  change w c = (w c).map fun c₁ => withMarks c₁ c.submissionMark at hsame
  rw [h.tables, hw]
  cases hc : w c with
  | none => exact .none
  | some c₁ =>
    rw [hc, Option.map_some] at hsame
    have hmarks : c₁.submissionMark = c.submissionMark := by
      rw [Option.some.inj hsame]
      rfl
    refine .some ⟨rfl, fun id hid marker => ?_⟩
    rw [hmarks]
    exact h.marks id hid marker

section

structure SameDb (hidden : Set Nat) (db db' : Db) : Prop where
  peer : db'.peer = db.peer
  contest : Veiled hidden db.contest db'.contest

def Notice.isFinal (n : Notice) : Prop := ∃ seeAll, n.test = audience true seeAll

/-- The lists differ at most in notices at their end that are about the final standings. -/
def SameNews (ns ns' : List Notice) : Prop := ∃ common final final', ns = common ++ final ∧ ns' = common ++ final' ∧
  (∀ n ∈ final, Notice.isFinal n) ∧ ∀ n ∈ final', Notice.isFinal n

theorem SameNews.refl (ns : List Notice) : SameNews ns ns :=
  ⟨ns, [], [], (List.append_nil ns).symm, (List.append_nil ns).symm, List.forall_mem_nil _, List.forall_mem_nil _⟩

structure SameMemory (memory memory' : Memory) : Prop where
  timer : memory'.timer = memory.timer
  board : memory'.cache.contestant = memory.cache.contestant
  news : SameNews memory.sent memory'.sent

variable {host : Host} {env : Env} {now : Int}

def Blind (host : Host) (now : Int) (hidden : Set Nat) (p : DbProg α) : Prop :=
  Prog.Lockstep (act host now) (SameDb hidden) SameMemory p p

theorem blind_readContest {g : Contest → α} (hg : ∀ c t, g (withMarks c t) = g c) :
    Blind host now hidden (readContest g) :=
  Prog.lockstep_read fun _ _ h => h.contest.read hg

theorem blind_writeContest {w : Contest → Option Contest}
    (hw : ∀ c t, w (withMarks c t) = (w c).map fun c => withMarks c t) : Blind host now hidden (writeContest w) := by
  apply Prog.lockstep_write
  intro db db' h
  have hrel := h.contest.write hw
  unfold onContest
  generalize w db.contest = x at hrel
  generalize w db'.contest = y at hrel
  cases hrel with
  | none => exact .none
  | some hc => exact .some ⟨h.peer, hc⟩

theorem blind_setContest {w : Contest → Contest} (hw : ∀ c t, w (withMarks c t) = withMarks (w c) t) :
    Blind host now hidden (setContest w) := by
  apply Prog.lockstep_set
  intro db db' h
  have hrel : Option.Rel (Veiled hidden) (some (w db.contest)) (some (w db'.contest)) :=
    h.contest.write (w := fun c => some (w c)) fun c t => congrArg some (hw c t)
  exact ⟨h.peer, Option.rel_some_some.mp hrel⟩

theorem blind_writePeer (w : PeerTables → Option PeerTables) : Blind host now hidden (Prog.write (onPeer w)) := by
  apply Prog.lockstep_write
  intro db db' h
  unfold onPeer
  rw [h.peer]
  cases w db.peer with
  | none => exact .none
  | some t => exact .some ⟨rfl, h.contest⟩

theorem blind_pure (a : α) : Blind host now hidden (pure a) := Prog.lockstep_pure a

theorem blind_bind {β : Type} {p : DbProg α} {f : α → DbProg β} (hp : Blind host now hidden p)
    (hf : ∀ a, Blind host now hidden (f a)) : Blind host now hidden (p >>= f) := Prog.lockstep_bind hp hf

theorem blind_orRaise (fault : Fault) (o : Option α) : Blind host now hidden (orRaise fault o) := by
  cases o with
  | none => exact Prog.lockstep_raise fault
  | some a => exact blind_pure a

theorem blind_output {o : Output} (h : ∀ db memory, act host now db o memory = some memory) :
    Blind host now hidden (Prog.output o) := Prog.lockstep_output h

theorem blind_passwd (m : PasswdMessage) : Blind host now hidden (PasswdMessage.intProcess m) :=
  blind_bind (blind_setContest fun _ _ => rfl) fun _ => blind_pure true

theorem blind_processRequest (m : ClarificationMessage) :
    Blind host now hidden (ClarificationMessage.processRequest m) := by
  refine blind_bind (blind_writeContest fun _ _ => by simp [putClarificationRequest, withMarks, Function.comp_def])
    fun stored => ?_
  split
  · exact blind_pure false
  refine blind_bind (blind_readContest fun _ _ => rfl) fun req => ?_
  split
  · exact blind_pure false
  · exact blind_bind (blind_output fun _ _ => rfl) fun _ => blind_pure true

theorem blind_processReply (m : ClarificationMessage) :
    Blind host now hidden (ClarificationMessage.processReply m) := by
  refine blind_bind (blind_readContest fun _ _ => rfl) fun req => ?_
  refine blind_bind (blind_writeContest fun _ _ => by simp [putClarification, withMarks, Function.comp_def])
    fun stored => ?_
  split
  · exact blind_pure false
  refine blind_bind (blind_readContest fun _ _ => rfl) fun reply => ?_
  refine blind_bind (blind_orRaise _ _) fun reply => ?_
  rw [ClarificationMessage.announce]
  split
  · exact blind_pure false
  dsimp only
  split
  · exact blind_bind (blind_output fun _ _ => rfl) fun _ => blind_pure true
  · refine blind_bind (blind_orRaise _ _) fun userId => ?_
    exact blind_bind (blind_output fun _ _ => rfl) fun _ => blind_pure true

theorem blind_fail (m : SubmissionMessage) : Blind host now hidden (SubmissionMessage.fail m) :=
  blind_bind (blind_readContest fun _ _ => rfl) fun _ =>
    blind_bind (blind_output fun _ _ => rfl) fun _ => blind_pure false

theorem blind_dispatch (m : SubmissionMessage) (listed : Bool) :
    Blind host now hidden (SubmissionMessage.dispatch env m listed) := by
  have hrest : Blind host now hidden (if listed then pure true else SubmissionMessage.fail m) := by
    cases listed with
    | true => exact blind_pure true
    | false => exact blind_fail m
  refine blind_bind (blind_readContest fun _ _ => rfl) fun marks => ?_
  dsimp only
  split
  · exact blind_bind (blind_output fun _ _ => rfl) fun _ => hrest
  · exact hrest

theorem blind_announce (m : SubmissionMessage) (s : AttributeList) :
    Blind host now hidden (SubmissionMessage.announce env m s) := by
  intro db db' memory memory' hdb hmemory
  have hsome :=
    isSome_submissionToMB env env db.contest db'.contest s (MessageBlock.ofAction (str "updatesubmissions")) []
  simp only [SubmissionMessage.announce, readContest, Prog.perform_read_bind]
  generalize submissionToMB env db.contest s (MessageBlock.ofAction (str "updatesubmissions")) [] = x at hsome
  generalize submissionToMB env db'.contest s (MessageBlock.ofAction (str "updatesubmissions")) [] = y at hsome
  cases x with
  | none =>
    cases y with
    | none => exact .some ⟨hdb, hmemory, rfl⟩
    | some mb => cases hsome
  | some mb =>
    cases y with
    | none => cases hsome
    | some mb' => exact .some ⟨hdb, hmemory, rfl⟩

theorem blind_submission (m : SubmissionMessage) : Blind host now hidden (SubmissionMessage.intProcess env m) := by
  refine blind_bind (blind_writeContest fun _ _ => by simp [putSubmission, withMarks, Function.comp_def])
    fun stored => ?_
  split
  · exact blind_fail m
  refine blind_bind (blind_readContest fun _ _ => rfl) fun s => ?_
  split
  · exact blind_dispatch m false
  · exact blind_bind (blind_announce m s) fun _ => blind_dispatch m true

theorem blind_createGroup (m : MessageCreateGroup) : Blind host now hidden (MessageCreateGroup.intProcess env m) :=
  blind_bind (blind_writeContest fun _ _ => by simp [addGroup, withMarks, Function.comp_def]) fun added =>
    blind_bind (blind_output fun _ _ => rfl) fun _ => blind_pure added

theorem blind_createUser (m : MessageCreateUser) : Blind host now hidden (MessageCreateUser.intProcess m) := by
  refine blind_bind (blind_writeContest fun _ _ => by simp [addUser, withMarks, Function.comp_def]) fun added => ?_
  dsimp only
  split
  · exact blind_bind (blind_output fun _ _ => rfl) fun _ => blind_pure added
  · exact blind_pure added

theorem blind_setServerAttributes (serverId : Nat) (attribs : List (Str × Str)) :
    Blind host now hidden (MessageCreateServer.setAttributes serverId attribs) := by
  induction attribs with
  | nil => exact blind_pure ()
  | cons attrib attribs ih => exact blind_bind (blind_setContest fun _ _ => rfl) fun _ => ih

theorem blind_createServer (m : MessageCreateServer) :
    Blind host now hidden (MessageCreateServer.intProcess env m) := by
  refine blind_bind (blind_writePeer _) fun added => ?_
  split
  · exact blind_pure false
  have hbook : Blind host now hidden (MessageCreateServer.bookMessages env m) := by
    rw [MessageCreateServer.bookMessages]
    split
    · exact blind_bind (blind_writePeer _) fun _ => blind_pure ()
    · exact blind_pure ()
  refine blind_bind hbook fun _ => blind_bind (blind_setServerAttributes m.serverId _) fun _ => ?_
  exact blind_bind (blind_output fun _ _ => rfl) fun _ => blind_pure true

section

variable (problemId : Nat)

theorem blind_all {p q : DbProg Bool} (hp : Blind host now hidden p) (hq : Blind host now hidden q) :
    Blind host now hidden (ProbMessage.all p q) :=
  blind_bind hp fun _ => blind_bind hq fun _ => blind_pure _

theorem blind_delProblemAttribute (attr : Str) :
    Blind host now hidden (ProbMessage.delProblemAttribute problemId attr) :=
  blind_bind (blind_setContest fun _ _ => rfl) fun _ => blind_setContest fun _ _ => rfl

theorem blind_setProblemAttribute (attr value : Str) :
    Blind host now hidden (ProbMessage.setProblemAttribute problemId attr value) :=
  blind_bind (blind_delProblemAttribute problemId attr) fun _ =>
    blind_writeContest fun _ _ => by simp [insertAttributeRow, withMarks, Function.comp_def]

theorem blind_setProblemFile (attr fname data : Str) :
    Blind host now hidden (ProbMessage.setProblemFile problemId attr fname data) := by
  refine blind_bind (blind_setProblemAttribute problemId attr fname) fun ok => ?_
  split
  · exact blind_pure false
  · exact blind_writeContest fun _ _ => by simp [insertFileDataRow, withMarks, Function.comp_def]

theorem blind_removeAttributes (m : ProbMessage) (attrs : List Str) :
    Blind host now hidden (ProbMessage.removeAttributes m attrs) := by
  induction attrs with
  | nil => exact blind_pure ()
  | cons attr attrs ih =>
    rw [ProbMessage.removeAttributes]
    dsimp only
    split
    · exact blind_bind (blind_delProblemAttribute m.probId attr) fun _ => ih
    · exact ih

theorem blind_setFiles (files : List (Str × FileAttrib)) :
    Blind host now hidden (ProbMessage.setFiles problemId files) := by
  induction files with
  | nil => exact blind_pure true
  | cons f files ih =>
    refine blind_all ?_ ih
    split
    · exact blind_setProblemFile problemId _ _ _
    · exact blind_pure true

theorem blind_setInts (ints : List (Str × Int)) : Blind host now hidden (ProbMessage.setInts problemId ints) := by
  induction ints with
  | nil => exact blind_pure true
  | cons a ints ih => exact blind_all (blind_setProblemAttribute problemId _ _) ih

theorem blind_setStrings (strings : List (Str × Str)) :
    Blind host now hidden (ProbMessage.setStrings problemId strings) := by
  induction strings with
  | nil => exact blind_pure true
  | cons a strings ih => exact blind_all (blind_setProblemAttribute problemId _ _) ih

theorem blind_removeDeps (m : ProbMessage) (olds : List Nat) :
    Blind host now hidden (ProbMessage.removeDeps m olds) := by
  induction olds with
  | nil => exact blind_pure ()
  | cons d olds ih =>
    rw [ProbMessage.removeDeps]
    dsimp only
    split
    · exact blind_bind (blind_setContest fun _ _ => rfl) fun _ => ih
    · exact ih

theorem blind_addDeps (olds deps : List Nat) : Blind host now hidden (ProbMessage.addDeps problemId olds deps) := by
  induction deps with
  | nil => exact blind_pure ()
  | cons d deps ih =>
    rw [ProbMessage.addDeps]
    dsimp only
    split
    · refine blind_bind (blind_writeContest fun _ _ => ?_) fun _ => ih
      simp [addProblemDependency, withMarks, Function.comp_def]
    · exact ih

theorem blind_apply (m : ProbMessage) (exType : Str) : Blind host now hidden (ProbMessage.apply m exType) := by
  have htype : Blind host now hidden (ProbMessage.setType m exType) := by
    rw [ProbMessage.setType]
    split
    · exact blind_setContest fun _ _ => rfl
    · exact blind_pure ()
  have hattributes : Blind host now hidden (ProbMessage.setAttributes m) :=
    blind_all (blind_setFiles m.probId _) (blind_all (blind_setInts m.probId _) (blind_setStrings m.probId _))
  have htime : ∀ ok, Blind host now hidden (ProbMessage.setUpdateTime m ok) := by
    intro ok
    refine blind_bind (blind_setContest fun _ _ => rfl) fun _ => ?_
    split
    · exact blind_setContest fun _ _ => rfl
    · exact blind_pure ()
  have hdeps : Blind host now hidden (ProbMessage.setDependencies m) :=
    blind_bind (blind_readContest fun _ _ => rfl) fun olds =>
      blind_bind (blind_removeDeps m olds) fun _ => blind_addDeps m.probId olds m.deps
  exact blind_bind htype fun _ => blind_bind hattributes fun ok =>
    blind_bind (htime ok) fun _ => blind_bind hdeps fun _ => blind_pure ok

theorem blind_prob (m : ProbMessage) : Blind host now hidden (ProbMessage.intProcess m) := by
  unfold ProbMessage.intProcess
  split
  · exact blind_pure false
  refine blind_bind (blind_readContest fun _ _ => rfl) fun exType => ?_
  split
  · refine blind_bind (blind_readContest fun _ _ => rfl) fun updated => ?_
    split
    · exact blind_pure true
    refine blind_bind (blind_readContest fun _ _ => rfl) fun attrs => ?_
    exact blind_bind (blind_removeAttributes m attrs) fun _ => blind_apply m exType
  · exact blind_apply m exType

end

/-- A message that does not touch the standings does the same to databases that differ in hidden marks. -/
theorem blind_process {m : Message} (hscores : Message.scores m = false) (key : MessageKey) :
    Blind host now hidden (process env key m) := by
  have hprocess : Blind host now hidden (intProcess env m) := by
    cases m with
    | createServer m => exact blind_createServer m
    | createUser m => exact blind_createUser m
    | createGroup m => exact blind_createGroup m
    | passwd m => exact blind_passwd m
    | prob m => exact blind_prob m
    | submission m => exact blind_submission m
    | clarification m =>
      change Blind host now hidden (ClarificationMessage.intProcess m)
      rw [ClarificationMessage.intProcess]
      split
      · exact blind_processRequest m
      · exact blind_processReply m
    | startStop | mark | bonus => cases hscores
  refine blind_bind hprocess fun status => ?_
  dsimp only
  split
  · refine blind_bind (Prog.lockstep_set fun db db' h => ?_) fun _ => blind_pure status
    exact ⟨congrArg (markProcessed · key) h.peer, h.contest⟩
  · exact blind_pure status

end

section

variable {env : Env} {uid userId : Nat}

def InBlinds (hidden : Set Nat) (env : Env) (c : Contest) : Prop :=
  ∀ id ∈ hidden, ∀ s : Submission, c.submission[id]? = some s →
    isBlinded env.timer (env.timer.contestTime env.now (userGroup c s.userId) s.time) = true

theorem filter_isOpen_entriesOf (h : Veiled hidden c c') (hblinds : InBlinds hidden env c) :
    (entriesOf env c' userId).filter isOpen = (entriesOf env c userId).filter isOpen := by
  have hsubmission : c'.submission = c.submission := h.read fun _ _ => rfl
  have hlisted : ∀ s, isListed c' s = isListed c s := fun s => h.read (g := fun c => isListed c s) fun _ _ => rfl
  have hgroup : ∀ userId, userGroup c' userId = userGroup c userId :=
    fun userId => h.read (g := fun c => userGroup c userId) fun _ _ => rfl
  have huser : c'.user = c.user := h.read fun _ _ => rfl
  unfold entriesOf entries
  simp only [List.filter_filterMap, hsubmission]
  apply List.filterMap_congr
  rintro ⟨id, s⟩ hrow
  have hs : c.submission[id]? = some s := Std.ExtTreeMap.mem_toList_iff_getElem?_eq_some.mp hrow
  rw [hlisted]
  split
  · by_cases hid : id ∈ hidden
    · have hclosed : ∀ c₁, userGroup c₁ s.userId = userGroup c s.userId →
          ((entryOf env c₁ id s).filter fun e => e.userId = userId).filter isOpen = none := by
        intro c₁ hg
        rw [entryOf_eq, hg]
        cases standing env.order c₁ id with
        | none => rfl
        | some correct =>
          rw [Option.map_some]
          dsimp only
          rw [hblinds id hid s hs]
          by_cases huid : s.userId = userId
          · simp [Option.filter, isOpen, unblinded, huid]
          · simp [Option.filter, huid]
      rw [hclosed c' (hgroup s.userId), hclosed c rfl]
    · have hstanding : standing env.order c' id = standing env.order c id :=
        standing_congr (h.marks id hid) fun userId => by rw [huser]
      have hentry : entryOf env c' id s = entryOf env c id s :=
        entryOf_congr hstanding (fun _ => by rw [hgroup]) rfl rfl
      rw [hentry]
  · rfl

theorem rowOf_veiled (h : Veiled hidden c c') (hblinds : InBlinds hidden env c) (userId : Nat) :
    rowOf false c' userId (entriesOf env c' userId) = rowOf false c userId (entriesOf env c userId) := by
  have hbonus : bonusData c' userId = bonusData c userId := h.read (g := fun c => bonusData c userId) fun _ _ => rfl
  rw [rowOf_contestant, rowOf_contestant, filter_isOpen_entriesOf h hblinds, rowOf_congr hbonus]

theorem isFinal_of_mem_notices {b : Board} {n : Notice} (h : n ∈ notices c uid true b) : Notice.isFinal n := by
  unfold notices at h
  split at h
  · obtain ⟨seeAll, -, hn⟩ := List.mem_filterMap.mp h
    dsimp only at hn
    split at hn
    · cases hn
      exact ⟨seeAll, rfl⟩
    · cases hn
  · cases h

theorem Veiled.readable (h : Veiled hidden c c') (hc : Readable c) : Readable c' where
  range := hc.range.of_eq (h.read fun _ _ => rfl) (h.read fun _ _ => rfl) (h.read fun _ _ => rfl)
  problem := by
    rw [h.read (g := Contest.submission) fun _ _ => rfl]
    exact hc.problem

theorem exists_updateStandings (env : Env) (hc : Readable c) (uid : Nat) (cache : Cache) :
    ∃ cache' ns, updateStandings env c uid cache = some (cache', ns) ∧ (env.timer.duration ≠ 0 → ∀ userId : Nat,
      cache'.contestant[userId]? = if covers uid userId then
        overlay cache.contestant[userId]? (rowOf false c userId (entriesOf env c userId))
      else cache.contestant[userId]?) ∧ (env.timer.duration = 0 → cache' = cache) := by
  by_cases hduration : env.timer.duration = 0
  · refine ⟨cache, [], by rw [updateStandings, if_pos hduration], fun h => absurd hduration h, fun _ => rfl⟩
  · obtain ⟨cache', ns, hupdate, hrows⟩ := getElem?_updateStandings hc hduration uid cache
    exact ⟨cache', ns, hupdate, fun _ userId => hrows false userId, fun h => absurd h hduration⟩

/-- The contestants get the same rows and the same news from both. -/
theorem updateStandings_veiled (h : Veiled hidden c c') (hblinds : InBlinds hidden env c) (hc : Readable c)
    {cache cache' : Cache} (hcache : cache'.contestant = cache.contestant) (uid : Nat) :
    Option.Rel (fun r r' => r'.1.contestant = r.1.contestant ∧ SameNews r.2 r'.2) (updateStandings env c uid cache)
      (updateStandings env c' uid cache') := by
  obtain ⟨after, ns, hupdate, hrows, hstopped⟩ := exists_updateStandings env hc uid cache
  obtain ⟨after', ns', hupdate', hrows', hstopped'⟩ := exists_updateStandings env (h.readable hc) uid cache'
  have hafter : after'.contestant = after.contestant := by
    by_cases hduration : env.timer.duration = 0
    · rw [hstopped hduration, hstopped' hduration, hcache]
    · apply Std.ExtTreeMap.ext_getElem?
      intro userId
      rw [hrows hduration, hrows' hduration, hcache, rowOf_veiled h hblinds]
  obtain ⟨contestant, final, hns, hboard, hnews⟩ := Broadcast.notices_updateStandings hupdate
  obtain ⟨contestant', final', hns', hboard', hnews'⟩ := Broadcast.notices_updateStandings hupdate'
  have hcontestant : contestant' = contestant := by
    rw [hafter, hcache, ← hnews] at hnews'
    obtain ⟨standings, haveUpdate⟩ := contestant
    obtain ⟨standings', haveUpdate'⟩ := contestant'
    rw [Board.mk.injEq]
    exact ⟨hboard'.trans (hafter.trans hboard.symm), Bool.eq_iff_iff.mpr hnews'⟩
  have hsame : ∀ final b, notices c' uid final b = notices c uid final b := by
    intro final b
    exact h.read (g := fun c => notices c uid final b) fun _ _ => rfl
  rw [hupdate, hupdate']
  refine .some ⟨hafter, notices c uid false contestant, notices c uid true final, notices c uid true final', hns, ?_,
    ?_, ?_⟩
  · rw [hns', hsame, hsame, hcontestant]
  · exact fun n hn => isFinal_of_mem_notices hn
  · exact fun n hn => isFinal_of_mem_notices hn

variable {memory memory' : Memory}

theorem exists_updated (env : Env) (hc : Readable c) (uid : Option Nat) (memory : Memory) :
    ∃ memory', updated env c uid memory = some memory' := by
  cases uid with
  | none => exact ⟨memory, rfl⟩
  | some uid =>
    obtain ⟨cache', ns, hupdate, -⟩ := exists_updateStandings env hc uid memory.cache
    exact ⟨_, by rw [updated, hupdate, Option.map_some]⟩

theorem updated_veiled (h : Veiled hidden c c') (hblinds : InBlinds hidden env c) (hc : Readable c)
    (hmemory : SameMemory memory memory') (hsent : memory.sent = []) (hsent' : memory'.sent = []) (uid : Option Nat) :
    Option.Rel SameMemory (updated env c uid memory) (updated env c' uid memory') := by
  cases uid with
  | none => exact .some hmemory
  | some uid =>
    have hupdate := updateStandings_veiled h hblinds hc hmemory.board uid
    simp only [updated]
    generalize updateStandings env c uid memory.cache = x at hupdate
    generalize updateStandings env c' uid memory'.cache = y at hupdate
    cases hupdate with
    | none => exact .none
    | some hr =>
      refine .some ⟨hmemory.timer, hr.1, ?_⟩
      rw [hsent, hsent']
      exact hr.2

end

section

/-- The same message, or marks of a hidden submission that differ in their results. -/
inductive Twin (hidden : Set Nat) : Message → Message → Prop
  | same (m : Message) : Twin hidden m m
  | mark (m : MarkMessage) (result : Nat) (hid : m.submissionId ∈ hidden) :
      Twin hidden (.mark m) (.mark { m with result })

def Deferred : Message → Message → Prop
  | .mark m, .mark m' => m.result = 5 ↔ m'.result = 5
  | _, _ => True

variable {m m' : Message} {env : Env}

theorem Twin.scores (h : Twin hidden m m') : Message.scores m' = Message.scores m := by
  cases h with
  | same | mark => rfl

theorem Twin.timerAfter (h : Twin hidden m m') (t : TimerSupportModule) : timerAfter m' t = timerAfter m t := by
  cases h with
  | same | mark => rfl

theorem veiled_marked (h : Veiled hidden c c') (m : MarkMessage) {result : Nat}
    (hresult : m.submissionId ∈ hidden ∨ result = m.result) :
    Veiled hidden (MarkMessage.marked m c) (MarkMessage.marked { m with result } c') := by
  obtain ⟨htables, hmarks⟩ := h
  generalize c'.submissionMark = t at htables hmarks
  subst htables
  refine ⟨rfl, fun id hid marker => ?_⟩
  change (Std.ExtTreeMap.insert t _ _)[(id, marker)]? = (Std.ExtTreeMap.insert c.submissionMark _ _)[(id, marker)]?
  rw [Table.getElem?_insert_row, Table.getElem?_insert_row]
  dsimp only
  split
  · next hkey =>
    have hsubmission : m.submissionId = id := congrArg Prod.fst hkey
    have hsame : result = m.result := hresult.resolve_left fun hmem => hid (hsubmission ▸ hmem)
    rw [hsame]
  · exact hmarks id hid marker

theorem Twin.contestAfter (h : Twin hidden m m') (hc : Veiled hidden c c') :
    Veiled hidden (contestAfter m c) (contestAfter m' c') := by
  have hset : ∀ w : Contest → Contest, (∀ c t, w (withMarks c t) = withMarks (w c) t) → Veiled hidden (w c) (w c') := by
    intro w hw
    exact Option.rel_some_some.mp (hc.write (w := fun c => some (w c)) fun c t => congrArg some (hw c t))
  cases h with
  | mark m result hid => exact veiled_marked hc m (.inl hid)
  | same m =>
    cases m with
    | mark m => exact veiled_marked hc m (.inr rfl)
    | bonus m | startStop m => exact hset _ fun _ _ => rfl
    | createServer | createUser | createGroup | passwd | prob | submission | clarification => exact hc

theorem Twin.updateAfter (h : Twin hidden m m') (hdeferred : Deferred m m') (hc : Veiled hidden c c') (now : Int) :
    updateAfter now m' c' = updateAfter now m c := by
  have hread : Messages.updateAfter now m c' = Messages.updateAfter now m c :=
    hc.read (g := fun c => Messages.updateAfter now m c) fun _ _ => by cases m <;> rfl
  cases h with
  | same => exact hread
  | mark m result hid =>
    rw [← hread, Messages.updateAfter, Messages.updateAfter]
    simp only [show result = 5 ↔ m.result = 5 from hdeferred.symm]

theorem Twin.announced (h : Twin hidden m m') (hc : Veiled hidden c c') : announced env m' c' = announced env m c := by
  have hmark : ∀ m : MarkMessage, Messages.announced env (.mark m) c' = Messages.announced env (.mark m) c := by
    intro m
    have hsubmission : getSubmission c' m.submissionId = getSubmission c m.submissionId :=
      hc.read (g := fun c => getSubmission c m.submissionId) fun _ _ => rfl
    rw [Messages.announced, Messages.announced, hsubmission]
    exact isSome_submissionToMB env env c' c _ _ _
  cases h with
  | mark m result hid => exact hmark m
  | same m =>
    cases m with
    | mark m => exact hmark m
    | bonus | startStop | createServer | createUser | createGroup | passwd | prob | submission | clarification => rfl

structure SameServer (hidden : Set Nat) (x x' : Server) : Prop where
  db : SameDb hidden x.db x'.db
  memory : SameMemory x.memory x'.memory
  now : x'.now = x.now

variable {host : Host} {x x' : Server} {now : Int} {key : MessageKey}

theorem processAt_blind (h : SameServer hidden x x') (hscores : Message.scores m = false) :
    Option.Rel (SameServer hidden) (processAt host x ⟨now, key, m⟩) (processAt host x' ⟨now, key, m⟩) := by
  have hblind : Blind host now hidden (process (envAt host now x.memory.timer) key m) := blind_process hscores key
  have hrun := hblind x.db x'.db x.memory x'.memory h.db h.memory
  unfold processAt
  dsimp only
  rw [h.memory.timer]
  generalize Prog.perform (act host now) (process (envAt host now x.memory.timer) key m) x.db x.memory = y at hrun
  generalize Prog.perform (act host now) (process (envAt host now x.memory.timer) key m) x'.db x'.memory = z at hrun
  cases hrun with
  | none => exact .none
  | @some y z hagree =>
    obtain ⟨db, memory, r⟩ := y
    obtain ⟨db', memory', r'⟩ := z
    obtain ⟨hdb, hmemory, hresult⟩ := hagree
    cases hresult
    cases r with
    | error e => exact .none
    | ok b => exact .some ⟨hdb, hmemory, rfl⟩

theorem processAt_scored (h : SameServer hidden x x') (hsent : x.memory.sent = []) (hsent' : x'.memory.sent = [])
    (hc : Readable x.db.contest) (htwin : Twin hidden m m') (hdeferred : Deferred m m')
    (hscores : Message.scores m = true)
    (hblinds : ∀ y, processAt host x ⟨now, key, m⟩ = some y →
      InBlinds hidden (envAt host y.now y.memory.timer) y.db.contest) :
    Option.Rel (SameServer hidden) (processAt host x ⟨now, key, m⟩) (processAt host x' ⟨now, key, m'⟩) := by
  have hafter := htwin.contestAfter h.db.contest
  have hreadable : Readable (contestAfter m x.db.contest) := Readable.contestAfter hc
  rw [processAt_eq hscores] at hblinds ⊢
  rw [processAt_eq (htwin.scores.trans hscores)]
  dsimp only at hblinds ⊢
  rw [h.memory.timer, htwin.timerAfter, htwin.announced hafter, htwin.updateAfter hdeferred hafter]
  cases hannounced : announced (envAt host now x.memory.timer) m (contestAfter m x.db.contest) with
  | false => exact .none
  | true =>
    rw [hannounced, if_pos rfl] at hblinds
    rw [if_pos rfl, if_pos rfl]
    obtain ⟨memory₁, hupdated⟩ := exists_updated (envAt host now (timerAfter m x.memory.timer)) hreadable
      (updateAfter now m (contestAfter m x.db.contest)) { x.memory with timer := timerAfter m x.memory.timer }
    rw [hupdated, Option.map_some] at hblinds
    have hhidden := hblinds _ rfl
    rw [timer_updated hupdated] at hhidden
    have hmemory : SameMemory { x.memory with timer := timerAfter m x.memory.timer }
        { x'.memory with timer := timerAfter m x.memory.timer } := ⟨rfl, h.memory.board, h.memory.news⟩
    have hrel := updated_veiled hafter hhidden hreadable hmemory hsent hsent'
      (updateAfter now m (contestAfter m x.db.contest))
    generalize updated _ _ _ { x.memory with timer := timerAfter m x.memory.timer } = y at hrel ⊢
    generalize updated _ _ _ { x'.memory with timer := timerAfter m x.memory.timer } = z at hrel ⊢
    cases hrel with
    | none => exact .none
    | some hmemory => exact .some ⟨⟨congrArg (markProcessed · key) h.db.peer, hafter⟩, hmemory, rfl⟩

/-- Processing twin messages keeps the servers the same, if the hidden submissions are in the blinds afterwards. -/
theorem processAt_veiled (h : SameServer hidden x x') (hsent : x.memory.sent = []) (hsent' : x'.memory.sent = [])
    (hc : Readable x.db.contest) (htwin : Twin hidden m m') (hdeferred : Deferred m m')
    (hblinds : ∀ y, processAt host x ⟨now, key, m⟩ = some y →
      InBlinds hidden (envAt host y.now y.memory.timer) y.db.contest) :
    Option.Rel (SameServer hidden) (processAt host x ⟨now, key, m⟩) (processAt host x' ⟨now, key, m'⟩) := by
  cases hscores : Message.scores m with
  | true => exact processAt_scored h hsent hsent' hc htwin hdeferred hscores hblinds
  | false =>
    cases htwin with
    | same => exact processAt_blind h hscores
    | mark => cases hscores

theorem readable_processAt (hc : Readable x.db.contest) (hsized : Live.Sized m) {y : Server}
    (h : processAt host x ⟨now, key, m⟩ = some y) : Readable y.db.contest := by
  unfold processAt at h
  split at h
  · next db memory b hperform =>
    cases h
    rw [(Prog.perform_eq_some hperform).1, contest_final_process]
    exact Peer.Statements.contest_final_intProcess
      (fun _ hf _ _ hc hstep => Live.Readable.statement hc hsized hf hstep) _ hc
  · cases h

end

end Abacus.Standings.Veil
