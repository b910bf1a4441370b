import Abacus.Client.Listing
import Abacus.Client.Totality

/-! # Which replies depend on the verdicts of other teams

Two databases that differ only in the marks of submissions of other users are to give a team the same
reply. `fetchfile` looks at the state of a submission before its owner, so its refusals tell the
verdicts apart; and the queries take the user 0 for every user.
-/

namespace Abacus.Client.Privacy

open Library Library.Bytes Misc Client.Block Client.Permissions Client.Action Client.Process
open Client.Contest Client.Listing Client.Submit Client.Totality Database.Schema Database.Marks Database.Peer
open Peer.Classes Peer.Totality
open Peer.Process (Env)

def OfOther (c : Contest) (uid id : Nat) : Prop := ∃ row ∈ c.submission[id]?, row.userId ≠ uid

/-- The databases differ only in the marks of submissions of users other than `uid`, and in the files of those marks. -/
structure SameButVerdicts (uid : Nat) (c c' : Contest) : Prop where
  tables : c' = { c with submissionMark := c'.submissionMark, submissionMarkFile := c'.submissionMarkFile }
  marks : ∀ id marker : Nat, ¬OfOther c uid id → c'.submissionMark[(id, marker)]? = c.submissionMark[(id, marker)]?
  files : ∀ (id marker : Nat) (name : Str), ¬OfOther c uid id →
    c'.submissionMarkFile[(id, marker, name)]? = c.submissionMarkFile[(id, marker, name)]?

variable (s : Server) (cc : Connection) (mb : MessageBlock) (db : Db)

/-- What the connection gets does not depend on the verdicts of others. -/
def Private : Prop :=
  ∀ c', SameButVerdicts cc.userId db.contest c' →
    replies ((process s cc mb).run { db with contest := c' }).2.1 = replies ((process s cc mb).run db).2.1

def submissionRequests : List ActionName := [.fetchfile, .getsubmissions, .getsubmissionsForUser, .getsubmissionsource]

/-- The request is for the files of a submission of someone else, or the user 0 lists one. -/
def Exposed : ActionName → Prop
  | .fetchfile => ∃ id, number mb "submission_id" = some id ∧ OfOther db.contest cc.userId id
  | .getsubmissions => cc.userId = 0 ∧ ∃ id, Listed db.contest id ∧ OfOther db.contest 0 id
  | _ => False

section

variable {c c' : Contest} {uid id : Nat}

theorem SameButVerdicts.state (h : SameButVerdicts uid c c') (hid : ¬OfOther c uid id) (o : OrderBy (MarkRow × Nat)) :
    getSubmissionState c' o id = getSubmissionState c o id := by
  apply getSubmissionState_congr
  · exact fun marker => h.marks id marker hid
  · intro userId
    rw [h.tables]

theorem SameButVerdicts.markFiles (h : SameButVerdicts uid c c') (hid : ¬OfOther c uid id) :
    markFiles c' id = markFiles c id :=
  markFiles_congr fun marker name => h.files id marker name hid

theorem SameButVerdicts.fetchRefusal (h : SameButVerdicts uid c c') (hid : ¬OfOther c uid id) :
    fetchRefusal s cc c' id = fetchRefusal s cc c id := by
  unfold Submit.fetchRefusal fetchRefusal.ownerRefusal submission2userId
  rw [h.state hid, show c'.submission = c.submission by rw [h.tables]]

theorem SameButVerdicts.submissionToMB (h : SameButVerdicts uid c c') (hc : InRange c) {row : Submission}
    {attrs : AttributeList} (hrow : c.submission[id]? = some row) (hattrs : submissionAttrs c id row = some attrs)
    (hid : ¬OfOther c uid id) (env : Env) (reply : MessageBlock) (suffix : Str) :
    Peer.Process.submissionToMB env c' attrs reply suffix = Peer.Process.submissionToMB env c attrs reply suffix := by
  obtain ⟨rfl, hlisted⟩ := getSubmission_of_attrs hrow hattrs
  obtain ⟨time, group, -, -, hsubmission, -, -⟩ := hlisted.getSubmission hc
  unfold Peer.Process.submissionToMB
  rw [hsubmission, fromStringU32_decimal (hc.submission id row hrow).1]
  simp only [Option.bind_eq_bind, Option.bind_some, h.state hid]

theorem foldlM_congr {α β : Type} {f g : β → α → Option β} {l : List α} (h : ∀ b, ∀ a ∈ l, f b a = g b a) (b : β) :
    l.foldlM f b = l.foldlM g b := by
  induction l generalizing b with
  | nil => rfl
  | cons a l ih =>
    have hrest : ∀ b, l.foldlM f b = l.foldlM g b := ih fun b a' ha' => h b a' (.tail _ ha')
    rw [List.foldlM_cons, List.foldlM_cons, h b a (.head _)]
    simp only [hrest]

theorem SameButVerdicts.submissionsToMB (h : SameButVerdicts uid c c') (hc : InRange c)
    (hown : ∀ id, Listed c id → OfOther c uid id → uid ≠ 0) :
    submissionsToMB s c' (getSubmissions c' uid) = submissionsToMB s c (getSubmissions c uid) := by
  have hlist : getSubmissions c' uid = getSubmissions c uid := by rw [h.tables]; rfl
  rw [hlist]
  apply foldlM_congr
  intro reply r hr
  obtain ⟨⟨id, row⟩, hrow, hattrs⟩ := List.mem_filterMap.mp (List.fst_mem_of_mem_zipIdx hr)
  have hrow := Std.ExtTreeMap.mem_toList_iff_getElem?_eq_some.mp hrow
  dsimp only at hattrs
  split at hattrs
  · next hshown =>
    apply h.submissionToMB hc hrow hattrs
    intro hother
    have hne := hown id (getSubmission_of_attrs hrow hattrs).2 hother
    obtain ⟨row', hrow', huser⟩ := hother
    obtain rfl := Option.some.inj (hrow.symm.trans hrow')
    exact hshown.elim hne huser
  · cases hattrs

end

section

variable {s cc mb db} {c' : Contest}

theorem result_fetch (h : SameButVerdicts cc.userId db.contest c')
    (hown : ∀ id, number mb "submission_id" = some id → ¬OfOther db.contest cc.userId id) :
    (actSubmissionFileFetcher s cc mb).result { db with contest := c' } =
      (actSubmissionFileFetcher s cc mb).result db := by
  unfold actSubmissionFileFetcher
  unfold number at hown
  cases hid : fromStringU32 (mb.get (str "submission_id")) with
  | none => rfl
  | some id =>
    have hmine := hown id hid
    have hrefusal := h.fetchRefusal s cc hmine
    have hfiles := h.markFiles hmine
    rw [orThrow_some_bind, result_query_bind, result_query_bind, hrefusal]
    cases fetchRefusal s cc db.contest id with
    | some msg => rfl
    | none =>
      dsimp only
      split
      · rw [query, Prog.result_read_bind, Prog.result_read_bind, countMarkFiles, countMarkFiles, hfiles]
        rfl
      · split
        · unfold fetchData
          cases fromStringU32 (mb.get (str "index")) with
          | none => rfl
          | some index =>
            rw [orThrow_some_bind, result_query_bind, result_query_bind, getMarkFile, getMarkFile, hfiles]
            cases (markFiles db.contest id)[index]? with
            | none => rfl
            | some file =>
              dsimp only
              unfold Action.setContent
              split <;> rfl
        · rfl

theorem result_getSubmissions (hdb : InRange db.contest) (h : SameButVerdicts cc.userId db.contest c')
    (hall : cc.permissions .seeAllSubmissions = false)
    (hown : cc.userId = 0 → ∀ id, Listed db.contest id → ¬OfOther db.contest 0 id) :
    (actGetSubmissions s cc).result { db with contest := c' } = (actGetSubmissions s cc).result db := by
  have huser : userOrAll cc .seeAllSubmissions = cc.userId := if_neg (Bool.eq_false_iff.mp hall)
  have hlists := h.submissionsToMB s hdb (fun id hlisted hother hzero => hown hzero id hlisted (hzero ▸ hother))
  rw [actGetSubmissions, huser, query, Prog.result_read_bind, Prog.result_read_bind, hlists]
  cases submissionsToMB s db.contest (getSubmissions db.contest cc.userId) with
  | none | some reply => rfl

theorem result_getSource (h : SameButVerdicts cc.userId db.contest c') :
    (actGetSubmissionSource cc mb).result { db with contest := c' } = (actGetSubmissionSource cc mb).result db := by
  unfold actGetSubmissionSource
  cases fromStringU32 (mb.get (str "submission_id")) with
  | none => rfl
  | some id =>
    have hsource : ∀ uid, retrieveSubmission c' uid id = retrieveSubmission db.contest uid id := by
      intro uid
      rw [h.tables]
      rfl
    rw [orThrow_some_bind, result_query_bind, result_query_bind, hsource]
    cases retrieveSubmission db.contest _ id with
    | none => rfl
    | some source =>
      dsimp only
      unfold Action.setContent
      split <;> rfl

end

section

def remarked (c : Contest) (id : Nat) : Option (Nat × SubmissionMark) → Contest
  | none => { c with submissionMark := c.submissionMark.filter fun k _ => k.1 ≠ id }
  | some (marker, row) =>
    { c with submissionMark := (c.submissionMark.filter fun k _ => k.1 ≠ id).insert (id, marker) row }

variable {s cc mb db} {c : Contest} {uid id : Nat}

theorem getElem?_others (c : Contest) {id id' : Nat} (h : id' ≠ id) (marker : Nat) :
    (c.submissionMark.filter fun k _ => decide (k.1 ≠ id))[(id', marker)]? = c.submissionMark[(id', marker)]? := by
  rw [Std.ExtTreeMap.getElem?_filter']
  cases c.submissionMark[(id', marker)]? with
  | none => rfl
  | some row => simp [h]

theorem getElem?_remarked_of_ne (c : Contest) {id id' : Nat} (h : id' ≠ id) (mark : Option (Nat × SubmissionMark))
    (marker : Nat) : (remarked c id mark).submissionMark[(id', marker)]? = c.submissionMark[(id', marker)]? := by
  cases mark with
  | none => exact getElem?_others c h marker
  | some mark =>
    change (Std.ExtTreeMap.insert _ (id, mark.1) mark.2)[(id', marker)]? = _
    rw [Table.getElem?_insert_row, if_neg fun heq => h (congrArg Prod.fst heq).symm]
    exact getElem?_others c h marker

theorem sameButVerdicts_remarked (h : OfOther c uid id) (mark : Option (Nat × SubmissionMark)) :
    SameButVerdicts uid c (remarked c id mark) where
  tables := by cases mark <;> rfl
  marks id' marker hid' := by
    have hne : id' ≠ id := by
      rintro rfl
      exact hid' h
    exact getElem?_remarked_of_ne c hne mark marker
  files id' marker name _ := by cases mark <;> rfl

theorem markRows_others (c : Contest) (id : Nat) :
    ((c.submissionMark.filter fun k _ => decide (k.1 ≠ id)).toList.filter fun r => decide (r.1.1 = id)) = [] := by
  apply List.filter_eq_nil_iff.mpr
  rintro ⟨⟨id', marker⟩, row⟩ hrow hid
  have hmem := Std.ExtTreeMap.mem_toList_iff_getElem?_eq_some.mp hrow
  obtain rfl : id' = id := of_decide_eq_true hid
  rw [Std.ExtTreeMap.getElem?_filter'] at hmem
  simp at hmem

theorem state_remarked_none (c : Contest) (id : Nat) (o : OrderBy (MarkRow × Nat)) :
    getSubmissionState (remarked c id none) o id = none := by
  have hrows : stateRows (remarked c id none) id = [] := by
    rw [stateRows, markRows]
    exact congrArg (List.filterMap _) (markRows_others c id)
  rw [getSubmissionState, hrows, o.head?_sort_eq_none.mpr rfl, Option.map_none]

theorem state_remarked_some {marker : Nat} {user : User} (huser : c.user[marker]? = some user) (row : SubmissionMark)
    (o : OrderBy (MarkRow × Nat)) :
    getSubmissionState (remarked c id (some (marker, row))) o id =
      some (rowState (((id, marker), row), user.type)) := by
  have hmarks : markRows (remarked c id (some (marker, row))) id = [((id, marker), row)] := by
    have hfresh : (id, marker) ∉ c.submissionMark.filter fun k _ => decide (k.1 ≠ id) := by
      rw [Std.ExtTreeMap.mem_iff_isSome_getElem?, Std.ExtTreeMap.getElem?_filter']
      simp
    have hperm := (Table.toList_insert_perm hfresh row).filter fun r => decide (r.1.1 = id)
    rw [List.filter_cons_of_pos (by simp), markRows_others] at hperm
    exact List.perm_singleton.mp hperm
  have hrows : stateRows (remarked c id (some (marker, row))) id = [(((id, marker), row), user.type)] := by
    have huser' : (remarked c id (some (marker, row))).user[marker]? = some user := huser
    rw [stateRows, hmarks]
    simp [huser']
  have hsorted := List.perm_singleton.mp (o.perm (fun r => (r.2 : Int)) [(((id, marker), row), user.type)])
  rw [getSubmissionState, hrows, hsorted]
  rfl

theorem result_fetch_refused {c : Contest} (hnumber : number mb "submission_id" = some id) {msg : Str}
    (hrefusal : fetchRefusal s cc c id = some msg) :
    (actSubmissionFileFetcher s cc mb).result { db with contest := c } = .ok (.error msg) := by
  unfold actSubmissionFileFetcher
  unfold number at hnumber
  rw [hnumber, orThrow_some_bind, result_query_bind, hrefusal]
  rfl

def resultKey (k : Nat) : Str := str "result" ++ decimal k

variable {attrs : AttributeList} {reply : MessageBlock} {k : Nat}

theorem getElem?_resultKey_submissionsToMB {list : List AttributeList}
    (hlist : ∀ attrs ∈ list, ∀ name ∈ attrs, DigitFree name) (hk : list[k]? = some attrs)
    (hid : attrs.getD (str "submission_id") [] = decimal id) (hlt : id < 4294967296)
    (h : submissionsToMB s c list = some reply) :
    reply.headers[resultKey k]? =
      some (Misc.toString ((getSubmissionState c s.stateOrder id).getD Peer.Process.pendingState).state) := by
  have hwrites : ∀ attrs ∈ list, Writes _ (str "result") (shownState (env s 0) c) attrs :=
    fun attrs hattrs => writes_result (hlist attrs hattrs)
  have hshown : shownState (env s 0) c attrs =
      Misc.toString ((getSubmissionState c s.stateOrder id).getD Peer.Process.pendingState).state := by
    rw [shownState, hid, fromStringU32_decimal hlt]
    rfl
  rw [resultKey, getElem?_foldlM hwrites h, if_pos (Nat.zero_le k), Nat.sub_zero, hk, Option.map_some, hshown,
    Option.some_or]

theorem exists_resultKey (hc : InRange c) (hlisted : Listed c id) :
    ∃ k, ∀ c', c' = { c with submissionMark := c'.submissionMark, submissionMarkFile := c'.submissionMarkFile } →
      ∃ reply, submissionsToMB s c' (getSubmissions c' 0) = some reply ∧ reply.headers[resultKey k]? =
        some (Misc.toString ((getSubmissionState c' s.stateOrder id).getD Peer.Process.pendingState).state) := by
  obtain ⟨row, hrow, huser, hname⟩ := hlisted
  obtain ⟨user, huser⟩ := Table.mem_iff_exists_row.mp huser
  obtain ⟨value, hvalue⟩ := Table.mem_iff_exists_row.mp hname
  obtain ⟨attrs, hattrs⟩ : ∃ attrs, submissionAttrs c id row = some attrs := by
    rw [submissionAttrs, huser, hvalue]
    exact ⟨_, rfl⟩
  have hmem : attrs ∈ getSubmissions c 0 := by
    refine List.mem_filterMap.mpr ⟨(id, row), Std.ExtTreeMap.mem_toList_iff_getElem?_eq_some.mpr hrow, ?_⟩
    exact (if_pos (Or.inl rfl)).trans hattrs
  obtain ⟨k, hk⟩ := List.mem_iff_getElem?.mp hmem
  obtain ⟨hget, hlisted⟩ := getSubmission_of_attrs hrow hattrs
  obtain ⟨time, group, -, -, hsubmission, -, -⟩ := hlisted.getSubmission hc
  rw [hget] at hsubmission
  refine ⟨k, fun c' hc' => ?_⟩
  have hlist : getSubmissions c' 0 = getSubmissions c 0 := by
    rw [hc']
    rfl
  have hrange : InRange c' := by
    rw [hc']
    exact hc.of_eq rfl rfl rfl
  have hsome : (submissionsToMB s c' (getSubmissions c' 0)).isSome = true :=
    isSome_submissionsToMB (show InRange (Db.contest ⟨.empty, c'⟩) from hrange) 0
  obtain ⟨reply, hreply⟩ := Option.isSome_iff_exists.mp hsome
  refine ⟨reply, hreply, getElem?_resultKey_submissionsToMB ?_ (hlist.symm ▸ hk) hsubmission
    (hc.submission id row hrow).1 hreply⟩
  rw [hlist]
  intro attrs' hattrs' name hname
  obtain ⟨⟨id', row'⟩, -, hrow'⟩ := List.mem_filterMap.mp hattrs'
  dsimp only at hrow'
  split at hrow'
  · exact (submissionAttrs_spec hrow').1 name hname
  · cases hrow'

end

section

variable {s cc mb db} {action : ActionName}

theorem private_of_not_exposed (hdb : InRange db.contest) (hall : cc.permissions .seeAllSubmissions = false)
    (hrequest : action ∈ submissionRequests) (haction : findAction mb.action = some action)
    (h : getId s db.peer ≠ 0 → cc.permissions .auth = true → ¬Exposed cc mb db action) : Private s cc mb db := by
  intro c' hc'
  by_cases hserved : getId s db.peer ≠ 0 ∧ (permissionTest action).matches cc.permissions = true
  · obtain ⟨hself, hmay⟩ := hserved
    have hsame : ∀ act : ClientProg MessageBlock, answer s cc mb action = Answer.reply <$> act →
        act.result { db with contest := c' } = act.result db →
        replies ((process s cc mb).run { db with contest := c' }).2.1 = replies ((process s cc mb).run db).2.1 := by
      intro act hanswer hresult
      rw [replies_of_permitted hself haction hmay hanswer, ← hresult]
      exact replies_of_permitted hself haction hmay hanswer
    simp only [submissionRequests, List.mem_cons, List.not_mem_nil, or_false] at hrequest
    obtain rfl | rfl | rfl | rfl := hrequest
    · apply hsame _ rfl
      exact result_fetch hc' fun id hid hother => h hself hmay ⟨id, hid, hother⟩
    · apply hsame _ rfl
      exact result_getSubmissions hdb hc' hall fun hzero id hlisted hother => h hself hmay ⟨hzero, id, hlisted, hother⟩
    · have hnot : (permissionTest .getsubmissionsForUser).matches cc.permissions = false := by
        simp [permissionTest, PermissionTest.matches, hall]
      rw [hnot] at hmay
      cases hmay
    · exact hsame _ rfl (result_getSource hc')
  · have hrefused : getId s db.peer = 0 ∨ (permissionTest action).matches cc.permissions = false := by
      by_cases hself : getId s db.peer = 0
      · exact .inl hself
      · exact .inr (Bool.eq_false_iff.mpr fun hmay => hserved ⟨hself, hmay⟩)
    rw [replies_of_refused haction hrefused]
    exact replies_of_refused haction hrefused

theorem not_private_of_replies {act : ClientProg MessageBlock} (hself : getId s db.peer ≠ 0)
    (haction : findAction mb.action = some action) (hmay : (permissionTest action).matches cc.permissions = true)
    (hanswer : answer s cc mb action = Answer.reply <$> act) {id : Nat} (hother : OfOther db.contest cc.userId id)
    {mark mark' : Option (Nat × SubmissionMark)} {r r' : MessageBlock}
    (hr : act.result { db with contest := remarked db.contest id mark } = .ok r)
    (hr' : act.result { db with contest := remarked db.contest id mark' } = .ok r') (name : Str)
    (hne : r.headers[name]? ≠ r'.headers[name]?) : ¬Private s cc mb db := by
  intro hprivate
  have hreplies : ∀ {mark : Option (Nat × SubmissionMark)} {r : MessageBlock},
      act.result { db with contest := remarked db.contest id mark } = .ok r →
        replies ((process s cc mb).run db).2.1 = [sent mb (some r)] := by
    intro mark r hr
    rw [← hprivate _ (sameButVerdicts_remarked hother mark)]
    have hpermitted : replies ((process s cc mb).run { db with contest := remarked db.contest id mark }).2.1 = _ :=
      replies_of_permitted hself haction hmay hanswer
    rw [hpermitted, hr]
    rfl
  have hsent := List.cons.inj ((hreplies hr).symm.trans (hreplies hr'))
  have hheaders : (sent mb (some r)).headers = (sent mb (some r')).headers := congrArg MessageBlock.headers hsent.1
  exact hne (congrArg (fun headers : StringMap Str => headers[name]?) hheaders)

theorem private_iff_not_exposed (hdb : Bounded db) (huser : cc.userId ∈ db.contest.user)
    (hdetails : cc.permissions .seeSubmissionDetails = false) (hall : cc.permissions .seeAllSubmissions = false)
    (hrequest : action ∈ submissionRequests) (haction : findAction mb.action = some action) :
    Private s cc mb db ↔ (getId s db.peer ≠ 0 → cc.permissions .auth = true → ¬Exposed cc mb db action) := by
  obtain ⟨user, huser⟩ := Table.mem_iff_exists_row.mp huser
  -- a mark by the user itself tells a marked submission from one that is not marked
  let failed : SubmissionMark := { markTime := 0, result := 4, remark := [], serverId := 0 }
  refine ⟨fun hprivate hself hauth hexposed => ?_, private_of_not_exposed hdb.contest hall hrequest haction⟩
  cases action with
  | fetchfile =>
    obtain ⟨id, hid, hother⟩ := hexposed
    have hunmarked : fetchRefusal s cc (remarked db.contest id none) id =
        some (str "This submission hasn't been marked yet, please be patient :-)") := by
      rw [fetchRefusal, hdetails, state_remarked_none]
    have hfailed : fetchRefusal s cc (remarked db.contest id (some (cc.userId, failed))) id =
        some (str "This submission doesn't belong to you; I can't let you look at it") := by
      obtain ⟨row, hrow, howner⟩ := hother
      have hrow' : (remarked db.contest id (some (cc.userId, failed))).submission[id]? = some row := hrow
      rw [fetchRefusal, hdetails, state_remarked_some huser]
      dsimp only
      have hstate : ¬(rowState (((id, cc.userId), failed), user.type)).state ≠ compileFailed := not_not.mpr rfl
      rw [if_neg hstate, fetchRefusal.ownerRefusal, hall, submission2userId, hrow']
      exact if_neg fun h => h.elim Bool.false_ne_true howner
    apply not_private_of_replies hself haction hauth rfl hother (result_fetch_refused hid hunmarked)
      (result_fetch_refused hid hfailed) (str "msg") _ hprivate
    decide
  | getsubmissions =>
    obtain ⟨hzero, id, hlisted, hother⟩ := hexposed
    obtain ⟨k, hk⟩ := exists_resultKey (s := s) hdb.contest hlisted
    have hother := hzero.symm ▸ hother
    have hresult : ∀ mark, ∃ r,
        (actGetSubmissions s cc).result { db with contest := remarked db.contest id mark } = .ok r ∧
        r.headers[resultKey k]? = some (Misc.toString
          ((getSubmissionState (remarked db.contest id mark) s.stateOrder id).getD
              Peer.Process.pendingState).state) := by
      intro mark
      obtain ⟨r, hr, hheader⟩ := hk _ (sameButVerdicts_remarked hother mark).tables
      refine ⟨r, ?_, hheader⟩
      have hall' : userOrAll cc .seeAllSubmissions = 0 := (if_neg (Bool.eq_false_iff.mp hall)).trans hzero
      rw [actGetSubmissions, hall', query, Prog.result_read_bind, hr]
      rfl
    obtain ⟨r, hr, hpending⟩ := hresult none
    obtain ⟨r', hr', hmarked⟩ := hresult (some (cc.userId, failed))
    rw [state_remarked_none] at hpending
    rw [state_remarked_some huser] at hmarked
    apply not_private_of_replies hself haction hauth rfl hother hr hr' (resultKey k) _ hprivate
    rw [hpending, hmarked]
    show some (Misc.toString (-1)) ≠ some (Misc.toString 4)
    decide
  | _ => exact hexposed

end

def team (name : String) (type : Nat) : User :=
  { username := str name, friendlyname := [], password := [], type, group := 1, bonusPoints := 0, bonusSeconds := 0 }

def twoTeams : Contest where
  __ := Contest.empty
  user := (∅ : Table Nat User)
    |>.insert 17 (team "marker" 4)
    |>.insert 33 (team "first" 3)
    |>.insert 49 (team "second" 3)
  submission := (∅ : Table Nat Submission)
    |>.insert 1 { userId := 49, probId := 1, time := 100, serverId := 1, content := [], language := str "C" }
    |>.insert 2 { userId := 33, probId := 1, time := 110, serverId := 1, content := [], language := str "C" }

theorem bounded_twoTeams : Bounded ⟨.empty, twoTeams⟩ where
  contest := {
    submission := Table.forall_rows (by decide)
    user := Table.forall_rows (by decide)
    request := Table.forall_rows (by decide) }
  server := by simp [PeerTables.empty]

theorem private_ownSubmission : Private server contestant (fetchCount "2") ⟨.empty, twoTeams⟩ := by
  have haction : findAction (fetchCount "2").action = some .fetchfile := by decide
  refine (private_iff_not_exposed bounded_twoTeams (by decide) rfl rfl (by decide) haction).mpr ?_
  rintro - - ⟨id, hid, row, hrow, howner⟩
  have hnumber : number (fetchCount "2") "submission_id" = some 2 := by decide
  cases hnumber.symm.trans hid
  cases hrow
  exact howner rfl

def markedTeams : Contest where
  __ := twoTeams
  submissionMark := (∅ : Table (Nat × Nat) SubmissionMark).insert (1, 17)
    { markTime := 200, result := 4, remark := [], serverId := 1 }

theorem sameButVerdicts_markedTeams : SameButVerdicts 33 twoTeams markedTeams where
  tables := rfl
  marks id marker hid := by
    have hne : (1, 17) ≠ (id, marker) := by
      rintro ⟨⟩
      exact hid ⟨_, rfl, by decide⟩
    show (Std.ExtTreeMap.insert (∅ : Table (Nat × Nat) SubmissionMark) (1, 17) _)[(id, marker)]? = _
    rw [Table.getElem?_insert_row, if_neg hne]
    rfl
  files _ _ _ _ := rfl

/-- The first team learns that the submission of the second team is not marked yet, or that it did not compile. -/
theorem not_private_fetch : fetchRefusal server contestant twoTeams 1 =
      some (str "This submission hasn't been marked yet, please be patient :-)") ∧
    fetchRefusal server contestant markedTeams 1 =
      some (str "This submission doesn't belong to you; I can't let you look at it") ∧
    ¬Private server contestant (fetchCount "1") ⟨.empty, twoTeams⟩ := by
  refine ⟨by decide, by decide, fun hprivate => ?_⟩
  have hdiffer : replies ((process server contestant (fetchCount "1")).run ⟨.empty, markedTeams⟩).2.1 ≠
      replies ((process server contestant (fetchCount "1")).run ⟨.empty, twoTeams⟩).2.1 := by decide +kernel
  exact hdiffer (hprivate markedTeams sameButVerdicts_markedTeams)

end Abacus.Client.Privacy
