import Abacus.Client.Submit

/-! # Numbered records in a reply

Each attribute of a record has its name and the place of the record as its header. As no name ends in
a digit, the records can be told apart.
-/

namespace Abacus.Client.Listing

open Library Library.Bytes Misc Client.Block Client.Action Client.Submit Peer.Process
open Database.Schema Database.Marks Database.People

abbrev DigitFree (name : Str) : Prop := name.all (fun x => !isDigit x) = true

section

variable {attrs : AttributeList} {suffix : Str} (reply : MessageBlock)

theorem setAll_eq (attrs : AttributeList) (suffix : Str) : reply.setAll attrs suffix =
    { reply with headers := reply.headers.insertMany (attrs.toList.map fun r => (r.1 ++ suffix, r.2)) } := by
  have hfold : ∀ (l : List (Str × Str)) (reply : MessageBlock), l.foldl (fun mb r => mb.set (r.1 ++ suffix) r.2) reply =
      { reply with headers := reply.headers.insertMany (l.map fun r => (r.1 ++ suffix, r.2)) } := by
    intro l
    induction l with
    | nil =>
      intro reply
      rw [List.map_nil, Std.ExtTreeMap.insertMany_nil]
      rfl
    | cons r l ih =>
      intro reply
      rw [List.foldl_cons, ih, List.map_cons, Std.ExtTreeMap.insertMany_cons]
      rfl
  exact hfold attrs.toList reply

theorem headers_setAll (attrs : AttributeList) (suffix : Str) :
    (reply.setAll attrs suffix).headers = reply.headers.insertMany (attrs.toList.map fun r => (r.1 ++ suffix, r.2)) :=
  congrArg MessageBlock.headers (setAll_eq reply attrs suffix)

theorem getElem?_headers_setAll {key : Str} (h : ∀ name ∈ attrs, name ++ suffix ≠ key) :
    (reply.setAll attrs suffix).headers[key]? = reply.headers[key]? := by
  rw [headers_setAll]
  apply Std.ExtTreeMap.getElem?_insertMany_list_of_contains_eq_false
  rw [← Bool.not_eq_true, List.contains_iff_mem, List.map_map]
  intro hmem
  obtain ⟨r, hr, hkey⟩ := List.mem_map.mp hmem
  exact h r.1 (Table.mem_iff_exists_row.mpr ⟨r.2, Std.ExtTreeMap.mem_toList_iff_getElem?_eq_some.mp hr⟩) hkey

theorem getElem?_headers_setAll_self {name value : Str} (h : attrs[name]? = some value) :
    (reply.setAll attrs suffix).headers[name ++ suffix]? = some value := by
  rw [headers_setAll]
  refine Std.ExtTreeMap.getElem?_insertMany_list_of_mem Std.ReflOrd.compare_self ?_
    (List.mem_map.mpr ⟨(name, value), Std.ExtTreeMap.mem_toList_iff_getElem?_eq_some.mpr h, rfl⟩)
  rw [List.pairwise_map]
  refine Std.ExtTreeMap.distinct_keys_toList.imp fun {a b} hne heq => hne ?_
  obtain hname := List.append_cancel_right (Std.LawfulEqOrd.eq_of_compare heq)
  rw [hname]
  exact Std.ReflOrd.compare_self

end

section

variable {step : MessageBlock → AttributeList × Nat → Option MessageBlock} {name : Str} {value : AttributeList → Str}
  {list : List AttributeList} {reply reply' : MessageBlock}

/-- The record at a place is written under the number of that place only. -/
def Writes (step : MessageBlock → AttributeList × Nat → Option MessageBlock) (name : Str) (value : AttributeList → Str)
    (attrs : AttributeList) : Prop :=
  ∀ (k : Nat) (reply reply' : MessageBlock), step reply (attrs, k) = some reply' →
    ∀ j : Nat, reply'.headers[name ++ decimal j]? =
      if j = k then some (value attrs) else reply.headers[name ++ decimal j]?

theorem getElem?_foldlM {n : Nat} (hwrites : ∀ attrs ∈ list, Writes step name value attrs)
    (h : (list.zipIdx n).foldlM step reply = some reply') (j : Nat) : reply'.headers[name ++ decimal j]? =
      ((if n ≤ j then list[j - n]? else none).map value).or reply.headers[name ++ decimal j]? := by
  induction list generalizing n reply with
  | nil =>
    cases h
    simp
  | cons attrs list ih =>
    obtain ⟨hattrs, hwrites⟩ := List.forall_mem_cons.mp hwrites
    rw [List.zipIdx_cons, List.foldlM_cons] at h
    obtain ⟨next, hnext, hrest⟩ := Option.bind_eq_some_iff.mp h
    rw [ih hwrites hrest, hattrs n reply next hnext j]
    obtain hlt | rfl | hgt := Nat.lt_trichotomy j n
    · rw [if_neg (by omega), if_neg (by omega), if_neg (by omega)]
    · rw [if_neg (by omega), if_pos rfl, if_pos (le_refl j), Nat.sub_self]
      rfl
    · have hsub : j - n = j - (n + 1) + 1 := by omega
      rw [if_pos (by omega), if_neg (by omega), if_pos (by omega), hsub, List.getElem?_cons_succ]

theorem exists_number_iff (hwrites : ∀ attrs ∈ list, Writes step name value attrs) (hempty : reply.headers = ∅)
    (h : list.zipIdx.foldlM step reply = some reply') (v : Str) :
    (∃ k : Nat, reply'.headers[name ++ decimal k]? = some v) ↔ ∃ attrs ∈ list, value attrs = v := by
  have hget : ∀ j : Nat, reply'.headers[name ++ decimal j]? = (list[j]?).map value := by
    intro j
    rw [getElem?_foldlM hwrites h, if_pos (Nat.zero_le j), hempty, Std.ExtTreeMap.getElem?_empty, Option.or_none,
      Nat.sub_zero]
  simp only [hget, Option.map_eq_some_iff]
  constructor
  · rintro ⟨k, attrs, hk, hv⟩
    exact ⟨attrs, List.mem_of_getElem? hk, hv⟩
  · rintro ⟨attrs, hmem, hv⟩
    obtain ⟨k, hk⟩ := List.mem_iff_getElem?.mp hmem
    exact ⟨k, attrs, hk, hv⟩

end

section

variable {attrs : AttributeList} {name : Str}

theorem ne_of_number_ne (hattrs : ∀ other ∈ attrs, DigitFree other) (hname : DigitFree name) {j k : Nat} (hne : j ≠ k) :
    ∀ other ∈ attrs, other ++ decimal k ≠ name ++ decimal j :=
  fun other hother heq => hne (append_decimal_inj (hattrs other hother) hname heq).2.symm

theorem getD_of_row {value : Str} (h : attrs[name]? = some value) : attrs.getD name [] = value := by
  rw [Std.ExtTreeMap.getD_eq_getD_getElem?, h]
  rfl

theorem writes_setAll (hattrs : ∀ other ∈ attrs, DigitFree other) (hname : name ∈ attrs) :
    Writes (fun reply r => some (reply.setAll r.1 (decimal r.2))) name (fun attrs => attrs.getD name []) attrs := by
  intro k reply reply' h j
  cases h
  obtain ⟨value, hvalue⟩ := Table.mem_iff_exists_row.mp hname
  split
  · next heq =>
    rw [heq, getElem?_headers_setAll_self reply hvalue]
    exact congrArg some (getD_of_row hvalue).symm
  · next hne => exact getElem?_headers_setAll reply (ne_of_number_ne hattrs (hattrs name hname) hne)

theorem foldlM_numbered (reply : MessageBlock) (list : List AttributeList) :
    list.zipIdx.foldlM (fun reply r => some (reply.setAll r.1 (decimal r.2))) reply = some (numbered reply list) :=
  List.foldlM_pure

theorem exists_numbered_iff {list : List AttributeList}
    (hlist : ∀ attrs ∈ list, (∀ other ∈ attrs, DigitFree other) ∧ name ∈ attrs) (v : Str) :
    (∃ k : Nat, (numbered .ok list).headers[name ++ decimal k]? = some v) ↔ ∃ attrs ∈ list, attrs.getD name [] = v :=
  exists_number_iff (fun attrs hmem => writes_setAll (hlist attrs hmem).1 (hlist attrs hmem).2) rfl
    (foldlM_numbered _ _) v

end

section

variable {env : Env} {c : Contest} {attrs : AttributeList} {name : Str} {reply reply' : MessageBlock} {j k : Nat}

theorem getElem?_submissionToMB_of_ne (hattrs : ∀ other ∈ attrs, DigitFree other) (hname : DigitFree name) (hne : j ≠ k)
    (h : submissionToMB env c attrs reply (decimal k) = some reply') :
    reply'.headers[name ++ decimal j]? = reply.headers[name ++ decimal j]? := by
  have hother : ∀ other : Str, DigitFree other → other ++ decimal k ≠ name ++ decimal j :=
    fun other hdigits heq => hne (append_decimal_inj hdigits hname heq).2.symm
  unfold submissionToMB at h
  simp only [Option.bind_eq_bind, Option.bind_eq_some_iff] at h
  obtain ⟨submissionId, -, time, -, groupId, -, h⟩ := h
  cases h
  simp only [MessageBlock.set, Table.getElem?_insert_row, if_neg (hother (str "comment") (by decide)),
    if_neg (hother (str "result") (by decide)), if_neg (hother (str "contesttime") (by decide))]
  exact getElem?_headers_setAll reply (ne_of_number_ne hattrs hname hne)

theorem writes_submissionId (hattrs : ∀ other ∈ attrs, DigitFree other) (hid : str "submission_id" ∈ attrs) :
    Writes (fun reply r => submissionToMB env c r.1 reply (decimal r.2)) (str "submission_id")
      (fun attrs => attrs.getD (str "submission_id") []) attrs := by
  intro k reply reply' h j
  split
  · next heq =>
    have hother : ∀ other : Str, DigitFree other → other ≠ str "submission_id" →
        other ++ decimal k ≠ str "submission_id" ++ decimal j :=
      fun other hdigits hne heq => hne (append_decimal_inj hdigits (by decide) heq).1
    obtain ⟨value, hvalue⟩ := Table.mem_iff_exists_row.mp hid
    unfold submissionToMB at h
    simp only [Option.bind_eq_bind, Option.bind_eq_some_iff] at h
    obtain ⟨submissionId, -, time, -, groupId, -, h⟩ := h
    cases h
    simp only [MessageBlock.set, Table.getElem?_insert_row, if_neg (hother (str "comment") (by decide) (by decide)),
      if_neg (hother (str "result") (by decide) (by decide)),
      if_neg (hother (str "contesttime") (by decide) (by decide))]
    rw [heq, getElem?_headers_setAll_self reply hvalue]
    exact congrArg some (getD_of_row hvalue).symm
  · next hne => exact getElem?_submissionToMB_of_ne hattrs (hattrs _ hid) hne h

def shownState (env : Env) (c : Contest) (attrs : AttributeList) : Str :=
  let id := (fromStringU32 (attrs.getD (str "submission_id") [])).getD 0
  Misc.toString ((getSubmissionState c env.order id).getD pendingState).state

theorem writes_result (hattrs : ∀ other ∈ attrs, DigitFree other) :
    Writes (fun reply r => submissionToMB env c r.1 reply (decimal r.2)) (str "result") (shownState env c) attrs := by
  intro k reply reply' h j
  split
  · next heq =>
    have hcomment : str "comment" ++ decimal k ≠ str "result" ++ decimal k :=
      fun heq => absurd (append_decimal_inj (by decide) (by decide) heq).1 (by decide)
    unfold submissionToMB at h
    simp only [Option.bind_eq_bind, Option.bind_eq_some_iff] at h
    obtain ⟨submissionId, hid, time, -, groupId, -, h⟩ := h
    cases h
    rw [heq, shownState, hid]
    simp only [MessageBlock.set, Table.getElem?_insert_row, if_neg hcomment, if_true, Option.getD_some]
  · next hne => exact getElem?_submissionToMB_of_ne hattrs (by decide) hne h

end

section

variable {s : Server} {c : Contest} {id uid : Nat} {attrs : AttributeList}

theorem submissionAttrs_spec {row : Submission} (h : submissionAttrs c id row = some attrs) :
    (∀ name ∈ attrs, DigitFree name) ∧ str "submission_id" ∈ attrs ∧
      attrs.getD (str "submission_id") [] = decimal id := by
  unfold submissionAttrs at h
  split at h
  · cases h
    refine ⟨fun name hname => ?_, ?_, ?_⟩
    · simp only [Table.mem_insert_row, Std.ExtTreeMap.not_mem_empty, or_false] at hname
      obtain rfl | rfl | rfl | rfl | rfl := hname
      all_goals decide
    · simp only [Table.mem_insert_row, true_or, or_true]
    · simp +decide only [Table.getD_insert_row, if_true, if_false]
  · cases h

theorem requestAttrs_spec (c : Contest) (id : Nat) (row : ClarificationRequest) :
    (∀ name ∈ requestAttrs c id row, DigitFree name) ∧ str "id" ∈ requestAttrs c id row ∧
      (requestAttrs c id row).getD (str "id") [] = decimal id := by
  refine ⟨fun name hname => ?_, ?_, ?_⟩
  · simp only [requestAttrs, Table.mem_insert_row, Std.ExtTreeMap.not_mem_empty, or_false] at hname
    obtain rfl | rfl | rfl | rfl | rfl := hname
    all_goals decide
  · simp only [requestAttrs, Table.mem_insert_row, true_or, or_true]
  · simp +decide only [requestAttrs, Table.getD_insert_row, if_true, if_false]

theorem clarificationAttrs_spec {row : Clarification} (h : clarificationAttrs c id row = some attrs) :
    (∀ name ∈ attrs, DigitFree name) ∧ str "id" ∈ attrs ∧ attrs.getD (str "id") [] = decimal id := by
  obtain ⟨request, -, rfl⟩ := Option.map_eq_some_iff.mp h
  refine ⟨fun name hname => ?_, ?_, ?_⟩
  · simp only [Table.mem_insert_row, Std.ExtTreeMap.not_mem_empty, or_false] at hname
    obtain rfl | rfl | rfl | rfl | rfl | rfl := hname
    all_goals decide
  · simp only [Table.mem_insert_row, true_or, or_true]
  · simp +decide only [Table.getD_insert_row, if_true, if_false]

theorem listed_submission {row : Submission} {reply : MessageBlock} (hrow : c.submission[id]? = some row)
    (hattrs : submissionAttrs c id row = some attrs) (h : submissionsToMB s c (getSubmissions c uid) = some reply) :
    (∃ k : Nat, reply.headers[str "submission_id" ++ decimal k]? = some (decimal id)) ↔ uid = 0 ∨ row.userId = uid := by
  have hlist : ∀ attrs ∈ getSubmissions c uid, ∃ id row, c.submission[id]? = some row ∧ (uid = 0 ∨ row.userId = uid) ∧
      submissionAttrs c id row = some attrs := by
    intro attrs hmem
    obtain ⟨⟨id, row⟩, hrow, hshown⟩ := List.mem_filterMap.mp hmem
    have hrow := Std.ExtTreeMap.mem_toList_iff_getElem?_eq_some.mp hrow
    dsimp only at hshown
    split at hshown
    · next huser => exact ⟨id, row, hrow, huser, hshown⟩
    · cases hshown
  rw [exists_number_iff (fun attrs hmem => ?_) rfl h]
  · constructor
    · rintro ⟨attrs', hmem, hid⟩
      obtain ⟨id', row', hrow', huser, hattrs'⟩ := hlist attrs' hmem
      obtain rfl := decimal_inj ((submissionAttrs_spec hattrs').2.2.symm.trans hid)
      obtain rfl := Option.some.inj (hrow.symm.trans hrow')
      exact huser
    · intro huser
      refine ⟨attrs, List.mem_filterMap.mpr ⟨(id, row), ?_, ?_⟩, (submissionAttrs_spec hattrs).2.2⟩
      · exact Std.ExtTreeMap.mem_toList_iff_getElem?_eq_some.mpr hrow
      · exact (if_pos huser).trans hattrs
  · obtain ⟨id', row', -, -, hattrs'⟩ := hlist attrs hmem
    obtain ⟨hnames, hid, -⟩ := submissionAttrs_spec hattrs'
    exact writes_submissionId hnames hid

theorem listed_request {row : ClarificationRequest} (o : OrderBy (Nat × ClarificationRequest))
    (hrow : c.clarificationRequest[id]? = some row) :
    (∃ k : Nat, (numbered .ok (getClarificationRequests c o uid)).headers[str "id" ++ decimal k]? = some (decimal id)) ↔
      uid = 0 ∨ row.userId = uid := by
  rw [exists_numbered_iff fun attrs hmem => ?_]
  · constructor
    · rintro ⟨attrs, hmem, hid⟩
      obtain ⟨⟨id', row'⟩, hsorted, rfl⟩ := List.mem_map.mp hmem
      obtain ⟨hmem, huser⟩ := List.mem_filter.mp ((o.perm _ _).mem_iff.mp hsorted)
      obtain rfl := decimal_inj ((requestAttrs_spec c id' row').2.2.symm.trans hid)
      obtain rfl := Option.some.inj (hrow.symm.trans (Std.ExtTreeMap.mem_toList_iff_getElem?_eq_some.mp hmem))
      exact of_decide_eq_true huser
    · intro huser
      refine ⟨_, List.mem_map.mpr ⟨(id, row), (o.perm _ _).mem_iff.mpr (List.mem_filter.mpr ⟨?_, ?_⟩), rfl⟩,
        (requestAttrs_spec c id row).2.2⟩
      · exact Std.ExtTreeMap.mem_toList_iff_getElem?_eq_some.mpr hrow
      · exact decide_eq_true huser
  · obtain ⟨⟨id', row'⟩, -, rfl⟩ := List.mem_map.mp hmem
    obtain ⟨hnames, hid, -⟩ := requestAttrs_spec c id' row'
    exact ⟨hnames, hid⟩

theorem mem_of_mapM {α β : Type} {f : α → Option β} {l : List α} {l' : List β} (h : l.mapM f = some l') {b : β} :
    b ∈ l' ↔ ∃ a ∈ l, f a = some b := by
  induction l generalizing l' with
  | nil =>
    cases h
    simp
  | cons a l ih =>
    rw [List.mapM_cons] at h
    obtain ⟨first, hfirst, h⟩ := Option.bind_eq_some_iff.mp h
    obtain ⟨rest, hrest, h⟩ := Option.bind_eq_some_iff.mp h
    cases h
    rw [List.mem_cons, ih hrest, List.exists_mem_cons_iff, hfirst, Option.some.injEq, eq_comm]

theorem listed_clarification {row : Clarification} {request : ClarificationRequest} {list : List AttributeList}
    (o : OrderBy (Nat × Clarification)) (hrow : c.clarification[id]? = some row)
    (hrequest : c.clarificationRequest[row.clarificationReqId]? = some request)
    (h : getClarifications c o uid = some list) :
    (∃ k : Nat, (numbered .ok list).headers[str "id" ++ decimal k]? = some (decimal id)) ↔
      uid = 0 ∨ row.isPublic = true ∨ request.userId = uid := by
  rw [exists_numbered_iff fun attrs hmem => ?_]
  · constructor
    · rintro ⟨attrs, hmem, hid⟩
      obtain ⟨⟨id', row'⟩, hsorted, hattrs⟩ := (mem_of_mapM h).mp hmem
      obtain ⟨hmem, hvisible⟩ := List.mem_filter.mp ((o.perm _ _).mem_iff.mp hsorted)
      obtain rfl := decimal_inj ((clarificationAttrs_spec hattrs).2.2.symm.trans hid)
      obtain rfl := Option.some.inj (hrow.symm.trans (Std.ExtTreeMap.mem_toList_iff_getElem?_eq_some.mp hmem))
      simpa [hrequest] using hvisible
    · intro hvisible
      obtain ⟨attrs, hattrs⟩ : ∃ attrs, clarificationAttrs c id row = some attrs := by
        rw [clarificationAttrs, hrequest]
        exact ⟨_, rfl⟩
      refine ⟨attrs, (mem_of_mapM h).mpr ⟨(id, row), (o.perm _ _).mem_iff.mpr (List.mem_filter.mpr ⟨?_, ?_⟩), hattrs⟩,
        (clarificationAttrs_spec hattrs).2.2⟩
      · exact Std.ExtTreeMap.mem_toList_iff_getElem?_eq_some.mpr hrow
      · simpa [hrequest] using hvisible
  · obtain ⟨⟨id', row'⟩, -, hattrs⟩ := (mem_of_mapM h).mp hmem
    obtain ⟨hnames, hid, -⟩ := clarificationAttrs_spec hattrs
    exact ⟨hnames, hid⟩

end

end Abacus.Client.Listing
