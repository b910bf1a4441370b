import Abacus.Client.Updates

/-! # Numbered lists, read back by the client tool

The handlers number their records from 0 on. The client tool looks for them from 1 on, as it takes the
text of its counter after the increment, so the first record is lost.
-/

namespace Abacus.Client.Lists

open Library Library.Bytes Misc Client.Block Client.Action Client.Contest Client.Submit Client.Listing
open Database.Schema Database.Marks Database.People Peer.Process

section

variable (mb : MessageBlock) (attrlst : List Str)

def addAttribute (ival : Str) (attrs : AttributeList) (name : Str) : AttributeList :=
  match mb.headers[name ++ ival]? with
  | some value => attrs.insert name value
  | none => attrs

def attrsAt (ival : Str) : AttributeList := attrlst.foldl (addAttribute mb ival) ∅

def multiListFrom : Nat → Nat → Option (List AttributeList)
  | 0, _ => none
  | rounds + 1, i =>
    let i := i + 1
    let attrs := attrsAt mb attrlst (decimal i)
    if attrs.isEmpty then some [] else (multiListFrom rounds i).map (attrs :: ·)

/-- Each round but the last finds a header, and no two the same one. -/
def multiListFromMB : Option (List AttributeList) := multiListFrom mb attrlst (mb.headers.size + 1) 0

variable {mb attrlst}

theorem getElem?_addAttribute (ival : Str) (attrs : AttributeList) (name other : Str) :
    (addAttribute mb ival attrs name)[other]? =
      (if other = name then mb.headers[other ++ ival]? else none).or attrs[other]? := by
  unfold addAttribute
  split
  · next value hvalue =>
    rw [Table.getElem?_insert_row]
    obtain rfl | hne := eq_or_ne other name
    · rw [if_pos rfl, if_pos rfl, hvalue]
      rfl
    · rw [if_neg hne.symm, if_neg hne]
      rfl
  · next hnone =>
    split
    · next heq => rw [heq, hnone, Option.none_or]
    · rfl

theorem getElem?_foldl_addAttribute (ival : Str) (l : List Str) (attrs : AttributeList) (other : Str) :
    (l.foldl (addAttribute mb ival) attrs)[other]? =
      (if other ∈ l then mb.headers[other ++ ival]? else none).or attrs[other]? := by
  induction l generalizing attrs with
  | nil => rfl
  | cons name l ih =>
    rw [List.foldl_cons, ih, getElem?_addAttribute]
    by_cases hmem : other ∈ l
    · have hcons : other ∈ name :: l := .tail name hmem
      rw [if_pos hmem, if_pos hcons]
      split
      · rw [← Option.or_assoc, Option.or_self]
      · rw [Option.none_or]
    · rw [if_neg hmem, Option.none_or]
      simp only [List.mem_cons, hmem, or_false]

theorem getElem?_attrsAt (ival name : Str) :
    (attrsAt mb attrlst ival)[name]? = if name ∈ attrlst then mb.headers[name ++ ival]? else none := by
  rw [attrsAt, getElem?_foldl_addAttribute, Std.ExtTreeMap.getElem?_empty, Option.or_none]

end

section

variable {records : List AttributeList} {names : List Str}

/-- Records that all have the same names, and at least one. -/
structure Uniform (names : List Str) (records : List AttributeList) : Prop where
  nonempty : names ≠ []
  digitFree : ∀ name ∈ names, DigitFree name
  keys : ∀ attrs ∈ records, ∀ name, name ∈ attrs ↔ name ∈ names

variable (h : Uniform names records)

include h

theorem getElem?_numbered {name : Str} (hname : name ∈ names) (j : Nat) :
    (numbered .ok records).headers[name ++ decimal j]? = (records[j]?).map fun attrs => attrs.getD name [] := by
  have hwrites : ∀ attrs ∈ records, Writes (fun reply r => some (reply.setAll r.1 (decimal r.2))) name
      (fun attrs => attrs.getD name []) attrs := by
    intro attrs hattrs
    exact writes_setAll (fun other hother => h.digitFree other ((h.keys attrs hattrs other).mp hother))
      ((h.keys attrs hattrs name).mpr hname)
  rw [getElem?_foldlM hwrites (foldlM_numbered _ _), if_pos (Nat.zero_le j), Nat.sub_zero]
  exact Option.or_none

theorem attrsAt_numbered (j : Nat) : attrsAt (numbered .ok records) names (decimal j) = (records[j]?).getD ∅ := by
  apply Std.ExtTreeMap.ext_getElem?
  intro name
  rw [getElem?_attrsAt]
  cases hj : records[j]? with
  | none =>
    rw [Option.getD_none, Std.ExtTreeMap.getElem?_empty]
    split
    · next hname =>
      rw [getElem?_numbered h hname, hj]
      rfl
    · rfl
  | some attrs =>
    have hkeys := h.keys attrs (List.mem_of_getElem? hj) name
    rw [Option.getD_some]
    split
    · next hname =>
      obtain ⟨value, hvalue⟩ := Table.mem_iff_exists_row.mp (hkeys.mpr hname)
      rw [getElem?_numbered h hname, hj, Option.map_some, getD_of_row hvalue, hvalue]
    · next hname =>
      exact (Std.ExtTreeMap.getElem?_eq_none fun hmem => hname (hkeys.mp hmem)).symm

theorem Uniform.ne_empty {attrs : AttributeList} (hattrs : attrs ∈ records) : attrs.isEmpty = false := by
  obtain ⟨name, hname⟩ := List.exists_mem_of_ne_nil names h.nonempty
  rw [← Bool.not_eq_true, Std.ExtTreeMap.isEmpty_iff]
  rintro rfl
  exact Std.ExtTreeMap.not_mem_empty ((h.keys ∅ hattrs name).mpr hname)

theorem multiListFrom_numbered {rounds i : Nat} (hrounds : records.length ≤ i + 1 + rounds) :
    multiListFrom (numbered .ok records) names (rounds + 1) i = some (records.drop (i + 1)) := by
  induction rounds generalizing i with
  | zero =>
    have hnone : records[i + 1]? = none := List.getElem?_eq_none (by omega)
    rw [multiListFrom, attrsAt_numbered h, hnone, List.drop_eq_nil_of_le (by omega)]
    rfl
  | succ rounds ih =>
    rw [multiListFrom, attrsAt_numbered h]
    cases hnext : records[i + 1]? with
    | none =>
      rw [List.drop_eq_nil_of_le (List.getElem?_eq_none_iff.mp hnext)]
      rfl
    | some attrs =>
      have hne := h.ne_empty (List.mem_of_getElem? hnext)
      obtain ⟨hlt, hget⟩ := List.getElem?_eq_some_iff.mp hnext
      simp only [Option.getD_some, hne, Bool.false_eq_true, if_false]
      rw [ih (by omega), List.drop_eq_getElem_cons hlt, hget]
      rfl

theorem length_le_size : records.length ≤ (numbered .ok records).headers.size := by
  obtain ⟨name, hname⟩ := List.exists_mem_of_ne_nil names h.nonempty
  have hnodup : ((List.range records.length).map fun j => name ++ decimal j).Nodup := by
    apply List.Nodup.map_on _ List.nodup_range
    intro j _ k _ heq
    exact (append_decimal_inj (h.digitFree name hname) (h.digitFree name hname) heq).2
  have hsubset : ((List.range records.length).map fun j => name ++ decimal j) ⊆
      (numbered .ok records).headers.keys := by
    intro key hkey
    obtain ⟨j, hj, rfl⟩ := List.mem_map.mp hkey
    rw [Std.ExtTreeMap.mem_keys, Table.mem_iff_exists_row, getElem?_numbered h hname,
      List.getElem?_eq_getElem (List.mem_range.mp hj)]
    exact ⟨_, rfl⟩
  have hle := (hnodup.subperm hsubset).length_le
  rwa [List.length_map, List.length_range, Std.ExtTreeMap.length_keys] at hle

/-- The client reads every record but the first. -/
theorem multiListFromMB_numbered : multiListFromMB (numbered .ok records) names = some records.tail := by
  have hsize := length_le_size h
  rw [multiListFromMB, multiListFrom_numbered h (by omega), List.drop_one]

end

section

variable {mb : MessageBlock} {attrs : AttributeList} {suffix : Str}

theorem getElem?_setAll (mb : MessageBlock) (attrs : AttributeList) (suffix name : Str) :
    (mb.setAll attrs suffix).headers[name ++ suffix]? = attrs[name]?.or mb.headers[name ++ suffix]? := by
  cases hname : attrs[name]? with
  | some value => rw [getElem?_headers_setAll_self mb hname, Option.some_or]
  | none =>
    rw [getElem?_headers_setAll, Option.none_or]
    rintro other hother heq
    obtain rfl := List.append_cancel_right heq
    obtain ⟨value, hvalue⟩ := Table.mem_iff_exists_row.mp hother
    rw [hname] at hvalue
    cases hvalue

theorem set_setAll (mb : MessageBlock) (attrs : AttributeList) (suffix name value : Str) :
    (mb.setAll attrs suffix).set (name ++ suffix) value = mb.setAll (attrs.insert name value) suffix := by
  have hheaders : (mb.setAll attrs suffix).headers.insert (name ++ suffix) value =
      (mb.setAll (attrs.insert name value) suffix).headers := by
    apply Std.ExtTreeMap.ext_getElem?
    intro key
    rw [Table.getElem?_insert_row]
    by_cases hkey : ∃ other, key = other ++ suffix
    · obtain ⟨other, rfl⟩ := hkey
      rw [getElem?_setAll, getElem?_setAll, Table.getElem?_insert_row]
      obtain rfl | hne := eq_or_ne name other
      · rw [if_pos rfl, if_pos rfl, Option.some_or]
      · rw [if_neg hne, if_neg fun heq => hne (List.append_cancel_right heq)]
    · have hother : ∀ other, other ++ suffix ≠ key := fun other heq => hkey ⟨other, heq.symm⟩
      rw [if_neg (hother name), getElem?_headers_setAll mb fun other _ => hother other,
        getElem?_headers_setAll mb fun other _ => hother other]
  rw [headers_setAll, headers_setAll] at hheaders
  rw [setAll_eq mb attrs, setAll_eq mb (attrs.insert name value), ← hheaders]
  rfl

def submissionRecord (env : Env) (c : Contest) (attrs : AttributeList) : Option AttributeList := do
  let submissionId ← fromStringU32 (attrs.getD (str "submission_id") [])
  let time ← fromStringTime (attrs.getD (str "time") [])
  let groupId ← fromStringU32 (attrs.getD (str "group_id") [])
  let st := (getSubmissionState c env.order submissionId).getD pendingState
  return attrs
    |>.insert (str "contesttime") (Misc.toString (env.timer.contestTime env.now groupId time))
    |>.insert (str "result") (Misc.toString st.state)
    |>.insert (str "comment") st.comment

theorem submissionToMB_eq (env : Env) (c : Contest) (attrs : AttributeList) (mb : MessageBlock) (suffix : Str) :
    submissionToMB env c attrs mb suffix =
      (submissionRecord env c attrs).map fun record => mb.setAll record suffix := by
  unfold submissionToMB submissionRecord
  simp only [Option.bind_eq_bind, Option.map_bind]
  congr 1
  funext submissionId
  rw [Function.comp_apply, Option.map_bind]
  congr 1
  funext time
  rw [Function.comp_apply, Option.map_bind]
  congr 1
  funext groupId
  rw [set_setAll, set_setAll, set_setAll]
  rfl

theorem foldlM_setAll {f : AttributeList → Option AttributeList} (list : List AttributeList) (n : Nat)
    (mb : MessageBlock) :
    (list.zipIdx n).foldlM (fun mb r => (f r.1).map fun record => mb.setAll record (decimal r.2)) mb =
      (list.mapM f).map fun records => (records.zipIdx n).foldl (fun mb r => mb.setAll r.1 (decimal r.2)) mb := by
  induction list generalizing n mb with
  | nil => rfl
  | cons attrs list ih =>
    rw [List.zipIdx_cons, List.foldlM_cons, List.mapM_cons]
    cases f attrs with
    | none => rfl
    | some record =>
      simp only [Option.map_some, Option.bind_eq_bind, Option.bind_some, ih]
      cases list.mapM f with
      | none | some records => rfl

theorem submissionsToMB_eq (s : Server) (c : Contest) (list : List AttributeList) :
    submissionsToMB s c list = (list.mapM (submissionRecord (env s 0) c)).map (numbered .ok) := by
  unfold submissionsToMB
  simp only [submissionToMB_eq]
  exact foldlM_setAll list 0 .ok

theorem mem_submissionRecord {env : Env} {c : Contest} {attrs record : AttributeList}
    (h : submissionRecord env c attrs = some record) (name : Str) : name ∈ record ↔
      name = str "comment" ∨ name = str "result" ∨ name = str "contesttime" ∨ name ∈ attrs := by
  unfold submissionRecord at h
  simp only [Option.bind_eq_bind, Option.bind_eq_some_iff] at h
  obtain ⟨submissionId, -, time, -, groupId, -, h⟩ := h
  cases h
  simp only [Table.mem_insert_row, eq_comm]

end

inductive Listing
  | submissions
  | clarifications
  | clarificationRequests
  deriving DecidableEq

namespace Listing

variable (s : Server) (cc : Connection)

def handler : Listing → ClientProg MessageBlock
  | submissions => actGetSubmissions s cc
  | clarifications => actGetClarifications s cc
  | clarificationRequests => actGetClarificationRequests s cc

/-- The records that are encoded, unless a number or a question cannot be read. -/
def records (c : Contest) : Listing → Option (List AttributeList)
  | submissions => (getSubmissions c (userOrAll cc .seeAllSubmissions)).mapM (submissionRecord (env s 0) c)
  | clarifications => getClarifications c s.clarificationOrder (userOrAll cc .seeAllClarifications)
  | clarificationRequests =>
    some (getClarificationRequests c s.requestOrder (userOrAll cc .seeAllClarificationRequests))

def names : Listing → List Str
  | submissions =>
    ["comment", "result", "contesttime", "group_id", "prob_id", "problem", "time", "submission_id"].map str
  | clarifications => ["answer", "question", "time", "problem", "req_id", "id"].map str
  | clarificationRequests => ["question", "time", "problem", "user_id", "id"].map str

variable {s cc}

theorem result_handler {db : Db} (listing : Listing) {records : List AttributeList}
    (h : listing.records s cc db.contest = some records) :
    (listing.handler s cc).result db = .ok (numbered .ok records) := by
  cases listing with
  | submissions =>
    have hreply : submissionsToMB s db.contest (getSubmissions db.contest (userOrAll cc .seeAllSubmissions)) =
        some (numbered .ok records) := by
      rw [submissionsToMB_eq]
      exact congrArg (Option.map (numbered .ok)) h
    rw [handler, actGetSubmissions, result_query_bind, hreply]
    rfl
  | clarifications =>
    have hlist : getClarifications db.contest s.clarificationOrder (userOrAll cc .seeAllClarifications) =
        some records := h
    rw [handler, actGetClarifications, result_query_bind, hlist]
    rfl
  | clarificationRequests =>
    cases h
    rfl

theorem uniform_records {c : Contest} (listing : Listing) {list : List AttributeList}
    (h : listing.records s cc c = some list) : Uniform listing.names list := by
  cases listing with
  | submissions =>
    refine ⟨by decide, by decide, fun record hrecord name => ?_⟩
    obtain ⟨attrs, hattrs, hshown⟩ := (mem_of_mapM h).mp hrecord
    obtain ⟨⟨id, row⟩, -, hrow⟩ := List.mem_filterMap.mp hattrs
    dsimp only at hrow
    split at hrow
    · unfold submissionAttrs at hrow
      split at hrow
      · cases hrow
        rw [mem_submissionRecord hshown]
        simp only [Table.mem_insert_row, Std.ExtTreeMap.not_mem_empty, names, List.map_cons, List.map_nil,
          List.mem_cons, List.not_mem_nil, @eq_comm _ _ name]
      · cases hrow
    · cases hrow
  | clarifications =>
    refine ⟨by decide, by decide, fun record hrecord name => ?_⟩
    obtain ⟨⟨id, row⟩, -, hattrs⟩ := (mem_of_mapM h).mp hrecord
    obtain ⟨request, -, rfl⟩ := Option.map_eq_some_iff.mp hattrs
    simp only [Table.mem_insert_row, Std.ExtTreeMap.not_mem_empty, names, List.map_cons, List.map_nil, List.mem_cons,
      List.not_mem_nil, @eq_comm _ _ name]
  | clarificationRequests =>
    refine ⟨by decide, by decide, fun record hrecord name => ?_⟩
    cases h
    obtain ⟨⟨id, row⟩, -, rfl⟩ := List.mem_map.mp hrecord
    simp only [requestAttrs, Table.mem_insert_row, Std.ExtTreeMap.not_mem_empty, names, List.map_cons, List.map_nil,
      List.mem_cons, List.not_mem_nil, @eq_comm _ _ name]

/-- The client gets the list back if and only if it is empty. -/
theorem multiListFromMB_eq_iff (s : Server) (cc : Connection) (db : Db) (listing : Listing) (list : List AttributeList)
    (h : listing.records s cc db.contest = some list) :
    ∃ reply, (listing.handler s cc).result db = .ok reply ∧
      (multiListFromMB reply listing.names = some list ↔ list = []) := by
  refine ⟨numbered .ok list, listing.result_handler h, ?_⟩
  rw [multiListFromMB_numbered (listing.uniform_records h)]
  cases list with
  | nil => exact iff_of_true rfl rfl
  | cons attrs list =>
    refine iff_of_false (fun heq => ?_) (List.cons_ne_nil attrs list)
    have hlength := congrArg List.length (Option.some.inj heq)
    rw [List.tail_cons, List.length_cons] at hlength
    omega

end Listing

section

open Totality (server contestant)
open Updates (asked)

def askedAttrs : AttributeList :=
  requestAttrs asked 5 { userId := 33, time := 100, problemId := 0, text := str "May we use C?" }

theorem records_asked : Listing.clarificationRequests.records server contestant asked = some [askedAttrs] := by
  decide +kernel

/-- The contestant has no clarifications, and one request. -/
theorem multiListFromMB_eq_nothing :
    (∃ reply, (Listing.clarifications.handler server contestant).result ⟨.empty, asked⟩ = .ok reply ∧
      multiListFromMB reply Listing.clarifications.names = some []) ∧
    ∃ reply, (Listing.clarificationRequests.handler server contestant).result ⟨.empty, asked⟩ = .ok reply ∧
      multiListFromMB reply Listing.clarificationRequests.names ≠ some [askedAttrs] := by
  have hlist : Listing.clarifications.records server contestant asked = some [] := by decide +kernel
  obtain ⟨reply, hreply, hiff⟩ :=
    Listing.multiListFromMB_eq_iff server contestant ⟨.empty, asked⟩ .clarifications [] hlist
  obtain ⟨reply', hreply', hiff'⟩ :=
    Listing.multiListFromMB_eq_iff server contestant ⟨.empty, asked⟩ .clarificationRequests [askedAttrs] records_asked
  exact ⟨⟨reply, hreply, hiff.mpr rfl⟩, reply', hreply', fun h => List.cons_ne_nil _ _ (hiff'.mp h)⟩

/-- The contestant has asked one question, and the client is told of none. -/
theorem multiListFromMB_ne_asked : ∃ attrs reply,
    Listing.clarificationRequests.records server contestant asked = some [attrs] ∧
      (Listing.clarificationRequests.handler server contestant).result ⟨.empty, asked⟩ = .ok reply ∧
      multiListFromMB reply Listing.clarificationRequests.names = some [] :=
  ⟨askedAttrs, _, records_asked, Listing.clarificationRequests.result_handler records_asked,
    multiListFromMB_numbered (Listing.clarificationRequests.uniform_records records_asked)⟩

end

end Abacus.Client.Lists
