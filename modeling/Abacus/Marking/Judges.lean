import Abacus.Client.Marking
import Abacus.Marking.Solved

/-! # Decisions of judges

The state of a submission is checked when the request of a judge comes in, and the mark is stored when its
message is processed. In between another judge can pass the same check.
-/

namespace Abacus.Marking.Judges

open Library Library.Machine Database.Schema Database.Marks Client.Permissions Client.Marking
open Peer.Classes Peer.Process Solved

/-- A stored user whose type makes a judge, but not one who may override. -/
def IsJudge (c : Contest) (userId : Nat) : Prop :=
  ∃ user ∈ c.user[userId]?, getPermissions user.type .judge = true ∧ getPermissions user.type .mark = false ∧
    getPermissions user.type .judgeOverride = false

instance (c : Contest) (userId : Nat) : Decidable (IsJudge c userId) :=
  inferInstanceAs (Decidable (∃ user ∈ c.user[userId]?, _))

structure Bench where
  contest : Contest
  checked : List MarkMessage
  created : List MarkMessage
  /-- The marks that were stored, each with the state that the submission had before. -/
  stored : List (MarkMessage × Option SubmissionState)

inductive Label
  | check (m : MarkMessage)
  /-- The message is made, or cannot be made. -/
  | create (m : MarkMessage) (made : Bool)
  | process (m : MarkMessage)

variable (order : OrderBy (MarkRow × Nat))

def step (b : Bench) : Label → Option Bench
  | .check m =>
    if IsJudge b.contest m.marker then
      match judgeRefusal (getSubmissionState b.contest order m.submissionId) with
      | none => some { b with checked := m :: b.checked }
      | some _ => some b
    else none
  | .create m made =>
    if m ∈ b.checked then
      some { b with checked := b.checked.erase m, created := if made then m :: b.created else b.created }
    else none
  | .process m =>
    if m ∈ b.created then
      some { b with
        contest := MarkMessage.marked m b.contest
        created := b.created.erase m
        stored := (m, getSubmissionState b.contest order m.submissionId) :: b.stored }
    else none

/-- Marks are placed by users who may mark or judge. -/
def ByMarkers (c : Contest) : Prop :=
  ∀ (id marker : Nat) (row : SubmissionMark) (user : User), c.submissionMark[(id, marker)]? = some row →
    c.user[marker]? = some user → getPermissions user.type .mark = true ∨ getPermissions user.type .judge = true

def machine : Machine Bench Label :=
  ofFun (fun b => ByMarkers b.contest ∧ b.checked = [] ∧ b.created = [] ∧ b.stored = []) (step order)

/-- At most one request for each submission leads to a stored mark, and the state was JUDGE before. -/
def OneDecision (b : Bench) : Prop :=
  (b.stored.map fun x => x.1.submissionId).Nodup ∧ ∀ x ∈ b.stored, ∃ state ∈ x.2, state.state = judgeResult

/-- A request is checked only while no other one for the same submission is on its way. -/
def Alone (b : Bench) : Label → Prop
  | .check m => ∀ m' ∈ b.checked ++ b.created, m'.submissionId ≠ m.submissionId
  | _ => True

instance (b : Bench) : (l : Label) → Decidable (Alone b l)
  | .check m => inferInstanceAs (Decidable (∀ m' ∈ b.checked ++ b.created, m'.submissionId ≠ m.submissionId))
  | .create _ _ | .process _ => isTrue trivial

theorem markRefusal_of_judge {s : Client.Action.Server} {cc : Client.Action.Connection} (c : Contest) (id : Nat)
    (hjudge : cc.permissions .judge = true) (hmark : cc.permissions .mark = false)
    (hoverride : cc.permissions .judgeOverride = false) :
    markRefusal s cc c id = judgeRefusal (getSubmissionState c s.stateOrder id) := by
  rw [markRefusal, if_neg (Bool.eq_false_iff.mp hoverride), if_neg (Bool.eq_false_iff.mp hmark), if_pos hjudge]

theorem le_of_judge {type : Nat} (h : getPermissions type .judge = true) : type ≤ 2 := by
  unfold getPermissions UserType.ofCode at h
  split at h <;> first | omega | cases h

theorem judge_of_le {type : Nat} (h : getPermissions type .mark = true ∨ getPermissions type .judge = true)
    (hle : type ≤ 2) : getPermissions type .judge = true := by
  obtain rfl | rfl | rfl : type = 0 ∨ type = 1 ∨ type = 2 := by omega
  · exact h.elim (fun hmark => by cases hmark) id
  · rfl
  · rfl

section

variable {order} {c : Contest} {m : MarkMessage}

theorem judgeResult_of_open {state : Option SubmissionState} (h : judgeRefusal state = none) :
    ∃ st ∈ state, st.state = judgeResult := by
  cases state with
  | none => cases h
  | some st =>
    rw [judgeRefusal] at h
    split at h
    · cases h
    · split at h
      · cases h
      · next hresult => exact ⟨st, rfl, not_not.mp hresult⟩

theorem refused_of_judged {st : SubmissionState} (h : getPermissions st.utype .judge = true) :
    judgeRefusal (some st) ≠ none := by
  rw [judgeRefusal, if_pos h]
  exact nofun

theorem ByMarkers.marked (h : ByMarkers c) (hjudge : IsJudge c m.marker) : ByMarkers (MarkMessage.marked m c) := by
  intro id marker row user hrow huser
  change (c.submissionMark.insert (m.submissionId, m.marker) _)[(id, marker)]? = some row at hrow
  rw [Table.getElem?_insert_row] at hrow
  split at hrow
  · next heq =>
    obtain ⟨judge, hjudge, hpermission, -⟩ := hjudge
    obtain rfl := congrArg Prod.snd heq
    obtain rfl := Option.some.inj (hjudge.symm.trans huser)
    exact .inr hpermission
  · exact h id marker row user hrow huser

theorem refused_marked (h : ByMarkers c) (hjudge : IsJudge c m.marker) :
    judgeRefusal (getSubmissionState (MarkMessage.marked m c) order m.submissionId) ≠ none := by
  have hmarkers := h.marked hjudge
  obtain ⟨judge, huser, hpermission, -⟩ := hjudge
  let row : SubmissionMark :=
    { markTime := m.time, result := min m.result maxInt, remark := m.comment, serverId := m.serverId }
  have hrow : (((m.submissionId, m.marker), row), judge.type) ∈ stateRows (MarkMessage.marked m c) m.submissionId := by
    refine (mem_stateRows _).mpr ⟨(mem_markRows _).mpr ⟨rfl, ?_⟩, judge, huser, rfl⟩
    show (c.submissionMark.insert (m.submissionId, m.marker) row)[(m.submissionId, m.marker)]? = some row
    exact Std.ExtTreeMap.getElem?_insert_self
  cases hhead : (order.sort (fun r => (r.2 : Int)) (stateRows (MarkMessage.marked m c) m.submissionId)).head? with
  | none =>
    rw [order.head?_sort_eq_none.mp hhead] at hrow
    cases hrow
  | some top =>
    obtain ⟨hmem, hleast⟩ := order.head?_sort hhead
    obtain ⟨hmark, user, huser', htype⟩ := (mem_stateRows _).mp hmem
    obtain ⟨hid, hmarked⟩ := (mem_markRows _).mp hmark
    have hle : top.2 ≤ judge.type := Int.ofNat_le.mp (hleast _ hrow)
    have htop : getPermissions top.2 .judge = true := by
      rw [← htype] at hle ⊢
      exact judge_of_le (hmarkers _ _ _ user hmarked huser') (hle.trans (le_of_judge hpermission))
    have hstate : getSubmissionState (MarkMessage.marked m c) order m.submissionId = some (rowState top) := by
      rw [getSubmissionState, hhead, Option.map_some]
    rw [hstate]
    exact refused_of_judged htop

theorem state_marked_of_ne {id : Nat} (h : m.submissionId ≠ id) :
    getSubmissionState (MarkMessage.marked m c) order id = getSubmissionState c order id :=
  getSubmissionState_congr order (MarkMessage.getElem?_marked h) fun _ => rfl

end

section

variable {b : Bench}

/-- The requests on their way are for different submissions, each open to a judge; one with a stored decision is
closed. -/
structure Orderly (b : Bench) : Prop where
  byMarkers : ByMarkers b.contest
  judges : ∀ m ∈ b.checked ++ b.created, IsJudge b.contest m.marker
  apart : ((b.checked ++ b.created).map fun m => m.submissionId).Nodup
  isOpen : ∀ m ∈ b.checked ++ b.created, judgeRefusal (getSubmissionState b.contest order m.submissionId) = none
  closed : ∀ x ∈ b.stored, judgeRefusal (getSubmissionState b.contest order x.1.submissionId) ≠ none
  decided : OneDecision b

variable {order}

theorem Orderly.checked (h : Orderly order b) {m : MarkMessage} (hjudge : IsJudge b.contest m.marker)
    (hopen : judgeRefusal (getSubmissionState b.contest order m.submissionId) = none) (halone : Alone b (.check m)) :
    Orderly order { b with checked := m :: b.checked } where
  byMarkers := h.byMarkers
  judges := List.forall_mem_cons.mpr ⟨hjudge, h.judges⟩
  apart := by
    refine List.nodup_cons.mpr ⟨fun hmem => ?_, h.apart⟩
    obtain ⟨m', hm', hid⟩ := List.mem_map.mp hmem
    exact halone m' hm' hid
  isOpen := List.forall_mem_cons.mpr ⟨hopen, h.isOpen⟩
  closed := h.closed
  decided := h.decided

theorem Orderly.of_subperm (h : Orderly order b) {checked created : List MarkMessage}
    (hsub : (checked ++ created).Subperm (b.checked ++ b.created)) :
    Orderly order { b with checked, created } where
  byMarkers := h.byMarkers
  judges m hm := h.judges m (hsub.subset hm)
  apart := by
    obtain ⟨l, hperm, hsublist⟩ := hsub
    exact (hperm.map _).nodup_iff.mp (h.apart.sublist (hsublist.map _))
  isOpen m hm := h.isOpen m (hsub.subset hm)
  closed := h.closed
  decided := h.decided

theorem Orderly.processed (h : Orderly order b) {m : MarkMessage} (hm : m ∈ b.created) : Orderly order { b with
      contest := MarkMessage.marked m b.contest
      created := b.created.erase m
      stored := (m, getSubmissionState b.contest order m.submissionId) :: b.stored } := by
  have hperm : (b.checked ++ b.created).Perm (m :: (b.checked ++ b.created.erase m)) :=
    ((List.perm_cons_erase hm).append_left _).trans List.perm_middle
  have hmem : m ∈ b.checked ++ b.created := List.mem_append_right _ hm
  have hothers : ∀ m' ∈ b.checked ++ b.created.erase m, m' ∈ b.checked ++ b.created := fun m' hm' =>
    hperm.symm.subset (List.mem_cons_of_mem m hm')
  have hnodup := (hperm.map fun m => m.submissionId).nodup_iff.mp h.apart
  rw [List.map_cons, List.nodup_cons] at hnodup
  have hopen := h.isOpen m hmem
  have hjudge := h.judges m hmem
  -- a stored decision is never for the submission of a request that is still on its way
  have hfresh : ∀ x ∈ b.stored, m.submissionId ≠ x.1.submissionId := by
    intro x hx heq
    exact h.closed x hx (heq ▸ hopen)
  constructor
  case byMarkers => exact h.byMarkers.marked hjudge
  case judges => exact fun m' hm' => h.judges m' (hothers m' hm')
  case apart => exact hnodup.2
  case isOpen =>
    intro m' hm'
    have hne : m.submissionId ≠ m'.submissionId := fun heq =>
      hnodup.1 (List.mem_map.mpr ⟨m', hm', heq.symm⟩)
    rw [state_marked_of_ne hne]
    exact h.isOpen m' (hothers m' hm')
  case closed =>
    refine List.forall_mem_cons.mpr ⟨refused_marked h.byMarkers hjudge, fun x hx => ?_⟩
    rw [state_marked_of_ne (hfresh x hx)]
    exact h.closed x hx
  case decided =>
    constructor
    · refine List.nodup_cons.mpr ⟨fun hstored => ?_, h.decided.1⟩
      obtain ⟨x, hx, hid⟩ := List.mem_map.mp hstored
      exact hfresh x hx hid.symm
    · exact List.forall_mem_cons.mpr ⟨judgeResult_of_open hopen, h.decided.2⟩

theorem Orderly.step {b' : Bench} {l : Label} (h : Orderly order b) (halone : Alone b l)
    (hstep : step order b l = some b') : Orderly order b' := by
  cases l with
  | check m =>
    rw [Judges.step, Option.ite_none_right_eq_some] at hstep
    obtain ⟨hjudge, hstep⟩ := hstep
    split at hstep
    · next hopen =>
      cases hstep
      exact h.checked hjudge hopen halone
    · cases hstep
      exact h
  | create m made =>
    rw [Judges.step, Option.ite_none_right_eq_some] at hstep
    obtain ⟨hm, hstep⟩ := hstep
    cases hstep
    have hperm := List.perm_cons_erase hm
    cases made with
    | true => exact h.of_subperm (List.perm_middle.trans (hperm.symm.append_right _)).subperm
    | false => exact h.of_subperm (List.erase_sublist.append_right _).subperm
  | process m =>
    rw [Judges.step, Option.ite_none_right_eq_some] at hstep
    obtain ⟨hm, hstep⟩ := hstep
    cases hstep
    exact h.processed hm

end

theorem oneDecision_of_alone (b : Bench) (h : (machine order).Reach Alone b) : OneDecision b := by
  have horderly : Orderly order b := by
    apply h.invariant
    · rintro ⟨contest, checked, created, stored⟩ ⟨hmarkers, rfl, rfl, rfl⟩
      exact ⟨hmarkers, nofun, List.nodup_nil, nofun, nofun, List.nodup_nil, nofun⟩
    · exact fun b l b' hb hok hstep => hb.step hok hstep
  exact horderly.decided

def person (type : Nat) : User where
  username := []
  friendlyname := []
  password := []
  type := type
  group := 1
  bonusPoints := 0
  bonusSeconds := 0

def deferred : Bench where
  contest := { Contest.empty with
    user := ((((∅ : Table Nat User).insert 2 (person 2)).insert 3 (person 2)).insert 4 (person 4))
    submissionMark :=
      ((∅ : Table (Nat × Nat) SubmissionMark).insert (7, 4) ⟨10, 5, [], 1⟩).insert (8, 4) ⟨10, 5, [], 1⟩ }
  checked := []
  created := []
  stored := []

theorem init_deferred : (machine .stable).init deferred := by
  refine ⟨?_, rfl, rfl, rfl⟩
  intro id marker row user _ huser
  change ((((∅ : Table Nat User).insert 2 (person 2)).insert 3 (person 2)).insert 4 (person 4))[marker]? =
    some user at huser
  rw [Table.getElem?_insert_row, Table.getElem?_insert_row, Table.getElem?_insert_row] at huser
  split at huser
  · cases huser
    exact .inl rfl
  · split at huser
    · cases huser
      exact .inr rfl
    · split at huser
      · cases huser
        exact .inr rfl
      · cases huser

def decision (submission judge : Nat) : MarkMessage where
  submissionId := submission
  marker := judge
  result := 0
  time := 20
  serverId := 1
  comment := []
  files := []

/-- One judge decides each submission; the other comes later and is refused. -/
theorem oneDecision_inTurn : ∃ b, (machine .stable).Reach Alone b ∧
    b.stored.map (fun x => x.1) = [decision 8 3, decision 7 2] ∧ OneDecision b := by
  have hplay : ∃ b, play (step .stable) Alone deferred
      [.check (decision 7 2), .check (decision 8 3), .create (decision 8 3) true, .create (decision 7 2) true,
        .process (decision 7 2), .check (decision 7 3), .process (decision 8 3)] = some b ∧
      b.stored.map (fun x => x.1) = [decision 8 3, decision 7 2] := by decide +kernel
  obtain ⟨b, hplay, hstored⟩ := hplay
  have hreach : (machine .stable).Reach Alone b := Machine.Reach.play (.init init_deferred) hplay
  exact ⟨b, hreach, hstored, oneDecision_of_alone _ _ hreach⟩

/-- Both judges pass the check before either message is processed. -/
theorem not_oneDecision_together : ∃ b, (machine .stable).Reachable b ∧
    b.stored.map (fun x => (x.1, x.2.map (·.state))) = [(decision 7 3, some 0), (decision 7 2, some 5)] ∧
      ¬OneDecision b := by
  have hplay : ∃ b, play (step .stable) (fun _ _ => True) deferred
      [.check (decision 7 2), .check (decision 7 3), .create (decision 7 2) true, .create (decision 7 3) true,
        .process (decision 7 2), .process (decision 7 3)] = some b ∧
      b.stored.map (fun x => (x.1, x.2.map (·.state))) = [(decision 7 3, some 0), (decision 7 2, some 5)] ∧
      b.stored.map (fun x => x.1.submissionId) = [7, 7] := by decide +kernel
  obtain ⟨b, hplay, hstored, hids⟩ := hplay
  refine ⟨b, Machine.Reach.play (.init init_deferred) hplay, hstored, fun h => ?_⟩
  have hnodup := h.1
  rw [hids] at hnodup
  exact absurd hnodup (by decide)

end Abacus.Marking.Judges
