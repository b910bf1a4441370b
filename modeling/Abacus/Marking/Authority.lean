import Abacus.Client.Marking
import Abacus.Marking.Timeouts

/-! # Which marks a marker may place

A mark request is checked against what is issued to its connection, then the pool is told, and then the
message is created. A timeout or a preemption in between takes the submission away, and the message is
created all the same.
-/

namespace Abacus.Marking.Authority

open Library Markers Ledger Timeouts

/-- A mark request of a connection that may mark but not override. -/
structure Request where
  cc : Nat
  submissionId : Nat
  deriving DecidableEq

/-- A request with the issue that the connection held when the pool was told, if that was for the submission. -/
structure Report where
  request : Request
  issue : Option Nat
  deriving DecidableEq

structure Desk where
  pool : Pool
  log : List IssueTime
  /-- Requests that have passed the check. -/
  checked : List Request
  /-- Requests after `notifyMarked`. -/
  notified : List Report
  /-- Requests whose message was created. -/
  created : List Report

def hasIssued (p : Pool) (cc : Nat) : Nat := (p.issued[cc]?).getD 0

def number (log : List IssueTime) (cc : Nat) : Nat := (log.dropWhile fun e => e.cc ≠ cc).length

def report (d : Desk) (r : Request) : Report where
  request := r
  issue := if d.pool.issued[r.cc]? = some r.submissionId then some (number d.log r.cc) else none

inductive Label
  /-- Any other call of the pool. -/
  | call (call : Call)
  | check (r : Request)
  /-- The request turns out to be malformed: the marker is preempted. -/
  | reject (r : Request)
  | notify (r : Request)
  | create (x : Report)
  /-- The message cannot be made. -/
  | fail (x : Report)

section

variable (outcome : Nat → Option Int) (timeout : Nat)

def Desk.perform (d : Desk) (call : Call) : Option Desk :=
  (Ledger.perform outcome timeout call d.pool).map fun pool =>
    { d with pool, log := issuesOf outcome timeout call d.pool ++ d.log }

def step (d : Desk) : Label → Option Desk
  | .call call => d.perform outcome timeout call
  | .check r => some (if hasIssued d.pool r.cc = r.submissionId then { d with checked := r :: d.checked } else d)
  | .reject r =>
    if r ∈ d.checked then
      { d with checked := d.checked.erase r }.perform outcome timeout (.preemptMarker r.cc) else none
  | .notify r =>
    if r ∈ d.checked then
      { d with checked := d.checked.erase r, notified := report d r :: d.notified }.perform outcome timeout
        (.notifyMarked r.cc r.submissionId)
    else none
  | .create x =>
    if x ∈ d.notified then some { d with notified := d.notified.erase x, created := x :: d.created } else none
  | .fail x => if x ∈ d.notified then some { d with notified := d.notified.erase x } else none

def machine : Machine Desk Label :=
  Machine.ofFun (fun d => d = ⟨Pool.empty, [], [], [], []⟩) (step outcome timeout)

/-- Every message is for a submission issued to the connection when the pool was told, and no issue leads to two. -/
def Authorised (d : Desk) : Prop :=
  (∀ x ∈ d.created, x.issue.isSome = true) ∧ (d.created.filterMap Report.issue).Nodup

/-- No submission has the number 0, and nothing happens to the connection of a request between the check and
`notifyMarked`. -/
def Undisturbed (d : Desk) : Label → Prop
  | .call (.preemptMarker cc) => ∀ r ∈ d.checked, r.cc ≠ cc
  | .call (.notifyMarked cc _) => ∀ r ∈ d.checked, r.cc ≠ cc
  | .call (.checkForTimeouts readings) =>
    ∀ r ∈ d.checked, ∀ e ∈ d.pool.issueTimes, e.cc = r.cc → e.submissionId = r.submissionId →
      ∀ now ∈ readings, now - e.time ≤ timeout
  | .check r => r.submissionId ≠ 0
  | .reject r => ∀ r' ∈ d.checked.erase r, r'.cc ≠ r.cc
  | .notify r => ∀ r' ∈ d.checked.erase r, r'.cc ≠ r.cc
  | _ => True

instance (d : Desk) : (l : Label) → Decidable (Undisturbed timeout d l)
  | .call (.preemptMarker cc) => inferInstanceAs (Decidable (∀ r ∈ d.checked, r.cc ≠ cc))
  | .call (.notifyMarked cc _) => inferInstanceAs (Decidable (∀ r ∈ d.checked, r.cc ≠ cc))
  | .call (.checkForTimeouts readings) => inferInstanceAs (Decidable (∀ r ∈ d.checked, ∀ e ∈ d.pool.issueTimes,
      e.cc = r.cc → e.submissionId = r.submissionId → ∀ now ∈ readings, now - e.time ≤ timeout))
  | .check r => inferInstanceAs (Decidable (r.submissionId ≠ 0))
  | .reject r => inferInstanceAs (Decidable (∀ r' ∈ d.checked.erase r, r'.cc ≠ r.cc))
  | .notify r => inferInstanceAs (Decidable (∀ r' ∈ d.checked.erase r, r'.cc ≠ r.cc))
  | .call (.enqueueMarker _) | .call (.enqueueSubmission _) | .create _ | .fail _ => isTrue trivial

end

theorem markRefusal_eq_none_iff {s : Client.Action.Server} {cc : Client.Action.Connection} {c : Database.Schema.Contest}
    {submissionId : Nat} (hmark : cc.permissions .mark = true) (hoverride : cc.permissions .judgeOverride = false) :
    Client.Marking.markRefusal s cc c submissionId = none ↔ s.issued = submissionId := by
  rw [Client.Marking.markRefusal, if_neg (Bool.eq_false_iff.mp hoverride), if_pos hmark]
  split
  · next h => exact iff_of_true rfl h
  · next h => exact iff_of_false nofun h

section

variable {new log : List IssueTime} {cc cc' : Nat} {outcome : Nat → Option Int} {timeout : Nat} {d d' : Desk}

theorem number_append_of_forall_ne (h : ∀ e ∈ new, e.cc ≠ cc) (log : List IssueTime) :
    number (new ++ log) cc = number log cc := by
  unfold number
  rw [List.dropWhile_append_of_pos]
  exact fun e he => decide_eq_true (h e he)

theorem lt_number_append (h : ∃ e ∈ new, e.cc = cc) (log : List IssueTime) : log.length < number (new ++ log) cc := by
  unfold number
  induction new with
  | nil =>
    obtain ⟨e, he, -⟩ := h
    cases he
  | cons e new ih =>
    by_cases hcc : e.cc = cc
    · rw [List.cons_append, List.dropWhile_cons_of_neg (by simp [hcc])]
      simp only [List.length_cons, List.length_append]
      omega
    · rw [List.cons_append, List.dropWhile_cons_of_pos (by simp [hcc])]
      apply ih
      obtain ⟨e', he', hcc'⟩ := h
      obtain rfl | he' := List.mem_cons.mp he'
      · exact absurd hcc' hcc
      · exact ⟨e', he', hcc'⟩

theorem number_le_length (log : List IssueTime) (cc : Nat) : number log cc ≤ log.length :=
  (List.dropWhile_suffix _).length_le

theorem number_inj {e e' : IssueTime} (h : log.find? (fun e => e.cc = cc) = some e)
    (h' : log.find? (fun e => e.cc = cc') = some e') (heq : number log cc = number log cc') : cc = cc' := by
  induction log with
  | nil => cases h
  | cons x log ih =>
    unfold number at heq
    by_cases hcc : x.cc = cc
    · by_cases hcc' : x.cc = cc'
      · exact hcc.symm.trans hcc'
      · rw [List.dropWhile_cons_of_neg (by simp [hcc]), List.dropWhile_cons_of_pos (by simp [hcc'])] at heq
        have hle := number_le_length log cc'
        unfold number at hle
        simp only [List.length_cons] at heq
        omega
    · by_cases hcc' : x.cc = cc'
      · rw [List.dropWhile_cons_of_pos (by simp [hcc]), List.dropWhile_cons_of_neg (by simp [hcc'])] at heq
        have hle := number_le_length log cc
        unfold number at hle
        simp only [List.length_cons] at heq
        omega
      · rw [List.dropWhile_cons_of_pos (by simp [hcc]), List.dropWhile_cons_of_pos (by simp [hcc'])] at heq
        rw [List.find?_cons_of_neg (by simp [hcc])] at h
        rw [List.find?_cons_of_neg (by simp [hcc'])] at h'
        exact ih h h' heq

def used (d : Desk) : List Nat := (d.notified ++ d.created).filterMap Report.issue

/-- The requests that have passed the check and the reports are good; what a connection outside `X` holds was not
reported. -/
structure KeptBut (X : Nat → Prop) (d : Desk) : Prop where
  once : (connections d.pool).Nodup
  accounts : Accounts d.log d.pool
  held : ∀ r ∈ d.checked, d.pool.issued[r.cc]? = some r.submissionId
  reported : ∀ x ∈ d.notified ++ d.created, x.issue.isSome = true
  nodup : (used d).Nodup
  bound : ∀ n ∈ used d, n ≤ d.log.length
  unused : ∀ cc sd : Nat, d.pool.issued[cc]? = some sd → X cc ∨ number d.log cc ∉ used d

def Kept (d : Desk) : Prop := KeptBut (fun _ => False) d

theorem KeptBut.perform {X G : Nat → Prop} {call : Call} (h : KeptBut X d)
    (hmoves : ∀ pool, Ledger.perform outcome timeout call d.pool = some pool →
      Moves G d.pool (issuesOf outcome timeout call d.pool) pool)
    (hsafe : ∀ r ∈ d.checked, ¬G r.cc)
    (hX : ∀ pool, Ledger.perform outcome timeout call d.pool = some pool → ∀ cc sd : Nat, X cc →
      pool.issued[cc]? = some sd → ∃ e ∈ issuesOf outcome timeout call d.pool, e.cc = cc)
    (hperform : d.perform outcome timeout call = some d') : Kept d' := by
  obtain ⟨pool, hpool, rfl⟩ := Option.map_eq_some_iff.mp hperform
  have hmoves := hmoves pool hpool
  refine ⟨once_perform h.once hpool, h.accounts.moves hmoves, ?_, h.reported, h.nodup, ?_, ?_⟩
  · exact fun r hr => (hmoves.kept (hsafe r hr) (h.held r hr)).1
  · intro n hn
    dsimp only
    rw [List.length_append]
    exact (h.bound n hn).trans (Nat.le_add_left _ _)
  · intro cc sd hheld
    refine .inr fun hused => ?_
    by_cases hnew : ∃ e ∈ issuesOf outcome timeout call d.pool, e.cc = cc
    · exact Nat.not_lt.mpr (h.bound _ hused) (lt_number_append hnew d.log)
    · -- the connection has held it since before the call
      have hnone : (issuesOf outcome timeout call d.pool).find? (fun e => e.cc = cc) = none := by
        rw [List.find?_eq_none]
        exact fun e he hcc => hnew ⟨e, he, of_decide_eq_true hcc⟩
      have hbefore := hmoves.held hheld
      rw [hnone] at hbefore
      obtain hx | hunused := h.unused cc sd hbefore
      · exact hnew (hX pool hpool cc sd hx hheld)
      · dsimp only at hused
        rw [number_append_of_forall_ne (fun e he hcc => hnew ⟨e, he, hcc⟩)] at hused
        exact hunused hused

theorem reissued_of_notifyMarked {p : Pool} {cc sd sd' : Nat} (hheld : p.issued[cc]? = some sd)
    (hafter : (notifyMarked outcome cc sd p).issued[cc]? = some sd') :
    ∃ e ∈ issuesOfNotify outcome cc sd p, e.cc = cc := by
  have hnotify : notifyMarked outcome cc sd p =
      realEnqueueMarker outcome cc { p with issued := p.issued.erase cc } := by
    rw [notifyMarked, hheld]
    dsimp only
    rw [if_neg (not_not.mpr rfl)]
  have hissues : issuesOfNotify outcome cc sd p = issuesOfMarker outcome cc p := by
    rw [issuesOfNotify, hheld]
    dsimp only
    rw [if_neg (not_not.mpr rfl)]
  have hfree : cc ∉ p.issued.erase cc := by simp
  have hmoves : Moves (fun _ => True) { p with issued := p.issued.erase cc } (issuesOfMarker outcome cc p)
      (realEnqueueMarker outcome cc { p with issued := p.issued.erase cc }) :=
    moves_realEnqueueMarker outcome (p := { p with issued := p.issued.erase cc }) hfree
  rw [hnotify] at hafter
  rw [hissues]
  have hlast := hmoves.held hafter
  cases hfind : (issuesOfMarker outcome cc p).find? fun e => e.cc = cc with
  | some e => exact ⟨e, List.mem_of_find?_eq_some hfind, by simpa using List.find?_some hfind⟩
  | none =>
    rw [hfind] at hlast
    simp at hlast

theorem Kept.check (h : Kept d) {r : Request} (hzero : r.submissionId ≠ 0)
    (hissued : hasIssued d.pool r.cc = r.submissionId) : Kept { d with checked := r :: d.checked } := by
  refine ⟨h.once, h.accounts, fun r' hr' => ?_, h.reported, h.nodup, h.bound, h.unused⟩
  obtain rfl | hr' := List.mem_cons.mp hr'
  · unfold hasIssued at hissued
    cases hheld : d.pool.issued[r'.cc]? with
    | none =>
      rw [hheld] at hissued
      exact absurd hissued.symm hzero
    | some sd =>
      rw [hheld] at hissued
      exact congrArg some hissued
  · exact h.held r' hr'

theorem Kept.notify (h : Kept d) {r : Request} (hr : r ∈ d.checked) (hother : ∀ r' ∈ d.checked.erase r, r'.cc ≠ r.cc)
    (hstep : { d with checked := d.checked.erase r, notified := report d r :: d.notified }.perform outcome timeout
      (.notifyMarked r.cc r.submissionId) = some d') : Kept d' := by
  have hheld := h.held r hr
  have hreport : report d r = ⟨r, some (number d.log r.cc)⟩ := by rw [report, if_pos hheld]
  have hused : used { d with checked := d.checked.erase r, notified := report d r :: d.notified } =
      number d.log r.cc :: used d := by
    rw [hreport]
    rfl
  have hfresh : number d.log r.cc ∉ used d := (h.unused r.cc r.submissionId hheld).resolve_left id
  have hbefore : KeptBut (fun cc => cc = r.cc)
      { d with checked := d.checked.erase r, notified := report d r :: d.notified } := by
    refine ⟨h.once, h.accounts, fun r' hr' => h.held r' (List.mem_of_mem_erase hr'), ?_, ?_, ?_, ?_⟩
    · intro x hx
      obtain rfl | hx := List.mem_cons.mp hx
      · rw [hreport]
        rfl
      · exact h.reported x hx
    · rw [hused]
      exact List.nodup_cons.mpr ⟨hfresh, h.nodup⟩
    · rw [hused]
      intro n hn
      obtain rfl | hn := List.mem_cons.mp hn
      · exact number_le_length _ _
      · exact h.bound n hn
    · intro cc sd hcc
      by_cases hsame : cc = r.cc
      · exact .inl hsame
      · refine .inr fun hmem => ?_
        rw [hused] at hmem
        obtain heq | hmem := List.mem_cons.mp hmem
        · obtain ⟨e, -, hlog, -⟩ := h.accounts.held cc sd hcc
          obtain ⟨e', -, hlog', -⟩ := h.accounts.held r.cc r.submissionId hheld
          exact hsame (number_inj hlog hlog' heq)
        · exact (h.unused cc sd hcc).elim id fun hunused => hunused hmem
  apply hbefore.perform (G := fun cc => cc = r.cc) _ hother _ hstep
  · rintro pool ⟨⟩
    exact moves_notifyMarked outcome h.once r.submissionId rfl
  · rintro pool ⟨⟩ cc sd rfl hafter
    exact reissued_of_notifyMarked hheld hafter

theorem Kept.of_subperm (h : Kept d) {notified created : List Report}
    (hsub : (notified ++ created).Subperm (d.notified ++ d.created)) : Kept { d with notified, created } := by
  obtain ⟨middle, hperm, hsublist⟩ := hsub
  have hmem : ∀ x, x ∈ notified ++ created → x ∈ d.notified ++ d.created :=
    fun x hx => hsublist.subset (hperm.mem_iff.mpr hx)
  have hused : (used { d with notified, created }).Subperm (used d) :=
    ⟨middle.filterMap Report.issue, hperm.filterMap _, hsublist.filterMap _⟩
  refine ⟨h.once, h.accounts, h.held, fun x hx => h.reported x (hmem x hx), ?_, ?_, ?_⟩
  · obtain ⟨numbers, hperm', hsublist'⟩ := hused
    exact hperm'.nodup_iff.mp (h.nodup.sublist hsublist')
  · exact fun n hn => h.bound n (hused.subset hn)
  · exact fun cc sd hheld => (h.unused cc sd hheld).imp id fun hunused hmem' => hunused (hused.subset hmem')

theorem Kept.call (h : Kept d) {call : Call} (hok : Undisturbed timeout d (.call call))
    (hstep : d.perform outcome timeout call = some d') : Kept d' := by
  have hX : ∀ pool, Ledger.perform outcome timeout call d.pool = some pool → ∀ cc sd : Nat, False →
      pool.issued[cc]? = some sd → ∃ e ∈ issuesOf outcome timeout call d.pool, e.cc = cc :=
    fun _ _ _ _ hfalse => hfalse.elim
  cases call with
  | enqueueMarker cc =>
    apply KeptBut.perform (G := fun _ => False) h _ (fun _ _ => id) hX hstep
    rintro pool ⟨⟩
    exact moves_enqueueMarker outcome timeout cc
  | enqueueSubmission sd =>
    apply KeptBut.perform (G := fun _ => False) h _ (fun _ _ => id) hX hstep
    rintro pool ⟨⟩
    exact moves_realEnqueueSubmission outcome h.once sd
  | preemptMarker cc =>
    apply KeptBut.perform (G := fun cc' => cc' = cc) h _ hok hX hstep
    rintro pool ⟨⟩
    exact moves_preemptMarker outcome h.once timeout rfl
  | notifyMarked cc sd =>
    apply KeptBut.perform (G := fun cc' => cc' = cc) h _ hok hX hstep
    rintro pool ⟨⟩
    exact moves_notifyMarked outcome h.once sd rfl
  | checkForTimeouts readings =>
    apply KeptBut.perform (G := fun cc => ∀ r ∈ d.checked, r.cc ≠ cc) h _ (fun r hr hG => hG r hr rfl) hX hstep
    intro pool hpool
    apply moves_checkForTimeouts outcome h.once _ hpool
    intro cc hcc
    obtain ⟨r, hnot⟩ := not_forall.mp hcc
    obtain ⟨hr, hsame⟩ := Classical.not_imp.mp hnot
    obtain rfl := not_not.mp hsame
    exact ⟨r.submissionId, h.held r hr, hok r hr⟩

theorem Kept.step (h : Kept d) {l : Label} (hok : Undisturbed timeout d l)
    (hstep : step outcome timeout d l = some d') : Kept d' := by
  cases l with
  | call call => exact h.call hok hstep
  | check r =>
    cases hstep
    split
    · next hissued => exact h.check hok hissued
    · exact h
  | reject r =>
    dsimp only [Authority.step] at hstep
    split at hstep
    · have hremoved : Kept { d with checked := d.checked.erase r } :=
        ⟨h.once, h.accounts, fun r' hr' => h.held r' (List.mem_of_mem_erase hr'), h.reported, h.nodup, h.bound,
          h.unused⟩
      exact hremoved.call hok hstep
    · cases hstep
  | notify r =>
    dsimp only [Authority.step] at hstep
    split at hstep
    · next hr => exact h.notify hr hok hstep
    · cases hstep
  | create x =>
    dsimp only [Authority.step] at hstep
    split at hstep
    · next hx =>
      cases hstep
      apply h.of_subperm
      have hmoved : (d.notified.erase x ++ x :: d.created).Perm (x :: (d.notified.erase x ++ d.created)) :=
        List.perm_middle
      exact (hmoved.trans ((List.perm_cons_erase hx).symm.append_right d.created)).subperm
    · cases hstep
  | fail x =>
    dsimp only [Authority.step] at hstep
    split at hstep
    · cases hstep
      apply h.of_subperm
      exact (List.erase_sublist.append_right d.created).subperm
    · cases hstep

end

theorem authorised_of_undisturbed (outcome : Nat → Option Int) (timeout : Nat) (d : Desk)
    (h : (machine outcome timeout).Reach (Undisturbed timeout) d) : Authorised d := by
  have hkept : Kept d := by
    apply h.invariant
    · rintro _ rfl
      refine ⟨Multiset.nodup_zero, ⟨List.Pairwise.nil, nofun⟩, nofun, nofun, List.nodup_nil, nofun, nofun⟩
    · exact fun d l d' hd hok hstep => hd.step hok hstep
  constructor
  · exact fun x hx => hkept.reported x (List.mem_append_right _ hx)
  · have hnodup := hkept.nodup
    rw [used, List.filterMap_append] at hnodup
    exact (List.nodup_append.mp hnodup).2.1

def start : Desk := ⟨Pool.empty, [], [], [], []⟩

/-- A marker gets the submission 7, marks it, and gets it once more. -/
theorem authorised_twice : ∃ d, (machine hundreds 60).Reach (Undisturbed 60) d ∧
    d.created = [⟨⟨1, 7⟩, some 2⟩, ⟨⟨1, 7⟩, some 1⟩] ∧ Authorised d := by
  have hplay : ∃ d, play (step hundreds 60) (Undisturbed 60) start
      [.call (.enqueueSubmission 7), .call (.enqueueMarker 1), .check ⟨1, 7⟩, .call (.checkForTimeouts [50]),
        .notify ⟨1, 7⟩, .create ⟨⟨1, 7⟩, some 1⟩, .call (.enqueueSubmission 7), .check ⟨1, 7⟩, .notify ⟨1, 7⟩,
        .create ⟨⟨1, 7⟩, some 2⟩] = some d ∧ d.created = [⟨⟨1, 7⟩, some 2⟩, ⟨⟨1, 7⟩, some 1⟩] := by decide +kernel
  obtain ⟨d, hplay, hcreated⟩ := hplay
  have hreach : (machine hundreds 60).Reach (Undisturbed 60) d := Machine.Reach.play (.init rfl) hplay
  exact ⟨d, hreach, hcreated, authorised_of_undisturbed _ _ _ hreach⟩

/-- The submission times out between the check and `notifyMarked`, and goes to another marker. -/
theorem not_authorised_timeout : ∃ d, (machine hundreds 60).Reachable d ∧ d.created = [⟨⟨1, 7⟩, none⟩] ∧
    d.pool.issued.toList = [(2, 7)] ∧ ¬Authorised d := by
  have hplay : ∃ d, play (step hundreds 60) (fun _ _ => True) start
      [.call (.enqueueSubmission 7), .call (.enqueueMarker 1), .call (.enqueueMarker 2), .check ⟨1, 7⟩,
        .call (.checkForTimeouts [100, 100]), .notify ⟨1, 7⟩, .create ⟨⟨1, 7⟩, none⟩] = some d ∧
      d.created = [⟨⟨1, 7⟩, none⟩] ∧ d.pool.issued.toList = [(2, 7)] := by decide +kernel
  obtain ⟨d, hplay, hcreated, hissued⟩ := hplay
  have hreach : (machine hundreds 60).Reachable d := Machine.Reach.play (.init rfl) hplay
  refine ⟨d, hreach, hcreated, hissued, fun hauthorised => ?_⟩
  have hsome := hauthorised.1 ⟨⟨1, 7⟩, none⟩ (hcreated ▸ .head _)
  cases hsome

end Abacus.Marking.Authority
