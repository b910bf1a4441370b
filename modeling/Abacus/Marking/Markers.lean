import Mathlib.Data.List.Sort
import Abacus.Library.Machine
import Abacus.Library.Table

/-! # The pool of markers

Markers wait for submissions, or submissions for markers. Every operation runs under one lock, so a history
is a sequence of calls; whether a submission can be issued is up to the database.
-/

namespace Abacus.Marking.Markers

open Library

structure IssueTime where
  time : Int
  cc : Nat
  submissionId : Nat
  deriving DecidableEq

def IssueTime.above (a b : IssueTime) : Prop :=
  b.time < a.time ∨ b.time = a.time ∧ (b.cc < a.cc ∨ b.cc = a.cc ∧ b.submissionId ≤ a.submissionId)

instance : DecidableRel IssueTime.above := fun a b =>
  inferInstanceAs
    (Decidable (b.time < a.time ∨ b.time = a.time ∧ (b.cc < a.cc ∨ b.cc = a.cc ∧ b.submissionId ≤ a.submissionId)))

structure Pool where
  issued : Table Nat Nat
  markers : List Nat
  problems : List Nat
  /-- The top of the queue is at the front. -/
  issueTimes : List IssueTime
  /-- How often it was tried to issue a submission. -/
  attempts : Nat

def Pool.empty : Pool := { issued := ∅, markers := [], problems := [], issueTimes := [], attempts := 0 }

section

-- What comes of each attempt to issue a submission: it fails, or it succeeds at some time.
variable (outcome : Nat → Option Int)

def issue (cc sd : Nat) (p : Pool) : Pool :=
  match outcome p.attempts with
  | none => { p with problems := p.problems ++ [sd], markers := p.markers ++ [cc], attempts := p.attempts + 1 }
  | some time =>
    { p with
      issued := p.issued.insert cc sd
      issueTimes := p.issueTimes.orderedInsert IssueTime.above ⟨time, cc, sd⟩
      attempts := p.attempts + 1 }

def realEnqueueSubmission (sd : Nat) (p : Pool) : Pool :=
  match p.markers with
  | [] => { p with problems := p.problems ++ [sd] }
  | cc :: markers => issue outcome cc sd { p with markers }

def realEnqueueMarker (cc : Nat) (p : Pool) : Pool :=
  match p.problems with
  | [] => { p with markers := p.markers ++ [cc] }
  | sd :: problems => issue outcome cc sd { p with problems }

def enqueueMarker (cc : Nat) (p : Pool) : Pool :=
  if cc ∈ p.issued then p
  else if cc ∈ p.markers then p
  else realEnqueueMarker outcome cc p

def preemptMarker (cc : Nat) (p : Pool) : Pool :=
  if cc ∈ p.markers then { p with markers := p.markers.erase cc }
  else match p.issued[cc]? with
    | some sd => realEnqueueSubmission outcome sd { p with issued := p.issued.erase cc }
    | none => p

def enqueueSubmission (submissionId : Nat) (p : Pool) : Pool := realEnqueueSubmission outcome submissionId p

def notifyMarked (cc submissionId : Nat) (p : Pool) : Pool :=
  match p.issued[cc]? with
  | some sd =>
    -- The connection still holds the submission while that is enqueued again.
    let p := if submissionId ≠ sd then realEnqueueSubmission outcome sd p else p
    realEnqueueMarker outcome cc { p with issued := p.issued.erase cc }
  | none => p

/-- One turn of the loop, with the pair off the queue: a pair that is out of date is passed over. -/
def expire (e : IssueTime) (p : Pool) : Pool :=
  if p.issued[e.cc]? = some e.submissionId then
    realEnqueueSubmission outcome e.submissionId { p with issued := p.issued.erase e.cc }
  else p

/-- The readings of the clock are those at the head of the loop. No pool if the loop needs more of them. -/
def checkForTimeouts (timeout : Nat) (readings : List Int) (p : Pool) : Option Pool :=
  match p.issueTimes, readings with
  | [], _ => some p
  | _ :: _, [] => none
  | e :: issueTimes, now :: readings =>
    if now - e.time > timeout then checkForTimeouts timeout readings (expire outcome e { p with issueTimes })
    else some p

end

section

def connections (p : Pool) : Multiset Nat := p.markers + p.issued.toList.map Prod.fst

def submissions (p : Pool) : Multiset Nat := p.problems + p.issued.toList.map Prod.snd

variable (outcome : Nat → Option Int) {p : Pool} {cc sd : Nat}

theorem mem_connections : cc ∈ connections p ↔ cc ∈ p.markers ∨ cc ∈ p.issued := by
  have hkeys : cc ∈ p.issued.toList.map Prod.fst ↔ cc ∈ p.issued := by
    rw [Std.ExtTreeMap.map_fst_toList_eq_keys, Std.ExtTreeMap.mem_keys]
  rw [connections, Multiset.mem_add, Multiset.mem_coe, Multiset.mem_coe, hkeys]

theorem connections_waiting {markers : List Nat} (h : p.markers = cc :: markers) :
    connections p = cc ::ₘ connections { p with markers } := by
  simp only [connections, h, ← Multiset.cons_coe, Multiset.cons_add]

theorem not_mem_issued_of_waiting {markers : List Nat} (honce : (connections p).Nodup) (h : p.markers = cc :: markers) :
    cc ∉ p.issued := by
  rw [connections_waiting h] at honce
  exact fun hmem => (Multiset.nodup_cons.mp honce).1 (mem_connections.mpr (.inr hmem))

theorem coe_concat (l : List Nat) (a : Nat) : ((l ++ [a] : List Nat) : Multiset Nat) = a ::ₘ (l : Multiset Nat) :=
  Multiset.coe_eq_coe.mpr (List.perm_append_singleton a l)

theorem counts_issue (h : cc ∉ p.issued) (sd : Nat) :
    connections (issue outcome cc sd p) = cc ::ₘ connections p ∧
      submissions (issue outcome cc sd p) = sd ::ₘ submissions p := by
  unfold issue
  split
  · constructor
    · simp only [connections, coe_concat, Multiset.cons_add]
    · simp only [submissions, coe_concat, Multiset.cons_add]
  · have hperm := Table.toList_insert_perm h sd
    have hkeys := Multiset.coe_eq_coe.mpr (hperm.map Prod.fst)
    have hvalues := Multiset.coe_eq_coe.mpr (hperm.map Prod.snd)
    constructor
    · simp only [connections, hkeys, List.map_cons, ← Multiset.cons_coe, Multiset.add_cons]
    · simp only [submissions, hvalues, List.map_cons, ← Multiset.cons_coe, Multiset.add_cons]

theorem counts_erase (h : p.issued[cc]? = some sd) :
    connections p = cc ::ₘ connections { p with issued := p.issued.erase cc } ∧
      submissions p = sd ::ₘ submissions { p with issued := p.issued.erase cc } := by
  have hperm := Table.toList_perm_erase h
  have hkeys := Multiset.coe_eq_coe.mpr (hperm.map Prod.fst)
  have hvalues := Multiset.coe_eq_coe.mpr (hperm.map Prod.snd)
  constructor
  · simp only [connections, hkeys, List.map_cons, ← Multiset.cons_coe, Multiset.add_cons]
  · simp only [submissions, hvalues, List.map_cons, ← Multiset.cons_coe, Multiset.add_cons]

theorem counts_realEnqueueSubmission (h : (connections p).Nodup) (sd : Nat) :
    connections (realEnqueueSubmission outcome sd p) = connections p ∧
      submissions (realEnqueueSubmission outcome sd p) = sd ::ₘ submissions p := by
  unfold realEnqueueSubmission
  cases hmarkers : p.markers with
  | nil => exact ⟨by simp only [connections, hmarkers], by simp only [submissions, coe_concat, Multiset.cons_add]⟩
  | cons cc markers =>
    have hfree : cc ∉ p.issued := not_mem_issued_of_waiting h hmarkers
    rw [connections_waiting hmarkers]
    exact counts_issue outcome (p := { p with markers }) hfree sd

theorem counts_realEnqueueMarker (h : cc ∉ p.issued) :
    connections (realEnqueueMarker outcome cc p) = cc ::ₘ connections p ∧
      submissions (realEnqueueMarker outcome cc p) = submissions p := by
  unfold realEnqueueMarker
  cases hproblems : p.problems with
  | nil => exact ⟨by simp only [connections, coe_concat, Multiset.cons_add], by simp only [submissions, hproblems]⟩
  | cons sd problems =>
    have hsubmissions : submissions p = sd ::ₘ submissions { p with problems } := by
      simp only [submissions, hproblems, ← Multiset.cons_coe, Multiset.cons_add]
    rw [hsubmissions]
    exact counts_issue outcome (p := { p with problems }) h sd

theorem getElem?_realEnqueueSubmission (h : (connections p).Nodup) (hheld : p.issued[cc]? = some sd) (sd' : Nat) :
    (realEnqueueSubmission outcome sd' p).issued[cc]? = some sd := by
  unfold realEnqueueSubmission
  cases hmarkers : p.markers with
  | nil => exact hheld
  | cons cc' markers =>
    have hne : cc' ≠ cc := by
      rintro rfl
      exact not_mem_issued_of_waiting h hmarkers (Table.mem_iff_exists_row.mpr ⟨sd, hheld⟩)
    dsimp only [issue]
    split
    · exact hheld
    · rw [Table.getElem?_insert_row, if_neg hne]
      exact hheld

theorem counts_enqueueMarker (cc : Nat) (h : (connections p).Nodup) :
    (connections (enqueueMarker outcome cc p)).Nodup ∧
      submissions (enqueueMarker outcome cc p) = submissions p := by
  unfold enqueueMarker
  split
  · exact ⟨h, rfl⟩
  · next hissued =>
    split
    · exact ⟨h, rfl⟩
    · next hmarkers =>
      obtain ⟨hconnections, hsubmissions⟩ := counts_realEnqueueMarker outcome hissued
      refine ⟨?_, hsubmissions⟩
      rw [hconnections, Multiset.nodup_cons, mem_connections]
      exact ⟨fun hmem => hmem.elim hmarkers hissued, h⟩

theorem counts_preemptMarker (cc : Nat) (h : (connections p).Nodup) :
    (connections (preemptMarker outcome cc p)).Nodup ∧
      submissions (preemptMarker outcome cc p) = submissions p := by
  unfold preemptMarker
  split
  · refine ⟨Multiset.nodup_of_le ?_ h, rfl⟩
    apply Multiset.add_le_add_right
    exact Multiset.coe_le.mpr (List.erase_sublist.subperm)
  · split
    · next sd hheld =>
      obtain ⟨hconnections, hsubmissions⟩ := counts_erase hheld
      rw [hconnections] at h
      have hrest := (Multiset.nodup_cons.mp h).2
      obtain ⟨hconnections', hsubmissions'⟩ := counts_realEnqueueSubmission outcome hrest sd
      exact ⟨hconnections' ▸ hrest, hsubmissions'.trans hsubmissions.symm⟩
    · exact ⟨h, rfl⟩

theorem counts_notifyMarked (cc submissionId : Nat) (h : (connections p).Nodup) :
    connections (notifyMarked outcome cc submissionId p) = connections p ∧
      if p.issued[cc]? = some submissionId then
        submissions p = submissionId ::ₘ submissions (notifyMarked outcome cc submissionId p)
      else submissions (notifyMarked outcome cc submissionId p) = submissions p := by
  unfold notifyMarked
  cases hheld : p.issued[cc]? with
  | none => exact ⟨rfl, rfl⟩
  | some sd =>
    dsimp only
    by_cases hsame : submissionId = sd
    · subst hsame
      obtain ⟨hconnections, hsubmissions⟩ := counts_erase hheld
      have hfree : cc ∉ p.issued.erase cc := by simp
      obtain ⟨hconnections', hsubmissions'⟩ :=
        counts_realEnqueueMarker outcome (p := { p with issued := p.issued.erase cc }) hfree
      rw [if_neg (not_not.mpr rfl), if_pos rfl]
      exact ⟨hconnections'.trans hconnections.symm, hsubmissions'.symm ▸ hsubmissions⟩
    · rw [if_pos hsame, if_neg (by simpa using Ne.symm hsame)]
      obtain ⟨hconnections, hsubmissions⟩ := counts_realEnqueueSubmission outcome h sd
      obtain ⟨herased, herased'⟩ := counts_erase (getElem?_realEnqueueSubmission outcome h hheld sd)
      have hfree : cc ∉ (realEnqueueSubmission outcome sd p).issued.erase cc := by simp
      generalize realEnqueueSubmission outcome sd p = p' at *
      obtain ⟨hconnections', hsubmissions'⟩ :=
        counts_realEnqueueMarker outcome (p := { p' with issued := p'.issued.erase cc }) hfree
      have hkept := (Multiset.cons_inj_right sd).mp (herased'.symm.trans hsubmissions)
      exact ⟨hconnections'.trans (herased.symm.trans hconnections), hsubmissions'.trans hkept⟩

theorem counts_expire (e : IssueTime) (h : (connections p).Nodup) :
    (connections (expire outcome e p)).Nodup ∧ submissions (expire outcome e p) = submissions p := by
  unfold expire
  split
  · next hheld =>
    obtain ⟨hconnections, hsubmissions⟩ := counts_erase hheld
    rw [hconnections] at h
    have hrest := (Multiset.nodup_cons.mp h).2
    obtain ⟨hconnections', hsubmissions'⟩ := counts_realEnqueueSubmission outcome hrest e.submissionId
    exact ⟨hconnections' ▸ hrest, hsubmissions'.trans hsubmissions.symm⟩
  · exact ⟨h, rfl⟩

theorem checkForTimeouts_invariant {timeout : Nat} {readings : List Int} {p' : Pool} {P : Pool → Prop}
    (hexpire : ∀ e issueTimes p, P p → P (expire outcome e { p with issueTimes })) (h : P p)
    (hcheck : checkForTimeouts outcome timeout readings p = some p') : P p' := by
  fun_induction checkForTimeouts outcome timeout readings p with
  | case1 => exact Option.some.inj hcheck ▸ h
  | case2 => cases hcheck
  | case3 p e issueTimes hqueue now readings hlate ih => exact ih (hexpire e issueTimes p h) hcheck
  | case4 => exact Option.some.inj hcheck ▸ h

end

section

def Unfailing (outcome : Nat → Option Int) (p : Pool) : Prop := ∀ n < p.attempts, (outcome n).isSome = true

def Matched (outcome : Nat → Option Int) (p : Pool) : Prop :=
  Unfailing outcome p → p.markers = [] ∨ p.problems = []

variable {outcome : Nat → Option Int} {p : Pool} {cc sd : Nat}

theorem Unfailing.issue (h : Unfailing outcome (issue outcome cc sd p)) :
    Unfailing outcome p ∧ (Markers.issue outcome cc sd p).markers = p.markers ∧
      (Markers.issue outcome cc sd p).problems = p.problems := by
  unfold Markers.issue at h ⊢
  split
  · next hfailed =>
    rw [hfailed] at h
    have hlast := h p.attempts (Nat.lt_succ_self _)
    rw [hfailed] at hlast
    cases hlast
  · next time hissued =>
    rw [hissued] at h
    exact ⟨fun n hn => h n (Nat.lt_succ_of_lt hn), rfl, rfl⟩

theorem Matched.realEnqueueSubmission (h : Matched outcome p) (sd : Nat) :
    Matched outcome (realEnqueueSubmission outcome sd p) := by
  intro hun
  unfold Markers.realEnqueueSubmission at hun ⊢
  split
  · next hmarkers => exact .inl hmarkers
  · next cc markers hmarkers =>
    simp only [hmarkers] at hun
    obtain ⟨hbefore, hm, hp⟩ := hun.issue
    rw [hm, hp]
    have hsome : p.markers ≠ [] := by simp [hmarkers]
    exact .inr ((h hbefore).resolve_left hsome)

theorem Matched.realEnqueueMarker (h : Matched outcome p) (cc : Nat) :
    Matched outcome (realEnqueueMarker outcome cc p) := by
  intro hun
  unfold Markers.realEnqueueMarker at hun ⊢
  split
  · next hproblems => exact .inr hproblems
  · next sd problems hproblems =>
    simp only [hproblems] at hun
    obtain ⟨hbefore, hm, hp⟩ := hun.issue
    rw [hm, hp]
    have hsome : p.problems ≠ [] := by simp [hproblems]
    exact .inl ((h hbefore).resolve_right hsome)

theorem Matched.release (h : Matched outcome p) (cc : Nat) : Matched outcome { p with issued := p.issued.erase cc } := h

theorem Matched.enqueueMarker (h : Matched outcome p) (cc : Nat) : Matched outcome (enqueueMarker outcome cc p) := by
  unfold Markers.enqueueMarker
  split
  · exact h
  · split
    · exact h
    · exact h.realEnqueueMarker cc

theorem Matched.preemptMarker (h : Matched outcome p) (cc : Nat) : Matched outcome (preemptMarker outcome cc p) := by
  unfold Markers.preemptMarker
  split
  · intro hun
    refine (h hun).imp ?_ id
    rintro hmarkers
    rw [hmarkers]
    rfl
  · split
    · exact (h.release cc).realEnqueueSubmission _
    · exact h

theorem Matched.notifyMarked (h : Matched outcome p) (cc submissionId : Nat) :
    Matched outcome (notifyMarked outcome cc submissionId p) := by
  unfold Markers.notifyMarked
  split
  · next sd hheld =>
    dsimp only
    split
    · exact ((h.realEnqueueSubmission sd).release cc).realEnqueueMarker cc
    · exact (h.release cc).realEnqueueMarker cc
  · exact h

theorem Matched.expire (h : Matched outcome p) (e : IssueTime) : Matched outcome (expire outcome e p) := by
  unfold Markers.expire
  split
  · exact (h.release e.cc).realEnqueueSubmission _
  · exact h

end

section

variable {outcome : Nat → Option Int} {p : Pool}

theorem queue_issue (cc sd : Nat) : p.attempts ≤ (issue outcome cc sd p).attempts ∧
    ((issue outcome cc sd p).issueTimes = p.issueTimes ∨ ∃ i : IssueTime, outcome p.attempts = some i.time ∧
      (issue outcome cc sd p).issueTimes = p.issueTimes.orderedInsert IssueTime.above i) := by
  unfold issue
  split
  · exact ⟨Nat.le_succ _, .inl rfl⟩
  · next time htime => exact ⟨Nat.le_succ _, .inr ⟨⟨time, cc, sd⟩, htime, rfl⟩⟩

theorem queue_expire (e : IssueTime) : p.attempts ≤ (expire outcome e p).attempts ∧
    ((expire outcome e p).issueTimes = p.issueTimes ∨ ∃ i : IssueTime, outcome p.attempts = some i.time ∧
      (expire outcome e p).issueTimes = p.issueTimes.orderedInsert IssueTime.above i) := by
  unfold expire
  split
  · unfold realEnqueueSubmission
    split
    · exact ⟨Nat.le_refl _, .inl rfl⟩
    · next cc markers hmarkers => exact queue_issue (p := { p with issued := p.issued.erase e.cc, markers }) cc _
  · exact ⟨Nat.le_refl _, .inl rfl⟩

variable {timeout : Nat} {now : Int} {e : IssueTime} {issueTimes : List IssueTime}

theorem checkForTimeouts_late (hqueue : p.issueTimes = e :: issueTimes) (hlate : now - e.time > timeout)
    (readings : List Int) : checkForTimeouts outcome timeout (now :: readings) p =
      checkForTimeouts outcome timeout readings (expire outcome e { p with issueTimes }) := by
  cases p
  cases hqueue
  exact if_pos hlate

theorem checkForTimeouts_early (hqueue : p.issueTimes = e :: issueTimes) (hearly : now - e.time ≤ timeout)
    (readings : List Int) : checkForTimeouts outcome timeout (now :: readings) p = some p := by
  cases p
  cases hqueue
  exact if_neg (Int.not_lt.mpr hearly)

theorem head_pushed (i : IssueTime) (issueTimes : List IssueTime) :
    ∃ e rest, issueTimes.orderedInsert IssueTime.above i = e :: rest ∧ i.time ≤ e.time := by
  cases issueTimes with
  | nil => exact ⟨i, [], rfl, Int.le_refl _⟩
  | cons e rest =>
    rw [List.orderedInsert_cons]
    split
    · exact ⟨i, e :: rest, rfl, Int.le_refl _⟩
    · next hbelow =>
      refine ⟨e, rest.orderedInsert IssueTime.above i, rfl, ?_⟩
      by_contra hlater
      exact hbelow (.inl (Int.not_le.mp hlater))

/-- The loop ends if no submission is issued that has timed out already. -/
theorem checkForTimeouts_returns (p : Pool)
    (hclock : ∀ n ≥ p.attempts, ∀ time, outcome n = some time → now - time ≤ timeout) :
    ∃ k, (checkForTimeouts outcome timeout (List.replicate k now) p).isSome = true := by
  -- The queue gets shorter in every turn that issues no submission; one that does is the last.
  induction hqueue : p.issueTimes generalizing p with
  | nil =>
    refine ⟨0, ?_⟩
    cases p
    cases hqueue
    rfl
  | cons e issueTimes ih =>
    by_cases hlate : now - e.time > timeout
    · obtain ⟨hattempts, hkept | ⟨i, hissued, hpushed⟩⟩ := queue_expire (p := { p with issueTimes }) e
      · obtain ⟨k, hk⟩ := ih _ (fun n hn => hclock n (hattempts.trans hn)) hkept
        refine ⟨k + 1, ?_⟩
        rw [List.replicate_succ, checkForTimeouts_late hqueue hlate]
        exact hk
      · obtain ⟨top, rest, htop, htime⟩ := head_pushed i issueTimes
        have hearly : now - top.time ≤ timeout := by
          have hfresh := hclock p.attempts (Nat.le_refl _) i.time hissued
          omega
        refine ⟨2, ?_⟩
        rw [List.replicate_succ, checkForTimeouts_late hqueue hlate, List.replicate_one,
          checkForTimeouts_early (hpushed.trans htop) hearly]
        rfl
    · refine ⟨1, ?_⟩
      rw [List.replicate_one, checkForTimeouts_early hqueue (Int.not_lt.mp hlate)]
      rfl

end

inductive Call
  | enqueueMarker (cc : Nat)
  | preemptMarker (cc : Nat)
  | enqueueSubmission (submissionId : Nat)
  | notifyMarked (cc submissionId : Nat)
  | checkForTimeouts (readings : List Int)

/-- The pool, the submissions that were enqueued, and those that the connection holding them has reported. -/
structure History where
  pool : Pool
  enqueued : Multiset Nat
  marked : Multiset Nat

section

variable (outcome : Nat → Option Int) (timeout : Nat)

def step (h : History) : Call → Option History
  | .enqueueMarker cc => some { h with pool := enqueueMarker outcome cc h.pool }
  | .preemptMarker cc => some { h with pool := preemptMarker outcome cc h.pool }
  | .enqueueSubmission submissionId =>
    some { h with pool := enqueueSubmission outcome submissionId h.pool, enqueued := submissionId ::ₘ h.enqueued }
  | .notifyMarked cc submissionId =>
    some { h with
      pool := notifyMarked outcome cc submissionId h.pool
      marked := if h.pool.issued[cc]? = some submissionId then submissionId ::ₘ h.marked else h.marked }
  | .checkForTimeouts readings =>
    (checkForTimeouts outcome timeout readings h.pool).map fun pool => { h with pool }

def machine : Machine History Call := Machine.ofFun (fun h => h = ⟨Pool.empty, 0, 0⟩) (step outcome timeout)

/-- No connection is in the pool twice, no submission is lost or doubled, and nothing waits for what is there. -/
structure Conserved (h : History) : Prop where
  once : (connections h.pool).Nodup
  reported : h.marked ≤ h.enqueued
  submissions : submissions h.pool = h.enqueued - h.marked
  matched : (∀ n < h.pool.attempts, (outcome n).isSome = true) → h.pool.markers = [] ∨ h.pool.problems = []

structure Balanced (h : History) : Prop where
  once : (connections h.pool).Nodup
  balance : Markers.submissions h.pool + h.marked = h.enqueued
  matched : Matched outcome h.pool

variable {outcome timeout} {h h' : History}

theorem Balanced.step {call : Call} (hh : Balanced outcome h) (hstep : step outcome timeout h call = some h') :
    Balanced outcome h' := by
  obtain ⟨honce, hbalance, hmatched⟩ := hh
  cases call with
  | enqueueMarker cc =>
    cases hstep
    obtain ⟨honce', hsubmissions⟩ := counts_enqueueMarker outcome cc honce
    exact ⟨honce', hsubmissions.symm ▸ hbalance, hmatched.enqueueMarker cc⟩
  | preemptMarker cc =>
    cases hstep
    obtain ⟨honce', hsubmissions⟩ := counts_preemptMarker outcome cc honce
    exact ⟨honce', hsubmissions.symm ▸ hbalance, hmatched.preemptMarker cc⟩
  | enqueueSubmission sd =>
    cases hstep
    obtain ⟨hconnections, hsubmissions⟩ := counts_realEnqueueSubmission outcome honce sd
    refine ⟨hconnections.symm ▸ honce, ?_, hmatched.realEnqueueSubmission sd⟩
    dsimp only [enqueueSubmission]
    rw [hsubmissions, Multiset.cons_add, hbalance]
  | notifyMarked cc sd =>
    cases hstep
    obtain ⟨hconnections, hsubmissions⟩ := counts_notifyMarked outcome cc sd honce
    refine ⟨hconnections.symm ▸ honce, ?_, hmatched.notifyMarked cc sd⟩
    dsimp only
    split at hsubmissions
    · next hheld => rw [if_pos hheld, Multiset.add_cons, ← Multiset.cons_add, ← hsubmissions, hbalance]
    · next hheld => rw [if_neg hheld, hsubmissions, hbalance]
  | checkForTimeouts readings =>
    obtain ⟨pool, hcheck, rfl⟩ := Option.map_eq_some_iff.mp hstep
    have hcounts := checkForTimeouts_invariant outcome
      (P := fun p => (connections p).Nodup ∧ Markers.submissions p = Markers.submissions h.pool ∧ Matched outcome p)
      (fun e issueTimes p hp => by
        obtain ⟨honce', hsubmissions⟩ := counts_expire outcome (p := { p with issueTimes }) e hp.1
        exact ⟨honce', hsubmissions.trans hp.2.1, Matched.expire (p := { p with issueTimes }) hp.2.2 e⟩)
      ⟨honce, rfl, hmatched⟩ hcheck
    obtain ⟨honce', hsubmissions, hmatched'⟩ := hcounts
    exact ⟨honce', hsubmissions.symm ▸ hbalance, hmatched'⟩

end

theorem conserved_of_reachable (outcome : Nat → Option Int) (timeout : Nat) (h : History)
    (hreach : (machine outcome timeout).Reachable h) : Conserved outcome h := by
  have hbalanced : Balanced outcome h := by
    apply hreach.invariant
    · rintro _ rfl
      exact ⟨Multiset.nodup_zero, rfl, fun _ => .inl rfl⟩
    · exact fun h call h' hh _ hstep => hh.step hstep
  obtain ⟨honce, hbalance, hmatched⟩ := hbalanced
  refine ⟨honce, ?_, ?_, hmatched⟩
  · rw [← hbalance]
    exact Multiset.le_add_left _ _
  · rw [← hbalance, Multiset.add_sub_cancel_right]

def secondFails (n : Nat) : Option Int := if n = 1 then none else some (100 * n)

/-- A marker reports another submission than its own, then its own; what goes to the other marker cannot be issued. -/
theorem conserved_wrong_report : ∃ h, (machine secondFails 60).Reachable h ∧ h.pool.markers = [2, 1] ∧
    h.marked = {7} ∧ h.pool.attempts = 3 ∧ Conserved secondFails h := by
  have hplay : ∃ h, play (step secondFails 60) (fun _ _ => True) ⟨Pool.empty, 0, 0⟩
      [.enqueueSubmission 7, .enqueueMarker 1, .enqueueMarker 2, .notifyMarked 1 9, .notifyMarked 1 7,
        .checkForTimeouts [300, 300]] = some h ∧ h.pool.markers = [2, 1] ∧ h.marked = {7} ∧ h.pool.attempts = 3 := by
    decide +kernel
  obtain ⟨h, hplay, hmarkers, hmarked, hattempts⟩ := hplay
  have hreach : (machine secondFails 60).Reachable h := Machine.Reach.play (.init rfl) hplay
  exact ⟨h, hreach, hmarkers, hmarked, hattempts, conserved_of_reachable _ _ _ hreach⟩

end Abacus.Marking.Markers
