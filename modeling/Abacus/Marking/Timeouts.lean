import Abacus.Marking.Ledger

/-! # Which submissions a check for timeouts takes back

The queue of issue times has the latest at its top, and the loop stops at the first pair that has not timed
out. So one recent issue keeps the older ones from being looked at. For the same reason nothing is
taken back too early.
-/

namespace Abacus.Marking.Timeouts

open Library Markers Ledger

structure Watch where
  pool : Pool
  log : List IssueTime
  clock : Int

structure Tick where
  call : Call
  /-- When the call ends. -/
  now : Int

def readings : Call → List Int
  | .checkForTimeouts readings => readings
  | _ => []

section

variable (outcome : Nat → Option Int) (timeout : Nat)

/-- The clock does not go back, neither between calls nor in what a call reads from it. -/
def InTime (w : Watch) (t : Tick) : Prop :=
  w.clock ≤ t.now ∧ (∀ now ∈ readings t.call, w.clock ≤ now ∧ now ≤ t.now) ∧
    ∀ e ∈ issuesOf outcome timeout t.call w.pool, w.clock ≤ e.time ∧ e.time ≤ t.now

instance (w : Watch) (t : Tick) : Decidable (InTime outcome timeout w t) := inferInstanceAs (Decidable (_ ∧ _ ∧ _))

def step (w : Watch) (t : Tick) : Option Watch :=
  if InTime outcome timeout w t then
    (perform outcome timeout t.call w.pool).map fun pool =>
      { pool, log := issuesOf outcome timeout t.call w.pool ++ w.log, clock := t.now }
  else none

def machine : Machine Watch Tick := Machine.ofFun (fun w => w.pool = Pool.empty ∧ w.log = []) (step outcome timeout)

/-- The connection holds a submission that was issued to it more than the timeout ago. -/
def Overdue (now : Int) (w : Watch) (cc sd : Nat) : Prop :=
  w.pool.issued[cc]? = some sd ∧ ∃ e ∈ w.log.find? fun e => e.cc = cc, now - e.time > timeout

/-- After the call no pair that was overdue is issued. -/
def Complete (now : Int) (w : Watch) (p : Pool) : Prop := ∀ cc sd, Overdue timeout now w cc sd → p.issued[cc]? ≠ some sd

/-- Nothing is overdue, or everything on the queue is, and no marker waits for what is taken back before the last. -/
def Checkable (now : Int) (w : Watch) : Prop :=
  (∀ cc sd, ¬Overdue timeout now w cc sd) ∨
    (∀ e ∈ w.pool.issueTimes, now - e.time > timeout) ∧
      (w.pool.markers = [] ∨
        ∀ n, w.pool.attempts ≤ n → n + 1 < w.pool.attempts + w.pool.issued.size → outcome n = none)

end

section

variable {outcome : Nat → Option Int} {timeout : Nat} {p p' : Pool} {now : Int}
variable {e : IssueTime} {cc k : Nat} {issueTimes : List IssueTime}

theorem once_perform {call : Call} (h : (connections p).Nodup) (hperform : perform outcome timeout call p = some p') :
    (connections p').Nodup := by
  cases call with
  | enqueueMarker cc =>
    cases hperform
    exact (counts_enqueueMarker outcome cc h).1
  | preemptMarker cc =>
    cases hperform
    exact (counts_preemptMarker outcome cc h).1
  | enqueueSubmission sd =>
    cases hperform
    exact (counts_realEnqueueSubmission outcome h sd).1.symm ▸ h
  | notifyMarked cc sd =>
    cases hperform
    exact (counts_notifyMarked outcome cc sd h).1.symm ▸ h
  | checkForTimeouts readings =>
    apply checkForTimeouts_invariant outcome _ h hperform
    exact fun e issueTimes p hp => (counts_expire outcome (p := { p with issueTimes }) e hp).1

theorem connections_expire_le (e : IssueTime) (h : (connections p).Nodup) :
    connections (expire outcome e p) ≤ connections p := by
  unfold expire
  split
  · next hheld =>
    have herase := (counts_erase hheld).1
    rw [(counts_realEnqueueSubmission outcome (nodup_release h hheld) e.submissionId).1, herase]
    exact Multiset.le_cons_self _ _
  · exact le_rfl

theorem connections_checkForTimeouts_le {readings : List Int} (h : (connections p).Nodup)
    (hcheck : checkForTimeouts outcome timeout readings p = some p') : connections p' ≤ connections p := by
  have hinvariant : (connections p').Nodup ∧ connections p' ≤ connections p := by
    apply checkForTimeouts_invariant outcome _ ⟨h, le_rfl⟩ hcheck
    intro e issueTimes q hq
    exact ⟨(counts_expire outcome (p := { q with issueTimes }) e hq.1).1,
      (connections_expire_le (p := { q with issueTimes }) e hq.1).trans hq.2⟩
  exact hinvariant.2

theorem not_mem_connections_expire (h : (connections p).Nodup)
    (hheld : p.issued[e.cc]? = some e.submissionId) : e.cc ∉ connections (expire outcome e p) := by
  have herase := (counts_erase hheld).1
  have hexpire : expire outcome e p =
      realEnqueueSubmission outcome e.submissionId { p with issued := p.issued.erase e.cc } :=
    if_pos hheld
  rw [hexpire, (counts_realEnqueueSubmission outcome (nodup_release h hheld) e.submissionId).1]
  rw [herase] at h
  exact (Multiset.nodup_cons.mp h).1

def Queued (p : Pool) : Prop :=
  ∀ cc sd : Nat, p.issued[cc]? = some sd → ∃ e ∈ p.issueTimes, e.cc = cc ∧ e.submissionId = sd

def Cleared (p p' : Pool) : Prop := ∀ cc sd : Nat, p.issued[cc]? = some sd → p'.issued[cc]? ≠ some sd

theorem size_issued_eq_zero (h : ∀ cc : Nat, p.issued[cc]? = none) : p.issued.size = 0 := by
  have hempty : p.issued = ∅ := Std.ExtTreeMap.ext_getElem? fun cc => by rw [h cc]; rfl
  rw [hempty]
  rfl

theorem cleared_release {q : Pool} (hissued : q.issued = p.issued.erase cc) (hgone : cc ∉ p'.issued) :
    Cleared p p' ↔ Cleared q p' := by
  constructor
  · intro h cc' sd hheld
    rw [hissued, Table.getElem?_erase_row] at hheld
    split at hheld
    · cases hheld
    · exact h cc' sd hheld
  · intro h cc' sd hheld hafter
    have hne : cc ≠ cc' := by
      rintro rfl
      exact hgone (Table.mem_iff_exists_row.mpr ⟨sd, hafter⟩)
    apply h cc' sd _ hafter
    rw [hissued, Table.getElem?_erase_row, if_neg hne]
    exact hheld

theorem size_erase_held {sd : Nat} (hheld : p.issued[cc]? = some sd) :
    (p.issued.erase cc).size + 1 = p.issued.size := by
  have hmem : cc ∈ p.issued := Table.mem_iff_exists_row.mpr ⟨sd, hheld⟩
  have hpos : p.issued.size ≠ 0 := by
    intro hzero
    rw [Std.ExtTreeMap.eq_empty_iff_size_eq_zero.mpr hzero] at hmem
    simp at hmem
  rw [Std.ExtTreeMap.size_erase]
  simp only [Std.ExtTreeMap.contains_iff_mem.mpr hmem, if_true]
  omega

theorem cleared_reissue {sd m : Nat} (hheld : p.issued[cc]? = some sd) (hfree : m ∉ p.issued)
    (hissued : p'.issued = (p.issued.erase cc).insert m sd) : Cleared p p' ↔ p.issued.size ≤ 1 := by
  have hsize := size_erase_held hheld
  have hothers : ∀ cc' : Nat, cc' ∈ p.issued → p'.issued[cc']? = (p.issued.erase cc)[cc']? := by
    intro cc' hcc'
    have hne : m ≠ cc' := fun heq => hfree (heq ▸ hcc')
    rw [hissued, Table.getElem?_insert_row, if_neg hne]
  constructor
  · intro h
    have hnone : ∀ cc' : Nat, (p.issued.erase cc)[cc']? = none := by
      intro cc'
      cases hcc' : (p.issued.erase cc)[cc']? with
      | none => rfl
      | some sd' =>
        have hbefore := hcc'
        rw [Table.getElem?_erase_row] at hbefore
        split at hbefore
        · cases hbefore
        · refine absurd ?_ (h cc' sd' hbefore)
          rw [hothers cc' (Table.mem_iff_exists_row.mpr ⟨sd', hbefore⟩), hcc']
    have hzero : (p.issued.erase cc).size = 0 := size_issued_eq_zero (p := { p with issued := p.issued.erase cc }) hnone
    omega
  · intro hone cc' sd' hbefore hafter
    have hempty : p.issued.erase cc = ∅ := by
      have hzero : (p.issued.erase cc).size = 0 := by omega
      exact Std.ExtTreeMap.eq_empty_iff_size_eq_zero.mpr hzero
    rw [hothers cc' (Table.mem_iff_exists_row.mpr ⟨sd', hbefore⟩), hempty] at hafter
    cases hafter

theorem checkForTimeouts_nil (hqueue : p.issueTimes = []) (readings : List Int)
    (hcheck : checkForTimeouts outcome timeout readings p = some p') : p' = p := by
  cases p
  cases hqueue
  cases readings <;> exact (Option.some.inj hcheck).symm

theorem checkForTimeouts_stops (hqueue : p.issueTimes = e :: issueTimes) (hearly : now - e.time ≤ timeout)
    (hcheck : checkForTimeouts outcome timeout (List.replicate k now) p = some p') : p' = p := by
  cases k with
  | zero =>
    cases p
    cases hqueue
    cases hcheck
  | succ k =>
    rw [List.replicate_succ, checkForTimeouts_early hqueue hearly] at hcheck
    exact (Option.some.inj hcheck).symm

theorem checkForTimeouts_turn (hqueue : p.issueTimes = e :: issueTimes) (hlate : now - e.time > timeout)
    (hcheck : checkForTimeouts outcome timeout (List.replicate k now) p = some p') :
    ∃ k', checkForTimeouts outcome timeout (List.replicate k' now) (expire outcome e { p with issueTimes }) =
      some p' := by
  cases k with
  | zero =>
    cases p
    cases hqueue
    cases hcheck
  | succ k =>
    rw [List.replicate_succ, checkForTimeouts_late hqueue hlate] at hcheck
    exact ⟨k, hcheck⟩

theorem Queued.release (h : Queued p) (hqueue : p.issueTimes = e :: issueTimes) :
    ∀ cc sd : Nat, (p.issued.erase e.cc)[cc]? = some sd → ∃ e' ∈ issueTimes, e'.cc = cc ∧ e'.submissionId = sd := by
  intro cc sd hcc
  rw [Table.getElem?_erase_row] at hcc
  split at hcc
  · cases hcc
  · next hne =>
    obtain ⟨e', he', hcc', hsd⟩ := h cc sd hcc
    rw [hqueue] at he'
    obtain rfl | he' := List.mem_cons.mp he'
    · exact absurd hcc' hne
    · exact ⟨e', he', hcc', hsd⟩

theorem Queued.stale (h : Queued p) (hqueue : p.issueTimes = e :: issueTimes)
    (hstale : p.issued[e.cc]? ≠ some e.submissionId) : Queued { p with issueTimes } := by
  intro cc sd hcc
  obtain ⟨e', he', hcc', hsd⟩ := h cc sd hcc
  rw [hqueue] at he'
  obtain rfl | he' := List.mem_cons.mp he'
  · exact absurd (hcc'.symm ▸ hsd.symm ▸ hcc) hstale
  · exact ⟨e', he', hcc', hsd⟩

theorem cleared_of_nil (h : Queued p) (hqueue : p.issueTimes = []) : p.issued.size = 0 ∧ Cleared p p' := by
  have hnone : ∀ cc : Nat, p.issued[cc]? = none := by
    intro cc
    cases hheld : p.issued[cc]? with
    | none => rfl
    | some sd =>
      obtain ⟨e, he, -⟩ := h cc sd hheld
      rw [hqueue] at he
      cases he
  refine ⟨size_issued_eq_zero hnone, fun cc sd hheld => ?_⟩
  rw [hnone] at hheld
  cases hheld

theorem not_mem_issued_of_turn (h : (connections p).Nodup) (hheld : p.issued[e.cc]? = some e.submissionId)
    (hturn : checkForTimeouts outcome timeout (List.replicate k now) (expire outcome e p) = some p') :
    e.cc ∉ p'.issued := by
  intro hmem
  have honce : (connections (expire outcome e p)).Nodup := (counts_expire outcome e h).1
  have hleft : e.cc ∉ connections (expire outcome e p) := not_mem_connections_expire h hheld
  exact hleft (Multiset.mem_of_le (connections_checkForTimeouts_le honce hturn) (mem_connections.mpr (.inr hmem)))

/-- The loop goes on to the end of the queue if everything on it has timed out and nothing new is issued. -/
theorem cleared_iff (h : (connections p).Nodup) (hqueued : Queued p)
    (hlate : ∀ e ∈ p.issueTimes, now - e.time > timeout)
    (hlater : ∀ n ≥ p.attempts, ∀ time, outcome n = some time → now ≤ time)
    (hcheck : checkForTimeouts outcome timeout (List.replicate k now) p = some p') :
    Cleared p p' ↔ p.markers = [] ∨ ∀ n, p.attempts ≤ n → n + 1 < p.attempts + p.issued.size → outcome n = none := by
  induction hqueue : p.issueTimes generalizing p k with
  | nil =>
    obtain ⟨hsize, hcleared⟩ := cleared_of_nil hqueued hqueue
    exact iff_of_true hcleared (.inr fun n hn hlt => by omega)
  | cons e issueTimes ih =>
    rw [hqueue] at hlate
    obtain ⟨k', hturn⟩ := checkForTimeouts_turn hqueue (hlate e (.head _)) hcheck
    have hrest : ∀ e' ∈ issueTimes, now - e'.time > timeout := fun e' he' => hlate e' (.tail _ he')
    by_cases hheld : p.issued[e.cc]? = some e.submissionId
    · have hexpire : expire outcome e { p with issueTimes } =
          realEnqueueSubmission outcome e.submissionId { p with issueTimes, issued := p.issued.erase e.cc } :=
            if_pos hheld
      have honce : (connections (expire outcome e { p with issueTimes })).Nodup :=
        (counts_expire outcome (p := { p with issueTimes }) e h).1
      have hgone : e.cc ∉ p'.issued := not_mem_issued_of_turn (p := { p with issueTimes }) h hheld hturn
      have hqueued' := hqueued.release hqueue
      have hsize := size_erase_held hheld
      rw [hexpire] at hturn honce
      unfold realEnqueueSubmission at hturn honce
      cases hmarkers : p.markers with
      | nil =>
        simp only [hmarkers] at hturn honce
        let next : Pool := ⟨p.issued.erase e.cc, [], p.problems ++ [e.submissionId], issueTimes, p.attempts⟩
        have hrelease : Cleared p p' ↔ Cleared next p' := cleared_release rfl hgone
        refine iff_of_true (hrelease.mpr ?_) (.inl rfl)
        exact (ih (p := next) honce hqueued' hrest hlater hturn rfl).mpr (.inl rfl)
      | cons m markers =>
        simp only [hmarkers] at hturn honce
        cases houtcome : outcome p.attempts with
        | none =>
          -- the attempt fails, and the loop goes on with the next pair
          simp only [issue, houtcome] at hturn honce
          have hlater' : ∀ n ≥ p.attempts + 1, ∀ time, outcome n = some time → now ≤ time :=
            fun n hn => hlater n (Nat.le_of_succ_le hn)
          let next : Pool :=
            ⟨p.issued.erase e.cc, markers ++ [m], p.problems ++ [e.submissionId], issueTimes, p.attempts + 1⟩
          have hrelease : Cleared p p' ↔ Cleared next p' := cleared_release rfl hgone
          rw [hrelease, ih (p := next) honce hqueued' hrest hlater' hturn rfl]
          dsimp only [next]
          simp only [List.append_eq_nil_iff, List.cons_ne_nil, and_false, false_or]
          constructor
          · intro hnone n hn hlt
            obtain rfl | hn := Nat.eq_or_lt_of_le hn
            · exact houtcome
            · exact hnone n hn (by omega)
          · intro hnone n hn hlt
            exact hnone n (by omega) (by omega)
        | some time =>
          -- the new issue is at the top of the queue, and the loop ends
          simp only [issue, houtcome] at hturn
          obtain ⟨top, rest, htop, htime⟩ := head_pushed ⟨time, m, e.submissionId⟩ issueTimes
          have hnow := hlater p.attempts (Nat.le_refl _) time houtcome
          have hearly : now - top.time ≤ timeout := by
            dsimp only at htime
            omega
          obtain rfl := checkForTimeouts_stops htop hearly hturn
          rw [cleared_reissue hheld (not_mem_issued_of_waiting h hmarkers) rfl]
          simp only [reduceCtorEq, false_or]
          constructor
          · intro hone n hn hlt
            omega
          · intro hnone
            by_contra hmany
            have hfailed := hnone p.attempts (Nat.le_refl _) (by omega)
            rw [houtcome] at hfailed
            cases hfailed
    · have hexpire : expire outcome e { p with issueTimes } = { p with issueTimes } := if_neg hheld
      rw [hexpire] at hturn
      exact ih (p := { p with issueTimes }) h (hqueued.stale hqueue hheld) hrest hlater hturn rfl

end

section

variable {outcome : Nat → Option Int} {timeout : Nat} {w : Watch} {now : Int} {p : Pool}

theorem accounts_of_reachable (h : (machine outcome timeout).Reachable w) :
    (connections w.pool).Nodup ∧ Accounts w.log w.pool := by
  apply h.invariant
  · rintro w ⟨hpool, hlog⟩
    rw [hpool, hlog]
    refine ⟨Multiset.nodup_zero, List.Pairwise.nil, fun cc sd hheld => ?_⟩
    cases hheld
  · rintro w t w' ⟨honce, haccounts⟩ - hstep
    dsimp only [machine, Machine.ofFun, step] at hstep
    split at hstep
    · obtain ⟨pool, hperform, rfl⟩ := Option.map_eq_some_iff.mp hstep
      exact ⟨once_perform honce hperform, haccounts.moves (moves_perform outcome honce hperform)⟩
    · cases hstep

theorem complete_iff_cleared (h : Accounts w.log w.pool) (hlate : ∀ e ∈ w.pool.issueTimes, now - e.time > timeout) :
    Complete timeout now w p ↔ Cleared w.pool p := by
  refine forall_congr' fun cc => forall_congr' fun sd => imp_congr_left ⟨fun hoverdue => hoverdue.1, fun hheld => ?_⟩
  obtain ⟨e, he, hlog, -⟩ := h.held cc sd hheld
  exact ⟨hheld, e, hlog, hlate e he⟩

theorem head_early (h : Accounts w.log w.pool) {e : IssueTime} (he : e ∈ w.pool.issueTimes)
    (hearly : now - e.time ≤ timeout) :
    ∃ top issueTimes, w.pool.issueTimes = top :: issueTimes ∧ now - top.time ≤ timeout := by
  have hsorted := h.sorted
  cases hqueue : w.pool.issueTimes with
  | nil =>
    rw [hqueue] at he
    cases he
  | cons top issueTimes =>
    rw [hqueue] at he hsorted
    refine ⟨top, issueTimes, rfl, ?_⟩
    obtain rfl | he := List.mem_cons.mp he
    · exact hearly
    · have habove := (List.pairwise_cons.mp hsorted).1 e he
      unfold IssueTime.above at habove
      omega

end

theorem complete_iff_checkable (outcome : Nat → Option Int) (timeout : Nat) (w : Watch)
    (hreach : (machine outcome timeout).Reachable w) (now : Int)
    (hclock : ∀ n ≥ w.pool.attempts, ∀ time, outcome n = some time → now ≤ time) :
    (∃ k, (checkForTimeouts outcome timeout (List.replicate k now) w.pool).isSome = true) ∧
      ∀ k p, checkForTimeouts outcome timeout (List.replicate k now) w.pool = some p →
        (Complete timeout now w p ↔ Checkable outcome timeout now w) := by
  obtain ⟨honce, haccounts⟩ := accounts_of_reachable hreach
  constructor
  · apply checkForTimeouts_returns
    intro n hn time htime
    have hlater := hclock n hn time htime
    omega
  intro k p hcheck
  by_cases hlate : ∀ e ∈ w.pool.issueTimes, now - e.time > timeout
  · have hqueued : Queued w.pool := by
      intro cc sd hheld
      obtain ⟨e, he, hlog, hsd⟩ := haccounts.held cc sd hheld
      exact ⟨e, he, by simpa using List.find?_some hlog, hsd⟩
    rw [complete_iff_cleared haccounts hlate, cleared_iff honce hqueued hlate hclock hcheck, Checkable]
    constructor
    · exact fun h => .inr ⟨hlate, h⟩
    · rintro (hnone | ⟨-, h⟩)
      · have hempty : ∀ cc : Nat, w.pool.issued[cc]? = none := by
          intro cc
          cases hheld : w.pool.issued[cc]? with
          | none => rfl
          | some sd =>
            obtain ⟨e, he, hlog, -⟩ := haccounts.held cc sd hheld
            exact absurd ⟨hheld, e, hlog, hlate e he⟩ (hnone cc sd)
        have hsize := size_issued_eq_zero hempty
        exact .inr fun n hn hlt => by omega
      · exact h
  · obtain ⟨e, he⟩ := not_forall.mp hlate
    obtain ⟨hmem, hearly⟩ := Classical.not_imp.mp he
    obtain ⟨top, issueTimes, hqueue, htop⟩ := head_early haccounts hmem (Int.not_lt.mp hearly)
    obtain rfl := checkForTimeouts_stops hqueue htop hcheck
    constructor
    · exact fun h => .inl fun cc sd hoverdue => h cc sd hoverdue hoverdue.1
    · rintro (hnone | ⟨hall, -⟩)
      · exact fun cc sd hoverdue => absurd hoverdue (hnone cc sd)
      · exact absurd hall hlate

section

/-- A submission that is taken back, what the loop had read from the clock, and the issues until then. -/
structure Removal where
  now : Int
  cc : Nat
  submissionId : Nat
  log : List IssueTime

/-- The latest issue to the connection is of that submission, and was more than the timeout ago. -/
def Removal.Overdue (timeout : Nat) (r : Removal) : Prop :=
  ∃ e, r.log.find? (fun e => e.cc = r.cc) = some e ∧ e.submissionId = r.submissionId ∧ r.now - e.time > timeout

def removals (outcome : Nat → Option Int) (timeout : Nat) (readings : List Int) (log : List IssueTime) (p : Pool) :
    List Removal :=
  match p.issueTimes, readings with
  | [], _ => []
  | _ :: _, [] => []
  | e :: issueTimes, now :: readings =>
    if now - e.time > timeout then
      let later := removals outcome timeout readings (issuesOfExpire outcome e { p with issueTimes } ++ log)
        (expire outcome e { p with issueTimes })
      if p.issued[e.cc]? = some e.submissionId then ⟨now, e.cc, e.submissionId, log⟩ :: later else later
    else []

variable {outcome : Nat → Option Int} {timeout : Nat} {readings : List Int} {log : List IssueTime} {p p' : Pool}

/-- The current issue of a pair is on the queue, so a pair at the top is no older. -/
theorem overdue_top {e : IssueTime} {issueTimes : List IssueTime} {now : Int} (h : Accounts log p)
    (hqueue : p.issueTimes = e :: issueTimes) (hlate : now - e.time > timeout)
    (hheld : p.issued[e.cc]? = some e.submissionId) : Removal.Overdue timeout ⟨now, e.cc, e.submissionId, log⟩ := by
  obtain ⟨current, hmem, hlog, hsd⟩ := h.held e.cc e.submissionId hheld
  refine ⟨current, hlog, hsd, ?_⟩
  have hsorted := h.sorted
  rw [hqueue] at hsorted hmem
  obtain rfl | hbelow := List.mem_cons.mp hmem
  · exact hlate
  · have habove := (List.pairwise_cons.mp hsorted).1 current hbelow
    unfold IssueTime.above at habove
    dsimp only
    omega

theorem overdue_of_mem_removals (honce : (connections p).Nodup) (haccounts : Accounts log p) :
    ∀ r ∈ removals outcome timeout readings log p, r.Overdue timeout := by
  fun_induction removals outcome timeout readings log p with
  | case1 | case2 => exact List.forall_mem_nil _
  | case3 log p e issueTimes now readings hqueue hlate later hheld ih =>
    have hturn : Moves (fun _ => True) p _ (expire outcome e { p with issueTimes }) :=
      moves_expire outcome honce hqueue fun _ => trivial
    have hlater := ih (counts_expire outcome (p := { p with issueTimes }) e honce).1 (haccounts.moves hturn)
    exact List.forall_mem_cons.mpr ⟨overdue_top haccounts hqueue hlate hheld, hlater⟩
  | case4 log p e issueTimes now readings hqueue hlate later hstale ih =>
    have hturn : Moves (fun _ => True) p _ (expire outcome e { p with issueTimes }) :=
      moves_expire outcome honce hqueue fun _ => trivial
    exact ih (counts_expire outcome (p := { p with issueTimes }) e honce).1 (haccounts.moves hturn)
  | case5 => exact List.forall_mem_nil _

theorem mem_removals_of_gone {cc sd : Nat} (honce : (connections p).Nodup)
    (hcheck : checkForTimeouts outcome timeout readings p = some p') (hheld : p.issued[cc]? = some sd)
    (hgone : p'.issued[cc]? ≠ some sd) :
    ∃ r ∈ removals outcome timeout readings log p, r.cc = cc ∧ r.submissionId = sd := by
  fun_induction removals outcome timeout readings log p with
  | case1 readings log p hqueue =>
    obtain rfl := checkForTimeouts_nil hqueue readings hcheck
    exact absurd hheld hgone
  | case2 log p e issueTimes hqueue =>
    rw [checkForTimeouts.eq_def, hqueue] at hcheck
    cases hcheck
  | case3 log p e issueTimes now readings hqueue hlate later htop ih =>
    rw [checkForTimeouts_late hqueue hlate] at hcheck
    by_cases hcc : e.cc = cc
    · rw [hcc] at htop
      exact ⟨_, .head _, hcc, Option.some.inj (htop.symm.trans hheld)⟩
    · have hturn : Moves (fun cc' => cc' ≠ cc) p _ (expire outcome e { p with issueTimes }) :=
        moves_expire outcome honce hqueue fun _ => hcc
      have hkept := (hturn.kept (not_not.mpr rfl) hheld).1
      obtain ⟨r, hr, hpair⟩ := ih (counts_expire outcome (p := { p with issueTimes }) e honce).1 hcheck hkept
      exact ⟨r, .tail _ hr, hpair⟩
  | case4 log p e issueTimes now readings hqueue hlate later hstale ih =>
    rw [checkForTimeouts_late hqueue hlate] at hcheck
    have hturn : Moves (fun cc' => cc' ≠ cc) p _ (expire outcome e { p with issueTimes }) :=
      moves_expire outcome honce hqueue fun htop => absurd htop hstale
    have hkept := (hturn.kept (not_not.mpr rfl) hheld).1
    exact ih (counts_expire outcome (p := { p with issueTimes }) e honce).1 hcheck hkept
  | case5 log p e issueTimes now readings hqueue hearly =>
    rw [checkForTimeouts_early hqueue (Int.not_lt.mp hearly)] at hcheck
    cases hcheck
    exact absurd hheld hgone

end

theorem overdue_of_removed (outcome : Nat → Option Int) (timeout : Nat) (w : Watch)
    (hreach : (machine outcome timeout).Reachable w) (readings : List Int) :
    (∀ r ∈ removals outcome timeout readings w.log w.pool, r.Overdue timeout) ∧
      ∀ p, checkForTimeouts outcome timeout readings w.pool = some p → ∀ cc sd : Nat, w.pool.issued[cc]? = some sd →
        p.issued[cc]? ≠ some sd → ∃ r ∈ removals outcome timeout readings w.log w.pool,
          r.cc = cc ∧ r.submissionId = sd := by
  obtain ⟨honce, haccounts⟩ := accounts_of_reachable hreach
  exact ⟨overdue_of_mem_removals honce haccounts, fun p hcheck cc sd => mem_removals_of_gone honce hcheck⟩

def hundreds (n : Nat) : Option Int := some (100 * n)

def twoIssued : List Tick :=
  [⟨.enqueueSubmission 7, 0⟩, ⟨.enqueueMarker 1, 0⟩, ⟨.enqueueSubmission 8, 100⟩, ⟨.enqueueMarker 2, 100⟩]

def idle : Watch := ⟨Pool.empty, [], 0⟩

theorem complete_bothOverdue : ∃ w p, (machine hundreds 60).Reachable w ∧
    checkForTimeouts hundreds 60 (List.replicate 3 200) w.pool = some p ∧ w.pool.issued.toList = [(1, 7), (2, 8)] ∧
    p.problems = [8, 7] ∧ Complete 60 200 w p := by
  have hplay : ∃ w, play (step hundreds 60) (fun _ _ => True) idle twoIssued = some w ∧
      w.pool.attempts = 2 ∧ w.pool.markers = [] ∧ w.pool.issued.toList = [(1, 7), (2, 8)] ∧
      (∀ e ∈ w.pool.issueTimes, (200 : Int) - e.time > 60) ∧
      ∃ p, checkForTimeouts hundreds 60 (List.replicate 3 200) w.pool = some p ∧ p.problems = [8, 7] := by
        decide +kernel
  obtain ⟨w, hplay, hattempts, hmarkers, hissued, hlate, p, hcheck, hproblems⟩ := hplay
  have hreach : (machine hundreds 60).Reachable w := Machine.Reach.play (.init ⟨rfl, rfl⟩) hplay
  have hclock : ∀ n ≥ w.pool.attempts, ∀ time, hundreds n = some time → (200 : Int) ≤ time := by
    intro n hn time htime
    cases htime
    omega
  have hcomplete := ((complete_iff_checkable hundreds 60 w hreach 200 hclock).2 3 p hcheck).mpr
    (.inr ⟨hlate, .inl hmarkers⟩)
  exact ⟨w, p, hreach, hcheck, hissued, hproblems, hcomplete⟩

/-- The first marker has had its submission for 120 seconds, but the second one got its own 20 seconds ago. -/
theorem not_complete_recentIssue : ∃ w p, (machine hundreds 60).Reachable w ∧
    checkForTimeouts hundreds 60 (List.replicate 1 120) w.pool = some p ∧ Overdue 60 120 w 1 7 ∧
    p.issued[1]? = some 7 ∧ ¬Complete 60 120 w p := by
  have hplay : ∃ w, play (step hundreds 60) (fun _ _ => True) idle twoIssued = some w ∧
      (w.pool.issued[1]? = some 7 ∧ ∃ e ∈ w.log.find? fun e => e.cc = 1, (120 : Int) - e.time > 60) ∧
      ∃ p, checkForTimeouts hundreds 60 (List.replicate 1 120) w.pool = some p ∧ p.issued[1]? = some 7 := by
        decide +kernel
  obtain ⟨w, hplay, hoverdue, p, hcheck, hissued⟩ := hplay
  have hreach : (machine hundreds 60).Reachable w := Machine.Reach.play (.init ⟨rfl, rfl⟩) hplay
  exact ⟨w, p, hreach, hcheck, hoverdue, hissued, fun hcomplete => hcomplete 1 7 hoverdue hissued⟩

def reissued : List Tick :=
  [⟨.enqueueSubmission 7, 0⟩, ⟨.enqueueMarker 1, 0⟩, ⟨.preemptMarker 1, 50⟩, ⟨.enqueueMarker 1, 100⟩]

/-- After 20 seconds it keeps the submission, with the first issue still on the queue; after 100 it does not. -/
theorem overdue_reissued : ∃ w, (machine hundreds 60).Reachable w ∧
    w.pool.issueTimes = [⟨100, 1, 7⟩, ⟨0, 1, 7⟩] ∧ removals hundreds 60 [120] w.log w.pool = [] ∧
    (∃ p, checkForTimeouts hundreds 60 [120] w.pool = some p ∧ p.issued[1]? = some 7) ∧
    ∃ p, checkForTimeouts hundreds 60 [200, 200] w.pool = some p ∧ p.issued[1]? = none ∧
      ∃ r ∈ removals hundreds 60 [200, 200] w.log w.pool, r.cc = 1 ∧ r.submissionId = 7 ∧ r.Overdue 60 := by
  have hplay : ∃ w, play (step hundreds 60) (fun _ _ => True) idle reissued = some w ∧
      w.pool.issueTimes = [⟨100, 1, 7⟩, ⟨0, 1, 7⟩] ∧ (removals hundreds 60 [120] w.log w.pool).length = 0 ∧
      (∃ p, checkForTimeouts hundreds 60 [120] w.pool = some p ∧ p.issued[1]? = some 7) ∧
      w.pool.issued[1]? = some 7 ∧
      ∃ p, checkForTimeouts hundreds 60 [200, 200] w.pool = some p ∧ p.issued[1]? = none := by decide +kernel
  obtain ⟨w, hplay, hqueue, hnone, hkept, hheld, p, hcheck, hgone⟩ := hplay
  have hreach : (machine hundreds 60).Reachable w := Machine.Reach.play (.init ⟨rfl, rfl⟩) hplay
  obtain ⟨hoverdue, hremoved⟩ := overdue_of_removed hundreds 60 w hreach [200, 200]
  obtain ⟨r, hr, hcc, hsd⟩ := hremoved p hcheck 1 7 hheld (by simp [hgone])
  exact ⟨w, hreach, hqueue, List.length_eq_zero_iff.mp hnone, hkept, p, hcheck, hgone, r, hr, hcc, hsd, hoverdue r hr⟩

end Abacus.Marking.Timeouts
