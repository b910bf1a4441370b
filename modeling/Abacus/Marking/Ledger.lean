import Abacus.Marking.Markers

/-! # The issues that a call makes

Every call of the pool is a sequence of moves: a submission is given up or issued, or a pair that is out
of date leaves the queue. The log has the issues that were made, the latest first.
-/

namespace Abacus.Marking.Ledger

open Library Markers

section

variable (outcome : Nat → Option Int)

def issues (cc sd : Nat) (p : Pool) : List IssueTime := ((outcome p.attempts).map fun time => ⟨time, cc, sd⟩).toList

def issuesOfSubmission (sd : Nat) (p : Pool) : List IssueTime :=
  match p.markers with
  | [] => []
  | cc :: _ => issues outcome cc sd p

def issuesOfMarker (cc : Nat) (p : Pool) : List IssueTime :=
  match p.problems with
  | [] => []
  | sd :: _ => issues outcome cc sd p

def issuesOfNotify (cc submissionId : Nat) (p : Pool) : List IssueTime :=
  match p.issued[cc]? with
  | some sd =>
    if submissionId ≠ sd then
      issuesOfMarker outcome cc (realEnqueueSubmission outcome sd p) ++ issuesOfSubmission outcome sd p
    else issuesOfMarker outcome cc p
  | none => []

def issuesOfExpire (e : IssueTime) (p : Pool) : List IssueTime :=
  if p.issued[e.cc]? = some e.submissionId then issuesOfSubmission outcome e.submissionId p else []

def issuesOfTimeouts (timeout : Nat) (readings : List Int) (p : Pool) : List IssueTime :=
  match p.issueTimes, readings with
  | [], _ => []
  | _ :: _, [] => []
  | e :: issueTimes, now :: readings =>
    if now - e.time > timeout then
      issuesOfTimeouts timeout readings (expire outcome e { p with issueTimes }) ++
        issuesOfExpire outcome e { p with issueTimes }
    else []

def perform (timeout : Nat) (call : Call) (p : Pool) : Option Pool :=
  match call with
  | .enqueueMarker cc => some (enqueueMarker outcome cc p)
  | .preemptMarker cc => some (preemptMarker outcome cc p)
  | .enqueueSubmission submissionId => some (enqueueSubmission outcome submissionId p)
  | .notifyMarked cc submissionId => some (notifyMarked outcome cc submissionId p)
  | .checkForTimeouts readings => checkForTimeouts outcome timeout readings p

def issuesOf (timeout : Nat) (call : Call) (p : Pool) : List IssueTime :=
  match call with
  | .enqueueMarker cc => if cc ∈ p.issued then [] else if cc ∈ p.markers then [] else issuesOfMarker outcome cc p
  | .preemptMarker cc =>
    if cc ∈ p.markers then []
    else match p.issued[cc]? with
      | some sd => issuesOfSubmission outcome sd p
      | none => []
  | .enqueueSubmission submissionId => issuesOfSubmission outcome submissionId p
  | .notifyMarked cc submissionId => issuesOfNotify outcome cc submissionId p
  | .checkForTimeouts readings => issuesOfTimeouts outcome timeout readings p

end

section

/-- One move, with what it adds to the log. Only the connections in `G` may have to give up their submissions. -/
inductive Move (G : Nat → Prop) (p : Pool) : List IssueTime → Pool → Prop
  | wait {p' : Pool} (hissued : p'.issued = p.issued) (hqueue : p'.issueTimes = p.issueTimes) : Move G p [] p'
  | release {p' : Pool} (cc : Nat) (hgone : G cc) (hissued : p'.issued = p.issued.erase cc)
      (hqueue : p'.issueTimes = p.issueTimes) : Move G p [] p'
  | issue {p' : Pool} (e : IssueTime) (hfree : e.cc ∉ p.issued)
      (hissued : p'.issued = p.issued.insert e.cc e.submissionId)
      (hqueue : p'.issueTimes = p.issueTimes.orderedInsert IssueTime.above e) : Move G p [e] p'
  | pop {p' : Pool} (e : IssueTime) (hstale : p.issued[e.cc]? ≠ some e.submissionId) (hissued : p'.issued = p.issued)
      (hqueue : p.issueTimes = e :: p'.issueTimes) : Move G p [] p'

inductive Moves (G : Nat → Prop) : Pool → List IssueTime → Pool → Prop
  | refl (p : Pool) : Moves G p [] p
  | head {p q r : Pool} {new later : List IssueTime} (hmove : Move G p new q) (hmoves : Moves G q later r) :
      Moves G p (later ++ new) r

variable {G : Nat → Prop} {p q r : Pool} {new later : List IssueTime}

theorem Move.erase (p : Pool) {cc : Nat} (hgone : G cc) : Move G p [] { p with issued := p.issued.erase cc } :=
  .release cc hgone rfl rfl

theorem Moves.single (h : Move G p new q) : Moves G p new q := .head h (.refl q)

theorem Moves.trans (h : Moves G p new q) (h' : Moves G q later r) : Moves G p (later ++ new) r := by
  induction h with
  | refl p =>
    rw [List.append_nil]
    exact h'
  | head hmove _ ih =>
    rw [← List.append_assoc]
    exact .head hmove (ih h')

/-- What a connection outside `G` holds stays with it, and nothing else is issued to it. -/
theorem Moves.kept (h : Moves G p new q) {cc sd : Nat} (hG : ¬G cc) (hheld : p.issued[cc]? = some sd) :
    q.issued[cc]? = some sd ∧ ∀ e ∈ new, e.cc ≠ cc := by
  induction h with
  | refl p => exact ⟨hheld, nofun⟩
  | @head p q r new later hmove _ ih =>
    have hstep : q.issued[cc]? = some sd ∧ ∀ e ∈ new, e.cc ≠ cc := by
      cases hmove with
      | wait hissued _ => exact ⟨hissued ▸ hheld, nofun⟩
      | release cc' hgone hissued _ =>
        have hne : cc' ≠ cc := fun heq => hG (heq ▸ hgone)
        rw [hissued, Table.getElem?_erase_row, if_neg hne]
        exact ⟨hheld, nofun⟩
      | issue e hfree hissued _ =>
        have hne : e.cc ≠ cc := fun heq => hfree (heq ▸ Table.mem_iff_exists_row.mpr ⟨sd, hheld⟩)
        rw [hissued, Table.getElem?_insert_row, if_neg hne]
        refine ⟨hheld, fun e' he' => ?_⟩
        rw [List.mem_singleton.mp he']
        exact hne
      | pop e _ hissued _ => exact ⟨hissued ▸ hheld, nofun⟩
    obtain ⟨hlast, hlater⟩ := ih hstep.1
    refine ⟨hlast, fun e he => ?_⟩
    exact (List.mem_append.mp he).elim (hlater e) (hstep.2 e)

theorem Moves.mem_queue (h : Moves G p new q) {e : IssueTime} (he : e ∈ q.issueTimes) : e ∈ new ∨ e ∈ p.issueTimes := by
  induction h with
  | refl p => exact .inr he
  | @head p q r new later hmove _ ih =>
    have hstep : e ∈ q.issueTimes → e ∈ new ∨ e ∈ p.issueTimes := by
      intro he
      cases hmove with
      | wait _ hqueue | release _ _ _ hqueue => exact .inr (hqueue ▸ he)
      | issue e' _ _ hqueue =>
        rw [hqueue, List.mem_orderedInsert] at he
        exact he.imp List.mem_singleton.mpr id
      | pop e' _ _ hqueue =>
        rw [hqueue]
        exact .inr (.tail _ he)
    rw [List.mem_append, or_assoc]
    exact (ih he).imp id hstep

theorem Moves.held (h : Moves G p new q) {cc sd : Nat} (hheld : q.issued[cc]? = some sd) :
    match new.find? fun e => e.cc = cc with
    | some e => e.submissionId = sd
    | none => p.issued[cc]? = some sd := by
  induction h with
  | refl p => exact hheld
  | @head p q r new later hmove _ ih =>
    have hlater := ih hheld
    rw [List.find?_append]
    cases hfind : later.find? fun e => e.cc = cc with
    | some e =>
      rw [hfind] at hlater
      exact hlater
    | none =>
      rw [hfind] at hlater
      dsimp only at hlater
      rw [Option.none_or]
      cases hmove with
      | wait hissued _ => exact hissued ▸ hlater
      | release cc' _ hissued _ =>
        rw [hissued, Table.getElem?_erase_row] at hlater
        by_cases hcc : cc' = cc
        · rw [if_pos hcc] at hlater
          cases hlater
        · rw [if_neg hcc] at hlater
          exact hlater
      | issue e _ hissued _ =>
        rw [hissued, Table.getElem?_insert_row] at hlater
        by_cases hcc : e.cc = cc
        · rw [if_pos hcc] at hlater
          simpa [hcc] using hlater
        · rw [if_neg hcc] at hlater
          simpa [hcc] using hlater
      | pop _ _ hissued _ => exact hissued ▸ hlater

end

section

variable (outcome : Nat → Option Int) {G : Nat → Prop} {p : Pool} {cc : Nat}

theorem moves_issue (h : cc ∉ p.issued) (sd : Nat) : Moves G p (issues outcome cc sd p) (issue outcome cc sd p) := by
  unfold issues issue
  split
  · next hfailed =>
    rw [hfailed]
    exact .single (.wait rfl rfl)
  · next time hissued =>
    rw [hissued]
    exact .single (.issue ⟨time, cc, sd⟩ h rfl rfl)

theorem moves_realEnqueueSubmission (h : (connections p).Nodup) (sd : Nat) :
    Moves G p (issuesOfSubmission outcome sd p) (realEnqueueSubmission outcome sd p) := by
  unfold issuesOfSubmission realEnqueueSubmission
  cases hmarkers : p.markers with
  | nil => exact .single (.wait rfl rfl)
  | cons cc markers =>
    have hfree : cc ∉ p.issued := not_mem_issued_of_waiting h hmarkers
    have hissue : Moves G { p with markers } (issues outcome cc sd p) (issue outcome cc sd { p with markers }) :=
      moves_issue outcome (p := { p with markers }) hfree sd
    have hmoves := Moves.head (.wait rfl rfl : Move G p [] { p with markers }) hissue
    rw [List.append_nil] at hmoves
    exact hmoves

theorem moves_realEnqueueMarker (h : cc ∉ p.issued) :
    Moves G p (issuesOfMarker outcome cc p) (realEnqueueMarker outcome cc p) := by
  unfold issuesOfMarker realEnqueueMarker
  cases p.problems with
  | nil => exact .single (.wait rfl rfl)
  | cons sd problems =>
    have hissue : Moves G { p with problems } (issues outcome cc sd p) (issue outcome cc sd { p with problems }) :=
      moves_issue outcome (p := { p with problems }) h sd
    have hmoves := Moves.head (.wait rfl rfl : Move G p [] { p with problems }) hissue
    rw [List.append_nil] at hmoves
    exact hmoves

theorem nodup_release (h : (connections p).Nodup) {sd : Nat} (hheld : p.issued[cc]? = some sd) :
    (connections { p with issued := p.issued.erase cc }).Nodup := by
  rw [(counts_erase hheld).1] at h
  exact (Multiset.nodup_cons.mp h).2

theorem moves_requeue (h : (connections p).Nodup) {sd : Nat} (hheld : p.issued[cc]? = some sd) (hgone : G cc) :
    Moves G p (issuesOfSubmission outcome sd p)
      (realEnqueueSubmission outcome sd { p with issued := p.issued.erase cc }) := by
  have henqueue : Moves G { p with issued := p.issued.erase cc } (issuesOfSubmission outcome sd p)
      (realEnqueueSubmission outcome sd { p with issued := p.issued.erase cc }) :=
    moves_realEnqueueSubmission outcome (nodup_release h hheld) sd
  have hmoves := Moves.head (.erase p hgone) henqueue
  rw [List.append_nil] at hmoves
  exact hmoves

theorem moves_enqueueMarker (timeout cc : Nat) :
    Moves G p (issuesOf outcome timeout (.enqueueMarker cc) p) (enqueueMarker outcome cc p) := by
  unfold issuesOf enqueueMarker
  dsimp only
  split
  · exact .refl p
  · next hissued =>
    split
    · exact .refl p
    · exact moves_realEnqueueMarker outcome hissued

theorem moves_preemptMarker (h : (connections p).Nodup) (timeout : Nat) (hgone : G cc) :
    Moves G p (issuesOf outcome timeout (.preemptMarker cc) p) (preemptMarker outcome cc p) := by
  unfold issuesOf preemptMarker
  dsimp only
  split
  · exact .single (.wait rfl rfl)
  · cases hheld : p.issued[cc]? with
    | some sd => exact moves_requeue outcome h hheld hgone
    | none => exact .refl p

theorem moves_notifyMarked (h : (connections p).Nodup) (submissionId : Nat) (hgone : G cc) :
    Moves G p (issuesOfNotify outcome cc submissionId p) (notifyMarked outcome cc submissionId p) := by
  unfold issuesOfNotify notifyMarked
  cases hheld : p.issued[cc]? with
  | none => exact .refl p
  | some sd =>
    have hreturn : ∀ q : Pool, Moves G q (issuesOfMarker outcome cc q)
        (realEnqueueMarker outcome cc { q with issued := q.issued.erase cc }) := by
      intro q
      have hfree : cc ∉ q.issued.erase cc := by simp
      have henqueue : Moves G { q with issued := q.issued.erase cc } (issuesOfMarker outcome cc q)
          (realEnqueueMarker outcome cc { q with issued := q.issued.erase cc }) :=
        moves_realEnqueueMarker outcome (p := { q with issued := q.issued.erase cc }) hfree
      have hmoves := Moves.head (.erase q hgone) henqueue
      rw [List.append_nil] at hmoves
      exact hmoves
    dsimp only
    split
    · exact (moves_realEnqueueSubmission outcome h sd).trans (hreturn _)
    · exact hreturn p

theorem moves_expire (h : (connections p).Nodup) {e : IssueTime} {issueTimes : List IssueTime}
    (hqueue : p.issueTimes = e :: issueTimes) (hgone : p.issued[e.cc]? = some e.submissionId → G e.cc) :
    Moves G p (issuesOfExpire outcome e { p with issueTimes }) (expire outcome e { p with issueTimes }) := by
  unfold issuesOfExpire expire
  dsimp only
  split
  · next hheld =>
    have hpop : Move G { p with issued := p.issued.erase e.cc } []
        { p with issueTimes, issued := p.issued.erase e.cc } :=
      .pop e (by simp) rfl hqueue
    have hfree : (connections { p with issueTimes, issued := p.issued.erase e.cc }).Nodup := nodup_release h hheld
    have henqueue : Moves G { p with issueTimes, issued := p.issued.erase e.cc }
        (issuesOfSubmission outcome e.submissionId p)
        (realEnqueueSubmission outcome e.submissionId { p with issueTimes, issued := p.issued.erase e.cc }) :=
      moves_realEnqueueSubmission outcome hfree e.submissionId
    have hmoves := Moves.head (.erase p (hgone hheld)) (.head hpop henqueue)
    rw [List.append_nil, List.append_nil] at hmoves
    exact hmoves
  · next hstale => exact .single (.pop e hstale rfl hqueue)

theorem moves_checkForTimeouts (h : (connections p).Nodup) {timeout : Nat} {readings : List Int} {p' : Pool}
    (hsafe : ∀ cc, ¬G cc → ∃ sd, p.issued[cc]? = some sd ∧ ∀ e ∈ p.issueTimes, e.cc = cc → e.submissionId = sd →
      ∀ now ∈ readings, now - e.time ≤ timeout)
    (hcheck : checkForTimeouts outcome timeout readings p = some p') :
    Moves G p (issuesOfTimeouts outcome timeout readings p) p' := by
  induction readings generalizing p with
  | nil =>
    rw [checkForTimeouts.eq_def] at hcheck
    rw [issuesOfTimeouts.eq_def]
    cases hqueue : p.issueTimes with
    | nil =>
      rw [hqueue] at hcheck
      cases hcheck
      exact .refl _
    | cons e issueTimes =>
      rw [hqueue] at hcheck
      cases hcheck
  | cons now readings ih =>
    rw [checkForTimeouts.eq_def] at hcheck
    rw [issuesOfTimeouts.eq_def]
    cases hqueue : p.issueTimes with
    | nil =>
      rw [hqueue] at hcheck
      cases hcheck
      exact .refl _
    | cons e issueTimes =>
      rw [hqueue] at hcheck
      dsimp only at hcheck ⊢
      split at hcheck
      · next hlate =>
        rw [if_pos hlate]
        have hturn : Moves G p (issuesOfExpire outcome e { p with issueTimes })
            (expire outcome e { p with issueTimes }) := by
          apply moves_expire outcome h hqueue
          intro hheld
          by_contra hG
          obtain ⟨sd, hsd, htimes⟩ := hsafe e.cc hG
          have hsame := Option.some.inj (hheld.symm.trans hsd)
          have hearly := htimes e (hqueue ▸ .head _) rfl hsame now (.head _)
          omega
        apply hturn.trans
        apply ih (counts_expire outcome (p := { p with issueTimes }) e h).1 _ hcheck
        intro cc hG
        obtain ⟨sd, hsd, htimes⟩ := hsafe cc hG
        obtain ⟨hkept, hnew⟩ := hturn.kept hG hsd
        refine ⟨sd, hkept, fun e' he' hcc hsame now' hnow' => ?_⟩
        obtain hissued | hbefore := hturn.mem_queue he'
        · exact absurd hcc (hnew e' hissued)
        · exact htimes e' hbefore hcc hsame now' (.tail _ hnow')
      · next hearly =>
        rw [if_neg hearly]
        cases hcheck
        exact .refl _

theorem moves_perform (h : (connections p).Nodup) {timeout : Nat} {call : Call} {p' : Pool}
    (hperform : perform outcome timeout call p = some p') :
    Moves (fun _ => True) p (issuesOf outcome timeout call p) p' := by
  cases call with
  | enqueueMarker cc =>
    cases hperform
    exact moves_enqueueMarker outcome timeout cc
  | preemptMarker cc =>
    cases hperform
    exact moves_preemptMarker outcome h timeout trivial
  | enqueueSubmission sd =>
    cases hperform
    exact moves_realEnqueueSubmission outcome h sd
  | notifyMarked cc sd =>
    cases hperform
    exact moves_notifyMarked outcome h sd trivial
  | checkForTimeouts readings => exact moves_checkForTimeouts outcome h (fun cc hcc => absurd trivial hcc) hperform

end

structure Accounts (log : List IssueTime) (p : Pool) : Prop where
  sorted : p.issueTimes.Pairwise IssueTime.above
  held : ∀ cc sd : Nat, p.issued[cc]? = some sd → ∃ e ∈ p.issueTimes, log.find? (fun e => e.cc = cc) = some e ∧
    e.submissionId = sd

instance : Std.Total IssueTime.above where
  total a b := by
    unfold IssueTime.above
    omega

instance : IsTrans IssueTime IssueTime.above where
  trans a b c := by
    unfold IssueTime.above
    omega

theorem Accounts.move {G : Nat → Prop} {log new : List IssueTime} {p q : Pool} (h : Accounts log p)
    (hmove : Move G p new q) : Accounts (new ++ log) q := by
  cases hmove with
  | wait hissued hqueue => exact ⟨hqueue ▸ h.sorted, hissued ▸ hqueue ▸ h.held⟩
  | release cc' _ hissued hqueue =>
    refine ⟨hqueue ▸ h.sorted, fun cc sd hheld => ?_⟩
    rw [hissued, Table.getElem?_erase_row] at hheld
    split at hheld
    · cases hheld
    · rw [hqueue]
      exact h.held cc sd hheld
  | issue e _ hissued hqueue =>
    refine ⟨hqueue ▸ h.sorted.orderedInsert e _, fun cc sd hheld => ?_⟩
    rw [hissued, Table.getElem?_insert_row] at hheld
    rw [hqueue]
    by_cases hcc : e.cc = cc
    · rw [if_pos hcc] at hheld
      refine ⟨e, (List.mem_orderedInsert IssueTime.above).mpr (.inl rfl), ?_, Option.some.inj hheld⟩
      simp [hcc]
    · rw [if_neg hcc] at hheld
      obtain ⟨e', he', hlog, hsd⟩ := h.held cc sd hheld
      refine ⟨e', (List.mem_orderedInsert IssueTime.above).mpr (.inr he'), ?_, hsd⟩
      simp [hcc, hlog]
  | pop e hstale hissued hqueue =>
    have hsorted := h.sorted
    rw [hqueue] at hsorted
    refine ⟨(List.pairwise_cons.mp hsorted).2, fun cc sd hheld => ?_⟩
    rw [hissued] at hheld
    obtain ⟨e', he', hlog, hsd⟩ := h.held cc sd hheld
    refine ⟨e', ?_, hlog, hsd⟩
    rw [hqueue] at he'
    obtain rfl | he' := List.mem_cons.mp he'
    · have hcc : e'.cc = cc := by simpa using List.find?_some hlog
      rw [hcc, hsd] at hstale
      exact absurd hheld hstale
    · exact he'

theorem Accounts.moves {G : Nat → Prop} {log new : List IssueTime} {p q : Pool} (h : Accounts log p)
    (hmoves : Moves G p new q) : Accounts (new ++ log) q := by
  induction hmoves generalizing log with
  | refl p => exact h
  | head hmove _ ih =>
    rw [List.append_assoc]
    exact ih (h.move hmove)

end Abacus.Marking.Ledger
