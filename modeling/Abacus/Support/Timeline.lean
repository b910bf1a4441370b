import Mathlib.Data.List.Induction
import Abacus.Library.StableSort
import Abacus.Support.Timer

/-! # What the event list says

At each moment the last event of a group says whether its contest runs. Contest time, status and end depend on
nothing else.
-/

namespace Abacus.Support.Timeline

open Library Timer

def IsStartStop (action : Nat) : Prop := action = timerStart ∨ action = timerStop

/-- An event list as it is built by insertion or read from the database. -/
structure Chronicle (l : List Event) : Prop where
  sorted : l.Pairwise fun a b => a.time ≤ b.time
  times : ∀ e ∈ l, 0 ≤ e.time
  actions : ∀ e ∈ l, IsStartStop e.action

structure Ordered (l : List Event) : Prop where
  sorted : l.Pairwise fun a b => a.time ≤ b.time
  actions : ∀ e ∈ l, IsStartStop e.action

theorem Chronicle.ordered {l : List Event} (h : Chronicle l) : Ordered l := ⟨h.sorted, h.actions⟩

variable {e : Event}

theorem concerns_iff {groupId : Nat} : e.concerns groupId = true ↔ e.groupId = 0 ∨ e.groupId = groupId := by
  simp [Event.concerns]

section

def elapsedBy (c : Clock) (time : Int) : Int :=
  if c.status = timerStart then c.elapsed + (time - c.lastStart) else c.elapsed

variable {c : Clock} {e : Event} {l : List Event} {time : Int}

theorem status_event (c : Clock) (e : Event) : (c.event e).status = e.action := by
  unfold Clock.event
  split
  · next h => exact h.symm
  · split <;> rfl

theorem elapsedBy_event (hc : IsStartStop c.status) (he : IsStartStop e.action) :
    elapsedBy (c.event e) e.time = elapsedBy c e.time := by
  unfold Clock.event
  split
  · rfl
  · next hne =>
    split
    · next hstart =>
      have hstop : c.status = timerStop := hc.resolve_left fun h => hne (hstart.trans h.symm)
      simp [elapsedBy, hstart, hstop, timerStart, timerStop]
    · next hstart =>
      have hstop := he.resolve_left hstart
      have hrun : c.status = timerStart := hc.resolve_right fun h => hne (hstop.trans h.symm)
      simp [elapsedBy, hstop, hrun, timerStart, timerStop]

theorem elapsedBy_add (c : Clock) (time delta : Int) :
    elapsedBy c (time + delta) = elapsedBy c time + if c.status = timerStart then delta else 0 := by
  unfold elapsedBy
  split <;> omega

theorem status_foldl (l : List Event) (c : Clock) :
    (l.foldl Clock.event c).status = l.foldl (fun _ e => e.action) c.status := by
  induction l generalizing c with
  | nil => rfl
  | cons e l ih => rw [List.foldl_cons, List.foldl_cons, ih, status_event]

theorem isStartStop_foldl (hc : IsStartStop c.status) (hl : ∀ e ∈ l, IsStartStop e.action) :
    IsStartStop (l.foldl Clock.event c).status := by
  induction l generalizing c with
  | nil => exact hc
  | cons e l ih =>
    rw [List.foldl_cons]
    apply ih
    · rw [status_event]
      exact hl e (.head l)
    · exact fun e' he' => hl e' (.tail e he')

theorem elapsedBy_foldl_at (hc : IsStartStop c.status) (hl : ∀ e ∈ l, IsStartStop e.action)
    (htime : ∀ e ∈ l, e.time = time) : elapsedBy (l.foldl Clock.event c) time = elapsedBy c time := by
  induction l generalizing c with
  | nil => rfl
  | cons e l ih =>
    have he := hl e (.head l)
    have hstep := elapsedBy_event hc he
    rw [htime e (.head l)] at hstep
    rw [List.foldl_cons, ih (status_event c e ▸ he) (fun e' h => hl e' (.tail e h)) fun e' h => htime e' (.tail e h),
      hstep]

end

variable {time : Int}

section

variable (t : TimerSupportModule) (groupId : Nat) {a b : Int}

def initial : Clock := { elapsed := 0, lastStart := 0, status := timerStop }

def clockAt (time : Int) : Clock := (t.eventsUntil groupId time).foldl Clock.event initial

def statusAt (time : Int) : Nat := (t.eventsUntil groupId time).foldl (fun _ e => e.action) timerStop

def elapsedAt (time : Int) : Int := elapsedBy (clockAt t groupId time) time

variable {t groupId}

theorem status_clockAt (time : Int) : (clockAt t groupId time).status = statusAt t groupId time := status_foldl _ _

def moment (now time : Int) : Int := if time = 0 then now else time

theorem moment_moment (now time : Int) : moment now (moment now time) = moment now time := by
  unfold moment
  by_cases hzero : time = 0
  · rw [if_pos hzero, ite_self]
  · rw [if_neg hzero, if_neg hzero]

theorem contestTime_moment (now time : Int) :
    t.contestTime now groupId time = min (elapsedAt t groupId (moment now time)) t.duration := by
  show (if elapsedAt t groupId (moment now time) > t.duration then t.duration
    else elapsedAt t groupId (moment now time)) = _
  split
  · next hover => exact (min_eq_right hover.le).symm
  · next hunder => exact (min_eq_left (Int.not_lt.mp hunder)).symm

theorem contestTime_eq (h : time ≠ 0) (now : Int) :
    t.contestTime now groupId time = min (elapsedAt t groupId time) t.duration := by
  rw [contestTime_moment, moment, if_neg h]

/-- The status, stopped once the duration is over. -/
def limitedStatus (t : TimerSupportModule) (groupId : Nat) (time : Int) : Nat :=
  if t.duration ≤ elapsedAt t groupId time then timerStop else statusAt t groupId time

theorem contestStatus_moment (now time : Int) :
    t.contestStatus now groupId time = limitedStatus t groupId (moment now time) := by
  show (if t.contestTime now groupId (moment now time) ≥ t.duration then timerStop
    else statusAt t groupId (moment now time)) = _
  rw [contestTime_moment, moment_moment, limitedStatus]
  have hiff : min (elapsedAt t groupId (moment now time)) t.duration ≥ t.duration ↔
      t.duration ≤ elapsedAt t groupId (moment now time) := by omega
  simp only [hiff]

theorem contestStatus_eq (h : time ≠ 0) (now : Int) :
    t.contestStatus now groupId time = limitedStatus t groupId time := by
  rw [contestStatus_moment, moment, if_neg h]

def between (t : TimerSupportModule) (groupId : Nat) (a b : Int) : List Event :=
  (t.evlist.filter fun e => e.concerns groupId).filter fun e => a < e.time ∧ e.time ≤ b

theorem mem_between :
    e ∈ between t groupId a b ↔ e ∈ t.evlist ∧ e.concerns groupId = true ∧ a < e.time ∧ e.time ≤ b := by
  rw [between, List.mem_filter, List.mem_filter, and_assoc, decide_eq_true_eq]

theorem eventsUntil_eq_filter (hsorted : t.evlist.Pairwise fun a b => a.time ≤ b.time) (time : Int) :
    t.eventsUntil groupId time = (t.evlist.filter fun e => e.concerns groupId).filter fun e => e.time ≤ time := by
  unfold TimerSupportModule.eventsUntil
  rw [StableSort.takeWhile_eq_filter, List.filter_filter, List.filter_filter]
  · simp only [Bool.and_comm]
  · apply hsorted.imp
    intro x y hxy hy
    exact decide_eq_true (hxy.trans (of_decide_eq_true hy))

variable (h : Ordered t.evlist)

include h

theorem eventsUntil_eq (time : Int) :
    t.eventsUntil groupId time = (t.evlist.filter fun e => e.concerns groupId).filter fun e => e.time ≤ time :=
  eventsUntil_eq_filter h.sorted time

theorem eventsUntil_append (hab : a ≤ b) :
    t.eventsUntil groupId b = t.eventsUntil groupId a ++ between t groupId a b := by
  have hsorted : (t.evlist.filter fun e => e.concerns groupId).Pairwise
      fun x y => decide (y.time ≤ a) = true → decide (x.time ≤ a) = true := by
    apply (h.sorted.filter _).imp
    intro x y hxy hy
    exact decide_eq_true (hxy.trans (of_decide_eq_true hy))
  rw [eventsUntil_eq h, eventsUntil_eq h, between,
    StableSort.filter_eq_append hsorted fun x hx => decide_eq_true ((of_decide_eq_true hx).trans hab)]
  congr 2
  funext e
  rw [Bool.eq_iff_iff]
  simp only [Bool.and_eq_true, Bool.not_eq_true', decide_eq_true_eq, decide_eq_false_iff_not]
  omega

theorem clockAt_append (hab : a ≤ b) :
    clockAt t groupId b = (between t groupId a b).foldl Clock.event (clockAt t groupId a) := by
  rw [clockAt, eventsUntil_append h hab, List.foldl_append]
  rfl

theorem isStartStop_clockAt (time : Int) : IsStartStop (clockAt t groupId time).status := by
  apply isStartStop_foldl (.inr rfl)
  intro e he
  rw [eventsUntil_eq h] at he
  exact h.actions e (List.mem_filter.mp (List.mem_filter.mp he).1).1

theorem statusAt_of_between_eq_nil (hab : a ≤ b) (hnil : between t groupId a b = []) :
    statusAt t groupId b = statusAt t groupId a := by
  rw [statusAt, eventsUntil_append h hab, hnil, List.append_nil]
  rfl

/-- The contest time is the number of seconds in which the contest ran. -/
theorem elapsedAt_succ (time : Int) :
    elapsedAt t groupId (time + 1) =
      elapsedAt t groupId time + if statusAt t groupId time = timerStart then 1 else 0 := by
  have hat : ∀ e ∈ between t groupId time (time + 1), e.time = time + 1 := by
    intro e he
    obtain ⟨-, -, hlow, hhigh⟩ := mem_between.mp he
    omega
  have hactions : ∀ e ∈ between t groupId time (time + 1), IsStartStop e.action :=
    fun e he => h.actions e (mem_between.mp he).1
  rw [elapsedAt, clockAt_append h (by omega : time ≤ time + 1),
    elapsedBy_foldl_at (isStartStop_clockAt h time) hactions hat, elapsedBy_add, status_clockAt]
  rfl

theorem elapsedAt_of_between_eq_nil (hab : a ≤ b) (hnil : between t groupId a b = []) :
    elapsedAt t groupId b = elapsedAt t groupId a + if statusAt t groupId a = timerStart then b - a else 0 := by
  have hclock : clockAt t groupId b = clockAt t groupId a := by
    rw [clockAt_append h hab, hnil]
    rfl
  have hsum : b = a + (b - a) := by omega
  rw [elapsedAt, hclock, hsum, elapsedBy_add, status_clockAt, ← hsum]
  rfl

theorem elapsedAt_bounds (hab : a ≤ b) :
    elapsedAt t groupId a ≤ elapsedAt t groupId b ∧ elapsedAt t groupId b ≤ elapsedAt t groupId a + (b - a) := by
  obtain ⟨n, rfl⟩ : ∃ n : Nat, b = a + n := ⟨(b - a).toNat, by omega⟩
  induction n with
  | zero => simp
  | succ n ih =>
    obtain ⟨hlow, hhigh⟩ := ih (by omega)
    have hnext : a + ((n + 1 : Nat) : Int) = a + n + 1 := by omega
    rw [hnext, elapsedAt_succ h]
    split <;> omega

theorem elapsedAt_le_elapsedAt (hab : a ≤ b) : elapsedAt t groupId a ≤ elapsedAt t groupId b :=
  (elapsedAt_bounds h hab).1

end

section

variable {t : TimerSupportModule} {groupId : Nat} (h : Chronicle t.evlist)

include h

theorem eventsUntil_of_neg (htime : time < 0) : t.eventsUntil groupId time = [] := by
  rw [eventsUntil_eq h.ordered, List.filter_eq_nil_iff]
  intro e he hle
  have hnonneg := h.times e (List.mem_filter.mp he).1
  have hle := of_decide_eq_true hle
  omega

theorem elapsedAt_of_neg (htime : time < 0) : elapsedAt t groupId time = 0 := by
  rw [elapsedAt, clockAt, eventsUntil_of_neg h htime]
  rfl

theorem elapsedAt_zero : elapsedAt t groupId 0 = 0 := by
  have hbefore : elapsedAt t groupId (-1) = 0 := elapsedAt_of_neg h (by decide)
  have hstopped : statusAt t groupId (-1) = timerStop := by
    rw [statusAt, eventsUntil_of_neg h (by decide)]
    rfl
  have hstep : elapsedAt t groupId (-1 + 1) = _ := elapsedAt_succ h.ordered (-1)
  rw [hbefore, hstopped] at hstep
  exact hstep

theorem elapsedAt_le (n : Nat) : elapsedAt t groupId n ≤ n := by
  have hle : elapsedAt t groupId n ≤ elapsedAt t groupId 0 + (n - 0) :=
    (elapsedAt_bounds h.ordered (Int.natCast_nonneg n)).2
  rw [elapsedAt_zero h] at hle
  omega

end

section

def after (groupId : Nat) (c : Clock) (l : List Event) (time : Int) : Clock :=
  ((l.filter fun e => e.concerns groupId).filter fun e => e.time ≤ time).foldl Clock.event c

variable {groupId : Nat} {c : Clock} {e : Event} {l : List Event} {time : Int}

theorem idle_of_not (h : ¬(e.concerns groupId && decide (e.action ≠ c.status)) = true) :
    e.concerns groupId = false ∨ e.action = c.status := by
  cases hconcerns : e.concerns groupId with
  | false => exact .inl rfl
  | true => exact .inr (by simpa [hconcerns] using h)

theorem after_cons_of_idle (h : e.concerns groupId = false ∨ e.action = c.status) :
    after groupId c (e :: l) time = after groupId c l time := by
  unfold after
  cases hconcerns : e.concerns groupId with
  | false => simp [hconcerns]
  | true =>
    have hsame : c.event e = c := by
      rw [Clock.event, if_pos (h.resolve_left (by simp [hconcerns]))]
    have hkept : ((e :: l).filter fun e => e.concerns groupId) = e :: l.filter fun e => e.concerns groupId :=
      List.filter_cons_of_pos hconcerns
    rw [hkept, List.filter_cons]
    split
    · rw [List.foldl_cons, hsame]
    · rfl

theorem after_cons_of_le (hconcerns : e.concerns groupId = true) (hle : e.time ≤ time) :
    after groupId c (e :: l) time = after groupId (c.event e) l time := by
  unfold after
  have hkept : ((e :: l).filter fun e => e.concerns groupId) = e :: l.filter fun e => e.concerns groupId :=
    List.filter_cons_of_pos hconcerns
  rw [hkept, List.filter_cons, if_pos (decide_eq_true hle), List.foldl_cons]

theorem after_of_lt (h : ∀ e ∈ l, time < e.time) : after groupId c l time = c := by
  unfold after
  have hnil : ((l.filter fun e => e.concerns groupId).filter fun e => e.time ≤ time) = [] := by
    apply List.filter_eq_nil_iff.mpr
    intro e he hle
    have hlt := h e (List.mem_filter.mp he).1
    have hle := of_decide_eq_true hle
    omega
  rw [hnil]
  rfl

theorem after_cons_of_lt (hfirst : ∀ e' ∈ l, e.time ≤ e'.time) (hlt : time < e.time) :
    after groupId c (e :: l) time = c := by
  apply after_of_lt
  intro e' he'
  cases he' with
  | head => exact hlt
  | tail _ he' => exact Int.lt_of_lt_of_le hlt (hfirst e' he')

/-- The contest runs at that moment, and its duration is over. -/
def RunsOut (groupId : Nat) (duration : Int) (c : Clock) (l : List Event) (time : Int) : Prop :=
  (after groupId c l time).status = timerStart ∧ elapsedBy (after groupId c l time) time = duration

def Forward (c : Clock) (l : List Event) : Prop :=
  (∀ e ∈ l, c.lastStart ≤ e.time) ∨ c.lastStart = 0 ∧ c.elapsed ≤ 0

theorem Forward.tail (h : Forward c (e :: l)) : Forward c l := by
  rcases h with hlater | hfresh
  · exact .inl fun e' he' => hlater e' (.tail e he')
  · exact .inr hfresh

theorem Forward.event (h : Forward c (e :: l)) (hfirst : ∀ e' ∈ l, e.time ≤ e'.time) : Forward (c.event e) l := by
  unfold Clock.event
  split
  · exact h.tail
  · split
    · exact .inl hfirst
    · rcases h with hlater | ⟨hzero, hcount⟩
      · exact .inl fun e' he' => hlater e' (.tail e he')
      · obtain hneg | hpos := Int.lt_or_le e.time 0
        · exact .inr ⟨hzero, by dsimp only; omega⟩
        · refine .inl fun e' he' => ?_
          have hle := hfirst e' he'
          dsimp only
          omega

theorem elapsed_le_elapsedBy_after (hsorted : l.Pairwise fun a b => a.time ≤ b.time)
    (hlater : ∀ e ∈ l, c.lastStart ≤ e.time) (hle : c.lastStart ≤ time) :
    c.elapsed ≤ elapsedBy (after groupId c l time) time := by
  induction l generalizing c with
  | nil =>
    show c.elapsed ≤ elapsedBy c time
    unfold elapsedBy
    split <;> omega
  | cons e l ih =>
    obtain ⟨hfirst, hsorted⟩ := List.pairwise_cons.mp hsorted
    have hhead := hlater e (.head l)
    have htail : ∀ e' ∈ l, c.lastStart ≤ e'.time := fun e' he' => hlater e' (.tail e he')
    by_cases hidle : e.concerns groupId = false ∨ e.action = c.status
    · rw [after_cons_of_idle hidle]
      exact ih hsorted htail hle
    · obtain ⟨hconcerns, hne⟩ := not_or.mp hidle
      obtain hlt | hreached := Int.lt_or_le time e.time
      · rw [after_cons_of_lt hfirst hlt]
        unfold elapsedBy
        split <;> omega
      · rw [after_cons_of_le (Bool.eq_true_of_not_eq_false hconcerns) hreached, Clock.event, if_neg hne]
        split
        · exact ih hsorted hfirst hreached
        · have hcount :=
            ih (c := { c with status := e.action, elapsed := c.elapsed + (e.time - c.lastStart) }) hsorted htail hle
          dsimp only at hcount
          omega

/-- The walk returns the moment at which the contest runs and the duration is over, whatever the actions are. -/
theorem contestEndTimeFrom_of_runsOut {duration : Int} (hsorted : l.Pairwise fun a b => a.time ≤ b.time)
    (hforward : Forward c l) (hduration : 0 ≤ duration) (hout : RunsOut groupId duration c l time) :
    TimerSupportModule.contestEndTimeFrom groupId l c.status (duration - c.elapsed) c.lastStart = time := by
  induction l generalizing c with
  | nil =>
    obtain ⟨hruns, hspent⟩ := hout
    have hruns : c.status = timerStart := hruns
    have hspent : elapsedBy c time = duration := hspent
    rw [elapsedBy, if_pos hruns] at hspent
    rw [TimerSupportModule.contestEndTimeFrom, if_pos hruns]
    omega
  | cons e l ih =>
    obtain ⟨hfirst, hsorted⟩ := List.pairwise_cons.mp hsorted
    have hnext := hforward.event hfirst
    rw [TimerSupportModule.contestEndTimeFrom]
    split
    · next heffect =>
      obtain ⟨hconcerns, hne⟩ := Bool.and_eq_true_iff.mp heffect
      have hne : e.action ≠ c.status := of_decide_eq_true hne
      obtain hlt | hreached := Int.lt_or_le time e.time
      · -- The contest runs at the moment, so the event that comes later and changes the status is no start.
        rw [RunsOut, after_cons_of_lt hfirst hlt] at hout
        obtain ⟨hruns, hspent⟩ := hout
        rw [elapsedBy, if_pos hruns] at hspent
        rw [if_neg (fun hstart => hne (hstart.trans hruns.symm)), if_pos (by omega)]
        omega
      · rw [RunsOut, after_cons_of_le hconcerns hreached] at hout
        have hfound := ih hsorted hnext hout
        rw [Clock.event, if_neg hne] at hfound hnext hout
        split
        · next hstart =>
          rw [if_pos hstart] at hfound
          exact hfound
        · next hstart =>
          rw [if_neg hstart] at hfound hnext hout
          -- A count beyond the duration would stay beyond it.
          have hwithin : c.elapsed + (e.time - c.lastStart) ≤ duration := by
            by_contra hbeyond
            have hlater := hnext.resolve_right fun hfresh => hbeyond (hfresh.2.trans hduration)
            have hle : c.lastStart ≤ time := by
              rcases hforward with hlater | ⟨hzero, hcount⟩
              · exact (hlater e (.head l)).trans hreached
              · omega
            exact hbeyond ((elapsed_le_elapsedBy_after hsorted hlater hle).trans_eq hout.2)
          have hleft : duration - c.elapsed - (e.time - c.lastStart) =
              duration - (c.elapsed + (e.time - c.lastStart)) := by
            omega
          rw [if_neg (by omega), hleft]
          exact hfound
    · next hidle =>
      rw [RunsOut, after_cons_of_idle (idle_of_not hidle)] at hout
      exact ih hsorted hforward.tail hout

def Found (groupId : Nat) (duration : Int) (c : Clock) (l : List Event) (start r : Int) : Prop :=
  start ≤ r ∧ RunsOut groupId duration c l r ∨ r = 0 ∧ ∀ time, start ≤ time → ¬RunsOut groupId duration c l time

variable {duration start : Int}

theorem Found.cons {r : Int} (hconcerns : e.concerns groupId = true) (hfirst : ∀ e' ∈ l, e.time ≤ e'.time)
    (hstart : start ≤ e.time) (h : Found groupId duration (c.event e) l e.time r)
    (hgap : ∀ time, start ≤ time → time < e.time → ¬(c.status = timerStart ∧ elapsedBy c time = duration)) :
    Found groupId duration c (e :: l) start r := by
  rcases h with ⟨hle, hout⟩ | ⟨hzero, hnone⟩
  · refine .inl ⟨hstart.trans hle, ?_⟩
    rw [RunsOut, after_cons_of_le hconcerns hle]
    exact hout
  · refine .inr ⟨hzero, fun time htime hout => ?_⟩
    by_cases hlt : time < e.time
    · rw [RunsOut, after_cons_of_lt hfirst hlt] at hout
      exact hgap time htime hlt hout
    · have hle := Int.not_lt.mp hlt
      rw [RunsOut, after_cons_of_le hconcerns hle] at hout
      exact hnone time hle hout

/-- The walk finds the moment, if there is one from the last change of the clock on. -/
theorem found_contestEndTimeFrom (hsorted : l.Pairwise fun a b => a.time ≤ b.time)
    (hactions : ∀ e ∈ l, IsStartStop e.action) (hc : IsStartStop c.status) (hstart : ∀ e ∈ l, start ≤ e.time)
    (hroom : elapsedBy c start ≤ duration) : Found groupId duration c l start
      (TimerSupportModule.contestEndTimeFrom groupId l c.status (duration - c.elapsed) c.lastStart) := by
  induction l generalizing c start with
  | nil =>
    rw [TimerSupportModule.contestEndTimeFrom]
    split
    · next hrun =>
      rw [elapsedBy, if_pos hrun] at hroom
      refine .inl ⟨by omega, hrun, ?_⟩
      show elapsedBy c _ = duration
      rw [elapsedBy, if_pos hrun]
      omega
    · next hstop => exact .inr ⟨rfl, fun _ _ hout => hstop hout.1⟩
  | cons e l ih =>
    obtain ⟨hfirst, hsorted⟩ := List.pairwise_cons.mp hsorted
    have he := hactions e (.head l)
    have hrest : ∀ e ∈ l, IsStartStop e.action := fun e' h => hactions e' (.tail e h)
    rw [TimerSupportModule.contestEndTimeFrom]
    split
    · next heffect =>
      obtain ⟨hconcerns, hne⟩ := Bool.and_eq_true_iff.mp heffect
      have hne : e.action ≠ c.status := of_decide_eq_true hne
      have hat := elapsedBy_event hc he
      have hnext := ih hsorted hrest (status_event c e ▸ he) hfirst
      split
      · next hrun =>
        have hstop : c.status = timerStop := hc.resolve_left fun h => hne (hrun.trans h.symm)
        have hstill : ∀ time, elapsedBy c time = c.elapsed :=
          fun time => by simp [elapsedBy, hstop, timerStart, timerStop]
        have hevent : c.event e = { c with status := e.action, lastStart := e.time } := by
          rw [Clock.event, if_neg hne, if_pos hrun]
        rw [hstill] at hat hroom
        have hnext := hnext (hat ▸ hroom)
        rw [hevent] at hnext
        refine Found.cons hconcerns hfirst (hstart e (.head l)) (hevent ▸ hnext) ?_
        intro time _ _ hout
        rw [hstop] at hout
        cases hout.1
      · next hnorun =>
        have hrun : c.status = timerStart := hc.resolve_right fun h => hne ((he.resolve_left hnorun).trans h.symm)
        have hrunning : ∀ time, elapsedBy c time = c.elapsed + (time - c.lastStart) :=
          fun time => by simp [elapsedBy, hrun]
        rw [hrunning] at hat hroom
        split
        · next hcross =>
          refine .inl ⟨by omega, ?_⟩
          rw [RunsOut, after_cons_of_lt hfirst (by omega), hrunning]
          exact ⟨hrun, by omega⟩
        · next hwithin =>
          have hevent : c.event e = { c with status := e.action, elapsed := c.elapsed + (e.time - c.lastStart) } := by
            rw [Clock.event, if_neg hne, if_neg hnorun]
          have hleft : duration - c.elapsed - (e.time - c.lastStart) =
              duration - (c.elapsed + (e.time - c.lastStart)) := by
            omega
          have hnext := hnext (by omega)
          rw [hevent] at hnext
          rw [hleft]
          refine Found.cons hconcerns hfirst (hstart e (.head l)) (hevent ▸ hnext) ?_
          intro time _ hlt hout
          rw [hrunning] at hout
          omega
    · next hidle =>
      have hkept := ih hsorted hrest hc (fun e' h => hstart e' (.tail e h)) hroom
      simpa only [Found, RunsOut, after_cons_of_idle (idle_of_not hidle)] using hkept

end

section

variable {t : TimerSupportModule} {groupId : Nat}

theorem after_initial (hsorted : t.evlist.Pairwise fun a b => a.time ≤ b.time) (time : Int) :
    after groupId initial t.evlist time = clockAt t groupId time := by
  rw [clockAt, eventsUntil_eq_filter hsorted]
  rfl

theorem limitedStatus_of_duration_neg (hsorted : t.evlist.Pairwise fun a b => a.time ≤ b.time)
    (htimes : ∀ e ∈ t.evlist, 0 ≤ e.time) (hduration : t.duration < 0) {time : Int} (htime : 0 ≤ time) :
    limitedStatus t groupId time = timerStop := by
  have hcount : initial.elapsed ≤ elapsedBy (after groupId initial t.evlist time) time :=
    elapsed_le_elapsedBy_after hsorted htimes htime
  rw [after_initial hsorted] at hcount
  exact if_pos (hduration.le.trans hcount)

/-- The contest of the group ends at that moment because its duration is over. -/
structure Ends (t : TimerSupportModule) (groupId : Nat) (time : Int) : Prop where
  nonneg : 0 ≤ time
  runs : statusAt t groupId time = timerStart
  spent : elapsedAt t groupId time = t.duration

variable (h : Chronicle t.evlist)

include h

theorem Ends.unique {a b : Int} (ha : Ends t groupId a) (hb : Ends t groupId b) : a = b := by
  have hnot : ∀ {a b : Int}, Ends t groupId a → Ends t groupId b → ¬a < b := by
    intro a b ha hb hlt
    have hle : elapsedAt t groupId (a + 1) ≤ elapsedAt t groupId b := elapsedAt_le_elapsedAt h.ordered (by omega)
    rw [elapsedAt_succ h.ordered, if_pos ha.runs, ha.spent, hb.spent] at hle
    omega
  have hab := hnot ha hb
  have hba := hnot hb ha
  omega

theorem contestEndTime_spec (hduration : 0 ≤ t.duration) :
    Ends t groupId (t.contestEndTime groupId) ∨ t.contestEndTime groupId = 0 ∧ ∀ time, ¬Ends t groupId time := by
  have hfound : Found groupId t.duration initial t.evlist 0 (t.contestEndTime groupId) := by
    have hroom : elapsedBy initial 0 ≤ t.duration := hduration
    have hfound : Found groupId t.duration initial t.evlist 0
        (TimerSupportModule.contestEndTimeFrom groupId t.evlist timerStop (t.duration - 0) 0) :=
      found_contestEndTimeFrom h.sorted h.actions (.inr rfl) h.times hroom
    rwa [Int.sub_zero] at hfound
  have hends : ∀ time, RunsOut groupId t.duration initial t.evlist time ↔
      statusAt t groupId time = timerStart ∧ elapsedAt t groupId time = t.duration := by
    intro time
    rw [RunsOut, after_initial h.sorted, status_clockAt]
    rfl
  rcases hfound with ⟨hle, hout⟩ | ⟨hzero, hnone⟩
  · obtain ⟨hruns, hover⟩ := (hends _).mp hout
    exact .inl ⟨hle, hruns, hover⟩
  · exact .inr ⟨hzero, fun time hend => hnone time hend.nonneg ((hends time).mpr ⟨hend.runs, hend.spent⟩)⟩

theorem contestEndTime_of_ends (hduration : 0 ≤ t.duration) (hend : Ends t groupId time) :
    t.contestEndTime groupId = time := by
  rcases contestEndTime_spec h hduration with hfound | ⟨-, hnone⟩
  · exact Ends.unique h hfound hend
  · exact absurd hend (hnone time)

/-- The status changes only at an event or at the end. -/
theorem limitedStatus_of_quiet (hduration : 0 ≤ t.duration) {a b : Int} (ha : 0 ≤ a) (hab : a ≤ b)
    (hevents : ∀ e ∈ t.evlist, e.concerns groupId = true → ¬(a < e.time ∧ e.time ≤ b))
    (hend : ¬(a < t.contestEndTime groupId ∧ t.contestEndTime groupId ≤ b)) :
    limitedStatus t groupId b = limitedStatus t groupId a := by
  have hnil : ∀ {c : Int}, c ≤ b → between t groupId a c = [] := by
    intro c hc
    apply List.eq_nil_iff_forall_not_mem.mpr
    intro e he
    obtain ⟨hmem, hconcerns, hlow, hhigh⟩ := mem_between.mp he
    exact hevents e hmem hconcerns ⟨hlow, hhigh.trans hc⟩
  have hstatus := statusAt_of_between_eq_nil h.ordered hab (hnil (Int.le_refl b))
  have helapsed := elapsedAt_of_between_eq_nil h.ordered hab (hnil (Int.le_refl b))
  unfold limitedStatus
  rw [hstatus]
  by_cases hover : t.duration ≤ elapsedAt t groupId a
  · rw [if_pos hover, if_pos (hover.trans (elapsedAt_le_elapsedAt h.ordered hab))]
  · by_cases hruns : statusAt t groupId a = timerStart
    · -- If the duration were over in between, the contest would end at that moment.
      have hwithin : ¬t.duration ≤ elapsedAt t groupId b := by
        intro hover'
        rw [if_pos hruns] at helapsed
        have hends : Ends t groupId (a + (t.duration - elapsedAt t groupId a)) := by
          have hle : a + (t.duration - elapsedAt t groupId a) ≤ b := by omega
          have hle' : a ≤ a + (t.duration - elapsedAt t groupId a) := by omega
          refine ⟨by omega, (statusAt_of_between_eq_nil h.ordered hle' (hnil hle)).trans hruns, ?_⟩
          rw [elapsedAt_of_between_eq_nil h.ordered hle' (hnil hle), if_pos hruns]
          omega
        rw [contestEndTime_of_ends h hduration hends] at hend
        omega
      rw [if_neg hover, if_neg hwithin]
    · rw [if_neg hruns, Int.add_zero] at helapsed
      rw [helapsed]

end

section

variable {t : TimerSupportModule} {groupId : Nat}

theorem foldl_action (l : List Event) (status : Nat) :
    l.foldl (fun _ e => e.action) status = (l.getLast?.map Event.action).getD status := by
  induction l using List.reverseRecOn with
  | nil => rfl
  | append_singleton l e ih => simp

variable (h : Chronicle t.evlist)

include h

theorem mem_eventsUntil :
    e ∈ t.eventsUntil groupId time ↔ e ∈ t.evlist ∧ e.concerns groupId = true ∧ e.time ≤ time := by
  rw [eventsUntil_eq h.ordered, List.mem_filter, List.mem_filter, and_assoc, decide_eq_true_eq]

theorem statusAt_cases (time : Int) :
    (statusAt t groupId time = timerStop ∧ t.eventsUntil groupId time = []) ∨
      ∃ e ∈ t.eventsUntil groupId time, statusAt t groupId time = e.action ∧
        ∀ e' ∈ t.eventsUntil groupId time, e'.time ≤ e.time := by
  have hsorted : (t.eventsUntil groupId time).Pairwise fun a b => a.time ≤ b.time := by
    rw [eventsUntil_eq h.ordered]
    exact (h.sorted.filter _).filter _
  rw [statusAt, foldl_action]
  rcases List.eq_nil_or_concat (t.eventsUntil groupId time) with hnil | ⟨l, e, hconcat⟩
  · rw [hnil]
    exact .inl ⟨rfl, rfl⟩
  · rw [List.concat_eq_append] at hconcat
    rw [hconcat] at hsorted ⊢
    refine .inr ⟨e, by simp, by simp, fun e' he' => ?_⟩
    rcases List.mem_append.mp he' with he' | he'
    · exact (List.pairwise_append.mp hsorted).2.2 e' he' e (by simp)
    · rw [List.mem_singleton.mp he']

end

section

variable {t t' : TimerSupportModule} {groupId : Nat} (h : Chronicle t.evlist) (h' : Chronicle t'.evlist)
  (hstatus : ∀ time, 0 ≤ time → statusAt t' groupId time = statusAt t groupId time)

include h h' hstatus

theorem elapsedAt_congr (time : Int) : elapsedAt t' groupId time = elapsedAt t groupId time := by
  have hnat : ∀ n : Nat, elapsedAt t' groupId n = elapsedAt t groupId n := by
    intro n
    induction n with
    | zero =>
      exact (elapsedAt_zero h').trans (elapsedAt_zero h).symm
    | succ n ih =>
      push_cast
      rw [elapsedAt_succ h'.ordered, elapsedAt_succ h.ordered, ih, hstatus n (by omega)]
  by_cases hneg : time < 0
  · rw [elapsedAt_of_neg h' hneg, elapsedAt_of_neg h hneg]
  · have htime : time = (time.toNat : Int) := by omega
    rw [htime]
    exact hnat _

theorem contestTime_congr (hduration : t'.duration = t.duration) (htime : 0 < time) (now : Int) :
    t'.contestTime now groupId time = t.contestTime now groupId time := by
  rw [contestTime_eq (by omega), contestTime_eq (by omega), elapsedAt_congr h h' hstatus, hduration]

theorem contestStatus_congr (hduration : t'.duration = t.duration) (htime : 0 < time) (now : Int) :
    t'.contestStatus now groupId time = t.contestStatus now groupId time := by
  rw [contestStatus_eq (by omega), contestStatus_eq (by omega), limitedStatus, limitedStatus,
    elapsedAt_congr h h' hstatus, hduration, hstatus time (by omega)]

theorem contestEndTime_congr (hduration : t'.duration = t.duration) (hnonneg : 0 ≤ t.duration) :
    t'.contestEndTime groupId = t.contestEndTime groupId := by
  have hends : ∀ time, Ends t' groupId time → Ends t groupId time := by
    intro time hend
    refine ⟨hend.nonneg, hstatus time hend.nonneg ▸ hend.runs, ?_⟩
    rw [← elapsedAt_congr h h' hstatus, hend.spent, hduration]
  have hends' : ∀ time, Ends t groupId time → Ends t' groupId time := by
    intro time hend
    refine ⟨hend.nonneg, (hstatus time hend.nonneg).trans hend.runs, ?_⟩
    rw [elapsedAt_congr h h' hstatus, hend.spent, hduration]
  rcases contestEndTime_spec h hnonneg with hfound | ⟨hzero, hnone⟩
  · exact contestEndTime_of_ends h' (hduration ▸ hnonneg) (hends' _ hfound)
  · rcases contestEndTime_spec h' (hduration ▸ hnonneg) with hfound | ⟨hzero', -⟩
    · exact absurd (hends _ hfound) (hnone _)
    · rw [hzero, hzero']

end

section

variable {t t' : TimerSupportModule} {groupId : Nat}

theorem statusAt_of_same_events (h : Chronicle t.evlist) (h' : Chronicle t'.evlist)
    (hmem : ∀ e, e ∈ t'.evlist ↔ e ∈ t.evlist)
    (hfree : ∀ a ∈ t.evlist, ∀ b ∈ t.evlist, a.time = b.time → a.concerns groupId = true → b.concerns groupId = true →
      a.action = b.action) (time : Int) : statusAt t' groupId time = statusAt t groupId time := by
  have hmem : ∀ e, e ∈ t'.eventsUntil groupId time ↔ e ∈ t.eventsUntil groupId time := by
    intro e
    rw [mem_eventsUntil h', mem_eventsUntil h, hmem]
  rcases statusAt_cases h time with ⟨hstop, hnil⟩ | ⟨e, he, haction, hlast⟩
  · have hnil' : t'.eventsUntil groupId time = [] := by
      apply List.eq_nil_iff_forall_not_mem.mpr
      intro e he
      rw [hmem, hnil] at he
      cases he
    rw [hstop, statusAt, hnil']
    rfl
  · rcases statusAt_cases h' time with ⟨-, hnil'⟩ | ⟨e', he', haction', hlast'⟩
    · rw [← hmem, hnil'] at he
      cases he
    · have hle := hlast e' ((hmem e').mp he')
      have hle' := hlast' e ((hmem e).mpr he)
      obtain ⟨he, hconcerns, -⟩ := (mem_eventsUntil h).mp he
      obtain ⟨he', hconcerns', -⟩ := (mem_eventsUntil h).mp ((hmem e').mp he')
      rw [haction, haction']
      exact hfree e' he' e he (Int.le_antisymm hle hle') hconcerns' hconcerns

end

end Abacus.Support.Timeline
