import Mathlib.Data.Set.Card
import Mathlib.Data.Int.Interval
import Abacus.Support.Timeline

/-! # The contest clock and its purpose

The contest time is the number of seconds in which the contest ran, and the contest ends at the first moment at which
it runs and this number is the duration.
-/

namespace Abacus.Support.Clock

open Timer Timeline

variable (t : TimerSupportModule) (groupId : Nat)

def latest (time : Int) : Option Event :=
  ((t.evlist.filter fun e => e.concerns groupId).filter fun e => e.time ≤ time).getLast?

def Running (time : Int) : Prop := ∃ e ∈ latest t groupId time, e.action = timerStart

def runningBefore (time : Int) : Set Int := {s | s < time ∧ Running t groupId s}

variable {t groupId} {time : Int}

section

variable (h : Ordered t.evlist)

include h

theorem running_iff (time : Int) : Running t groupId time ↔ statusAt t groupId time = timerStart := by
  rw [Running, latest, ← eventsUntil_eq h, statusAt, foldl_action]
  cases (t.eventsUntil groupId time).getLast? with
  | none => exact iff_of_false (by simp) (by decide)
  | some e =>
    constructor
    · rintro ⟨e', he', haction⟩
      cases he'
      exact haction
    · intro haction
      exact ⟨e, rfl, haction⟩

omit h in
theorem exists_before (l : List Event) : ∃ start : Int, ∀ e ∈ l, start < e.time := by
  induction l with
  | nil => exact ⟨0, fun e he => absurd he List.not_mem_nil⟩
  | cons e l ih =>
    obtain ⟨start, hstart⟩ := ih
    refine ⟨min start (e.time - 1), fun e' he' => ?_⟩
    cases he' with
    | head => omega
    | tail _ he' =>
      have hlt := hstart e' he'
      omega

theorem eventsUntil_eq_nil (hbefore : ∀ e ∈ t.evlist, time < e.time) : t.eventsUntil groupId time = [] := by
  rw [eventsUntil_eq h, List.filter_eq_nil_iff]
  intro e he hle
  have hlt := hbefore e (List.mem_of_mem_filter he)
  have hle := of_decide_eq_true hle
  omega

theorem not_running (hbefore : ∀ e ∈ t.evlist, time < e.time) : ¬Running t groupId time := by
  rw [running_iff h, statusAt, eventsUntil_eq_nil h hbefore]
  decide

theorem runningBefore_eq_empty (hbefore : ∀ e ∈ t.evlist, time < e.time) : runningBefore t groupId time = ∅ := by
  apply Set.eq_empty_of_forall_notMem
  rintro s ⟨hlt, hruns⟩
  exact not_running h (fun e he => Int.lt_trans hlt (hbefore e he)) hruns

theorem finite_runningBefore (time : Int) : (runningBefore t groupId time).Finite := by
  obtain ⟨start, hstart⟩ := exists_before t.evlist
  apply (Set.finite_Ico start time).subset
  rintro s ⟨hlt, hruns⟩
  refine ⟨Int.not_lt.mp fun hs => ?_, hlt⟩
  exact not_running h (fun e he => Int.lt_trans hs (hstart e he)) hruns

theorem ncard_runningBefore_succ (time : Int) : ((runningBefore t groupId (time + 1)).ncard : Int) =
    (runningBefore t groupId time).ncard + if statusAt t groupId time = timerStart then 1 else 0 := by
  by_cases hruns : statusAt t groupId time = timerStart
  · have hinsert : runningBefore t groupId (time + 1) = insert time (runningBefore t groupId time) := by
      ext s
      constructor
      · rintro ⟨hlt, hs⟩
        obtain rfl | hne := eq_or_ne s time
        · exact .inl rfl
        · exact .inr ⟨by omega, hs⟩
      · rintro (rfl | ⟨hlt, hs⟩)
        · exact ⟨by omega, (running_iff h s).mpr hruns⟩
        · exact ⟨by omega, hs⟩
    have hnew : time ∉ runningBefore t groupId time := fun hmem => Int.lt_irrefl time hmem.1
    rw [hinsert, Set.ncard_insert_of_notMem hnew (finite_runningBefore h time), if_pos hruns]
    push_cast
    rfl
  · have hsame : runningBefore t groupId (time + 1) = runningBefore t groupId time := by
      ext s
      constructor
      · rintro ⟨hlt, hs⟩
        have hne : s ≠ time := by
          rintro rfl
          exact hruns ((running_iff h s).mp hs)
        exact ⟨by omega, hs⟩
      · rintro ⟨hlt, hs⟩
        exact ⟨by omega, hs⟩
    rw [hsame, if_neg hruns, Int.add_zero]

/-- The clock counts the seconds in which the contest ran. -/
theorem elapsedAt_eq_ncard (time : Int) : elapsedAt t groupId time = (runningBefore t groupId time).ncard := by
  obtain ⟨start, hstart⟩ := exists_before t.evlist
  -- From a moment before every event the induction goes up second by second.
  obtain ⟨base, n, hbase, htime⟩ : ∃ (base : Int) (n : Nat), (∀ e ∈ t.evlist, base < e.time) ∧ time = base + n := by
    refine ⟨min start time, (time - min start time).toNat, fun e he => ?_, by omega⟩
    exact Int.lt_of_le_of_lt (Int.min_le_left start time) (hstart e he)
  subst htime
  induction n with
  | zero =>
    simp only [Nat.cast_zero, Int.add_zero]
    rw [runningBefore_eq_empty h hbase, Set.ncard_empty, elapsedAt, clockAt, eventsUntil_eq_nil h hbase]
    rfl
  | succ n ih =>
    have hnext : base + ((n + 1 : Nat) : Int) = base + n + 1 := by omega
    rw [hnext, elapsedAt_succ h, ncard_runningBefore_succ h, ih]

end

/-- The contest time is the number of seconds in which the contest ran, up to the duration. It never goes back. -/
theorem contestTime_eq_ncard (t : TimerSupportModule) (h : Ordered t.evlist) (groupId : Nat) (now : Int) :
    (∀ time, 0 < time →
      t.contestTime now groupId time = min t.duration (runningBefore t groupId time).ncard) ∧
    ∀ t1 t2, 0 < t1 → t1 ≤ t2 → t.contestTime now groupId t1 ≤ t.contestTime now groupId t2 ∧
      t.contestTime now groupId t2 ≤ t.contestTime now groupId t1 + (t2 - t1) := by
  constructor
  · intro time htime
    rw [contestTime_eq htime.ne', elapsedAt_eq_ncard h, min_comm]
  · intro t1 t2 ht1 ht2
    obtain ⟨hmono, hadd⟩ : elapsedAt t groupId t1 ≤ elapsedAt t groupId t2 ∧
        elapsedAt t groupId t2 ≤ elapsedAt t groupId t1 + (t2 - t1) := elapsedAt_bounds h ht2
    rw [contestTime_eq (by omega : t1 ≠ 0), contestTime_eq (by omega : t2 ≠ 0)]
    omega

def overlapping : TimerSupportModule where
  evlist := [⟨10, 0, 1⟩, ⟨15, 1, 1⟩, ⟨20, 1, 2⟩, ⟨20, 1, 1⟩, ⟨30, 2, 2⟩, ⟨50, 1, 2⟩]
  duration := 100
  blinds := 10

theorem chronicle_overlapping : Chronicle overlapping.evlist where
  sorted := by decide
  times := by decide
  actions e he := (by decide : ∀ e ∈ overlapping.evlist, e.action = timerStart ∨ e.action = timerStop) e he

theorem contestTime_overlapping : Ordered overlapping.evlist ∧ overlapping.contestTime 0 1 60 = 40 ∧
    (runningBefore overlapping 1 60).ncard = 40 ∧
    overlapping.contestTime 0 1 60 ≤ overlapping.contestTime 0 1 45 + (60 - 45) := by
  have hspec := contestTime_eq_ncard overlapping chronicle_overlapping.ordered 1 0
  have hforty : overlapping.contestTime 0 1 60 = 40 := by decide
  have hcount := hspec.1 60 (by decide)
  rw [hforty] at hcount
  have hduration : overlapping.duration = 100 := rfl
  exact ⟨chronicle_overlapping.ordered, hforty, by omega, (hspec.2 45 60 (by decide) (by decide)).2⟩

section

variable (hsorted : t.evlist.Pairwise fun a b => a.time ≤ b.time) {time : Int} (hquiet : time ∉ t.allStartStopTimes)

include hsorted hquiet

theorem clockAt_sub_one : clockAt t groupId (time - 1) = clockAt t groupId time := by
  have hevents : t.eventsUntil groupId (time - 1) = t.eventsUntil groupId time := by
    rw [eventsUntil_eq_filter hsorted, eventsUntil_eq_filter hsorted]
    apply List.filter_congr
    intro e he
    have hne : e.time ≠ time := by
      rintro rfl
      exact hquiet (List.mem_map_of_mem (List.mem_of_mem_filter he))
    rw [decide_eq_decide]
    omega
  rw [clockAt, hevents]
  rfl

theorem runsOut_of_limitedStatus_ne (hne : limitedStatus t groupId (time - 1) ≠ limitedStatus t groupId time) :
    statusAt t groupId time = timerStart ∧ elapsedAt t groupId time = t.duration := by
  have hclock : clockAt t groupId (time - 1) = clockAt t groupId time := clockAt_sub_one hsorted hquiet
  have hstatus : statusAt t groupId (time - 1) = statusAt t groupId time := by
    rw [← status_clockAt, ← status_clockAt, hclock]
  have hstep : elapsedAt t groupId time =
      elapsedAt t groupId (time - 1) + if statusAt t groupId time = timerStart then 1 else 0 := by
    have hadd := elapsedBy_add (clockAt t groupId time) (time - 1) 1
    rw [Int.sub_add_cancel, status_clockAt] at hadd
    rw [elapsedAt, elapsedAt, hclock]
    exact hadd
  unfold limitedStatus at hne
  rw [hstatus] at hne
  by_cases hruns : statusAt t groupId time = timerStart
  · rw [if_pos hruns] at hstep
    refine ⟨hruns, ?_⟩
    split at hne
    · next hover =>
      rw [if_pos (by omega)] at hne
      exact absurd rfl hne
    · next hunder =>
      split at hne
      · omega
      · exact absurd rfl hne
  · rw [if_neg hruns, Int.add_zero] at hstep
    rw [hstep] at hne
    exact absurd rfl hne

end

/-- The status of a group changes at the times of events and at its end, and at no other time. -/
theorem contestStatus_changes (t : TimerSupportModule) (hsorted : t.evlist.Pairwise fun a b => a.time ≤ b.time)
    (htimes : t.duration < 0 → ∀ e ∈ t.evlist, 0 ≤ e.time) (groupId : Nat) (now now' realTime : Int)
    (htime : 1 < realTime) (hne : t.contestStatus now groupId (realTime - 1) ≠ t.contestStatus now' groupId realTime) :
    realTime ∈ t.allStartStopTimes ∨ realTime = t.contestEndTime groupId := by
  rw [contestStatus_eq (by omega), contestStatus_eq (by omega)] at hne
  refine or_iff_not_imp_left.mpr fun hquiet => ?_
  have hduration : 0 ≤ t.duration := by
    by_contra hneg
    have hneg := Int.not_le.mp hneg
    rw [limitedStatus_of_duration_neg hsorted (htimes hneg) hneg (by omega),
      limitedStatus_of_duration_neg hsorted (htimes hneg) hneg (by omega)] at hne
    exact hne rfl
  have hout : RunsOut groupId t.duration initial t.evlist realTime := by
    rw [RunsOut, after_initial hsorted, status_clockAt]
    exact runsOut_of_limitedStatus_ne hsorted hquiet hne
  have hend := contestEndTimeFrom_of_runsOut hsorted (.inr ⟨rfl, Int.le_refl 0⟩) hduration hout
  have hinitial : t.duration - initial.elapsed = t.duration := Int.sub_zero _
  rw [hinitial] at hend
  exact hend.symm

/-- At 110 the duration is over, which is no time of an event. -/
theorem contestStatus_changes_overlapping :
    overlapping.contestStatus 0 3 (110 - 1) ≠ overlapping.contestStatus 0 3 110 ∧
      (110 ∈ overlapping.allStartStopTimes ∨ 110 = overlapping.contestEndTime 3) := by
  have hne : overlapping.contestStatus 0 3 (110 - 1) ≠ overlapping.contestStatus 0 3 110 := by decide
  exact ⟨hne,
    contestStatus_changes overlapping chronicle_overlapping.sorted (fun _ => chronicle_overlapping.times) 3 0 0 110
    (by decide) hne⟩

section

variable (h : Chronicle t.evlist) (hduration : 0 < t.duration)

include h

theorem exists_running_at {v : Int} (hv : 0 ≤ v) (hlt : v < elapsedAt t groupId time) :
    ∃ s, 0 ≤ s ∧ s < time ∧ statusAt t groupId s = timerStart ∧ elapsedAt t groupId s = v := by
  have hpos : 0 ≤ time := by
    by_contra hneg
    rw [elapsedAt_of_neg h (Int.not_le.mp hneg)] at hlt
    omega
  obtain ⟨n, rfl⟩ := Int.eq_ofNat_of_zero_le hpos
  induction n with
  | zero =>
    have hzero : elapsedAt t groupId 0 = 0 := elapsedAt_zero h
    rw [Nat.cast_zero, hzero] at hlt
    omega
  | succ n ih =>
    obtain hbefore | hreached := Int.lt_or_le v (elapsedAt t groupId n)
    · obtain ⟨s, hs, hsn, hruns, hval⟩ := ih hbefore (Int.natCast_nonneg n)
      exact ⟨s, hs, by omega, hruns, hval⟩
    · have hstep : elapsedAt t groupId ((n : Int) + 1) = _ := elapsedAt_succ h.ordered (n : Int)
      push_cast at hlt
      rw [hstep] at hlt
      split at hlt
      · next hruns => exact ⟨n, Int.natCast_nonneg n, by omega, hruns, by omega⟩
      · omega

theorem contestTime_eq_duration_iff (htime : 0 < time) (now : Int) :
    t.contestTime now groupId time = t.duration ∧ Running t groupId time ↔
      t.duration ≤ elapsedAt t groupId time ∧ statusAt t groupId time = timerStart := by
  rw [contestTime_eq htime.ne', running_iff h.ordered]
  have hmin : min (elapsedAt t groupId time) t.duration = t.duration ↔ t.duration ≤ elapsedAt t groupId time := by omega
  rw [hmin]

include hduration

theorem Ends.pos (hend : Ends t groupId time) : 0 < time := by
  have hne : time ≠ 0 := by
    rintro rfl
    have hover := hend.spent
    rw [elapsedAt_zero h] at hover
    omega
  have hnonneg := hend.nonneg
  omega

theorem ends_iff_isLeast (now time : Int) : Ends t groupId time ↔
    IsLeast {s | 0 < s ∧ t.contestTime now groupId s = t.duration ∧ Running t groupId s} time := by
  constructor
  · intro hend
    have hpos := Ends.pos h hduration hend
    refine ⟨⟨hpos, (contestTime_eq_duration_iff h hpos now).mpr ⟨hend.spent.ge, hend.runs⟩⟩, ?_⟩
    rintro s ⟨hs, hout⟩
    obtain ⟨hover, hruns⟩ := (contestTime_eq_duration_iff h hs now).mp hout
    by_contra hlt
    -- One second after such a moment the number of seconds would be beyond the duration.
    have hle : elapsedAt t groupId (s + 1) ≤ elapsedAt t groupId time := elapsedAt_le_elapsedAt h.ordered (by omega)
    rw [elapsedAt_succ h.ordered, if_pos hruns, hend.spent] at hle
    omega
  · rintro ⟨⟨hpos, hout⟩, hleast⟩
    obtain ⟨hover, hruns⟩ := (contestTime_eq_duration_iff h hpos now).mp hout
    refine ⟨hpos.le, hruns, ?_⟩
    by_contra hne
    have hbeyond : t.duration < elapsedAt t groupId time := by omega
    obtain ⟨s, hs, hlt, hruns', hval⟩ := exists_running_at h hduration.le hbeyond
    have hends : Ends t groupId s := ⟨hs, hruns', hval⟩
    have hspos := Ends.pos h hduration hends
    have hmem : time ≤ s :=
      hleast ⟨hspos, (contestTime_eq_duration_iff h hspos now).mpr ⟨hval.ge, hruns'⟩⟩
    omega

end

/-- The end time is the first moment at which the duration is over and the contest runs, or 0 if there is none. -/
theorem contestEndTime_isLeast (t : TimerSupportModule) (h : Chronicle t.evlist) (hduration : 0 < t.duration)
    (groupId : Nat) (now : Int) :
    (∀ T, t.contestEndTime groupId = T ∧ 0 < T ↔
      IsLeast {s | 0 < s ∧ t.contestTime now groupId s = t.duration ∧ Running t groupId s} T) ∧
    ((∀ s, 0 < s → ¬(t.contestTime now groupId s = t.duration ∧ Running t groupId s)) →
      t.contestEndTime groupId = 0) := by
  have hspec : Ends t groupId (t.contestEndTime groupId) ∨ t.contestEndTime groupId = 0 ∧ ∀ time,
    ¬Ends t groupId time :=
    contestEndTime_spec h hduration.le
  obtain hends | ⟨hzero, hnone⟩ := hspec
  · constructor
    · intro T
      rw [← ends_iff_isLeast h hduration now]
      constructor
      · rintro ⟨rfl, -⟩
        exact hends
      · intro hT
        exact ⟨contestEndTime_of_ends h hduration.le hT, Ends.pos h hduration hT⟩
    · intro hall
      obtain ⟨⟨hpos, hout⟩, -⟩ := (ends_iff_isLeast h hduration now _).mp hends
      exact absurd hout (hall _ hpos)
  · refine ⟨fun T => ?_, fun _ => hzero⟩
    rw [← ends_iff_isLeast h hduration now]
    constructor
    · rintro ⟨rfl, hpos⟩
      omega
    · intro hT
      exact absurd hT (hnone T)

/-- The duration is over exactly at a stop; the contest ends when it is started again. -/
def exhausted : TimerSupportModule where
  evlist := [⟨10, 0, 1⟩, ⟨30, 0, 2⟩, ⟨70, 0, 1⟩]
  duration := 20
  blinds := 0

theorem contestEndTime_exhausted : Chronicle exhausted.evlist ∧ exhausted.contestEndTime 1 = 70 ∧
    IsLeast {s | 0 < s ∧ exhausted.contestTime 0 1 s = exhausted.duration ∧ Running exhausted 1 s} 70 := by
  have hchronicle : Chronicle exhausted.evlist := {
    sorted := by decide
    times := by decide
    actions := fun e he => (by decide : ∀ e ∈ exhausted.evlist, e.action = timerStart ∨ e.action = timerStop) e he }
  have hend : exhausted.contestEndTime 1 = 70 := by decide
  exact ⟨hchronicle, hend, ((contestEndTime_isLeast exhausted hchronicle (by decide) 1 0).1 70).mp ⟨hend, by decide⟩⟩

section

variable {a b : Int}

/-- Between two moments, if the group has events, the last one is a start, and the contest of the group does not end. -/
def Undisturbed (t : TimerSupportModule) (groupId : Nat) (a b : Int) : Prop :=
  (∀ e ∈ (between t groupId a b).getLast?, e.action = timerStart) ∧
    ¬(a < t.contestEndTime groupId ∧ t.contestEndTime groupId ≤ b)

def AlsoRuns (t : TimerSupportModule) (groupId : Nat) (a b : Int) : Prop :=
  if a ≤ b then Undisturbed t groupId a b else Running t groupId b

theorem limitedStatus_eq_start_iff (time : Int) : limitedStatus t groupId time = timerStart ↔
    elapsedAt t groupId time < t.duration ∧ statusAt t groupId time = timerStart := by
  unfold limitedStatus
  split
  · next hover => exact iff_of_false (by decide) fun hboth => by omega
  · next hunder => exact (and_iff_right (Int.not_le.mp hunder)).symm

variable (h : Chronicle t.evlist)

include h

theorem statusAt_eq_start_iff (hab : a ≤ b) (hruns : statusAt t groupId a = timerStart) :
    statusAt t groupId b = timerStart ↔ ∀ e ∈ (between t groupId a b).getLast?, e.action = timerStart := by
  have hlast : statusAt t groupId b = ((between t groupId a b).getLast?.map Event.action).getD timerStart := by
    rw [← hruns, ← foldl_action, statusAt, statusAt, eventsUntil_append h.ordered hab, List.foldl_append]
  rw [hlast]
  cases (between t groupId a b).getLast? with
  | none | some e => simp

/-- The second by second count reaches the duration in a second in which the contest runs, and this is its end. -/
theorem contestEndTime_of_reached (hduration : 0 ≤ t.duration) (hb : 0 ≤ b)
    (hunder : elapsedAt t groupId a < t.duration)
    (hover : t.duration ≤ elapsedAt t groupId b) (hruns : statusAt t groupId b = timerStart) :
    a < t.contestEndTime groupId ∧ t.contestEndTime groupId ≤ b := by
  obtain ⟨time, hle, hend⟩ : ∃ time ≤ b, Ends t groupId time := by
    obtain heq | hbeyond := hover.eq_or_lt
    · exact ⟨b, le_refl b, hb, hruns, heq.symm⟩
    · obtain ⟨time, hpos, hlt, hstatus, hvalue⟩ := exists_running_at h hduration hbeyond
      exact ⟨time, hlt.le, hpos, hstatus, hvalue⟩
  rw [contestEndTime_of_ends h hduration hend]
  refine ⟨Int.not_le.mp fun hbefore => ?_, hle⟩
  have hmono : elapsedAt t groupId time ≤ elapsedAt t groupId a := elapsedAt_le_elapsedAt h.ordered hbefore
  rw [hend.spent] at hmono
  omega

theorem nonneg_of_limitedStatus (hruns : limitedStatus t groupId a = timerStart) : 0 ≤ a ∧ 0 ≤ t.duration := by
  have ha : 0 ≤ a := by
    by_contra hneg
    have hstatus := ((limitedStatus_eq_start_iff a).mp hruns).2
    rw [statusAt, eventsUntil_of_neg h (Int.not_le.mp hneg)] at hstatus
    cases hstatus
  refine ⟨ha, ?_⟩
  by_contra hneg
  rw [limitedStatus_of_duration_neg h.sorted h.times (Int.not_le.mp hneg) ha] at hruns
  cases hruns

theorem limitedStatus_eq_start_iff_undisturbed (hab : a ≤ b) (hruns : limitedStatus t groupId a = timerStart) :
    limitedStatus t groupId b = timerStart ↔ Undisturbed t groupId a b := by
  obtain ⟨ha, hduration⟩ := nonneg_of_limitedStatus h hruns
  obtain ⟨hunder, hstatus⟩ := (limitedStatus_eq_start_iff a).mp hruns
  rw [limitedStatus_eq_start_iff, statusAt_eq_start_iff h hab hstatus, Undisturbed, and_comm]
  refine and_congr_right fun hlast => ?_
  have hstill := (statusAt_eq_start_iff h hab hstatus).mpr hlast
  constructor
  · rintro hwithin ⟨hafter, hbefore⟩
    have hspec : Ends t groupId (t.contestEndTime groupId) ∨ t.contestEndTime groupId = 0 ∧ ∀ time,
        ¬Ends t groupId time :=
      contestEndTime_spec h hduration
    obtain hends | ⟨hzero, -⟩ := hspec
    · have hmono : elapsedAt t groupId (t.contestEndTime groupId) ≤ elapsedAt t groupId b :=
        elapsedAt_le_elapsedAt h.ordered hbefore
      rw [hends.spent] at hmono
      omega
    · omega
  · intro hopen
    exact Int.not_le.mp fun hover => hopen (contestEndTime_of_reached h hduration (ha.trans hab) hunder hover hstill)

theorem limitedStatus_eq_start_iff_running (hba : b ≤ a) (hruns : limitedStatus t groupId a = timerStart) :
    limitedStatus t groupId b = timerStart ↔ Running t groupId b := by
  have hunder := ((limitedStatus_eq_start_iff a).mp hruns).1
  have hmono : elapsedAt t groupId b ≤ elapsedAt t groupId a := elapsedAt_le_elapsedAt h.ordered hba
  rw [limitedStatus_eq_start_iff, running_iff h.ordered]
  exact and_iff_right (hmono.trans_lt hunder)

theorem limitedStatus_eq_start_iff_alsoRuns (hruns : limitedStatus t groupId a = timerStart) :
    limitedStatus t groupId b = timerStart ↔ AlsoRuns t groupId a b := by
  unfold AlsoRuns
  split
  · next hab => exact limitedStatus_eq_start_iff_undisturbed h hab hruns
  · next hba => exact limitedStatus_eq_start_iff_running h (Int.not_le.mp hba).le hruns

end

end Abacus.Support.Clock
