import Abacus.Database.People
import Abacus.Support.Timeline

/-! # Start and stop events in any order

Events are passed on one after the other, or read back by time and then group. Those of one time keep their order,
which matters if one starts and another stops the contest of a group.
-/

namespace Abacus.Support.StartStop

open Library Timer Timeline Database.Schema Database.Marks Database.People

abbrev Row := Nat × StartStop × Nat

def actionOf : StartStop → Nat
  | .start => timerStart
  | .stop => timerStop

def eventOf (r : Row) : Event := { time := r.2.2, groupId := r.1, action := actionOf r.2.1 }

def scheduleStartStop (s : Contest × TimerSupportModule) (r : Row) : Contest × TimerSupportModule :=
  (putStartStop s.1 r.1 r.2.1 r.2.2, s.2.addEvent (eventOf r))

def scheduled (duration blinds : Int) (rows : List Row) : Contest × TimerSupportModule :=
  rows.foldl scheduleStartStop (Contest.empty, { evlist := [], duration, blinds })

/-- `SELECT … ORDER BY time DESC, group_id DESC`, with the actions of one time and group in any order. -/
def IsAnswer (c : Contest) (rows : List Row) : Prop :=
  rows.Perm c.contestStartStop.keys ∧ rows.Pairwise fun a b => b.2.2 < a.2.2 ∨ b.2.2 = a.2.2 ∧ b.1 ≤ a.1

/-- Each row of the answer goes to the front of the list. -/
def init (duration blinds : Int) (rows : List Row) : TimerSupportModule :=
  { evlist := rows.foldl (fun evlist r => eventOf r :: evlist) [], duration, blinds }

/-- What the two event lists say about every group at every time. -/
def SameViews (t t' : TimerSupportModule) : Prop :=
  ∀ (now : Int) (groupId : Nat) (time : Int), 0 < time →
    t'.contestTime now groupId time = t.contestTime now groupId time ∧
      t'.contestStatus now groupId time = t.contestStatus now groupId time ∧
      t'.contestEndTime groupId = t.contestEndTime groupId

/-- Whatever the order in which the events came, and whether or not they were loaded again. -/
def OrderIndependent (S : Finset Row) : Prop :=
  ∀ (duration blinds : Int) (rows : List Row), 0 < duration → (rows : Multiset Row) = S.val →
    (∀ rows' : List Row, (rows' : Multiset Row) = S.val →
      SameViews (scheduled duration blinds rows).2 (scheduled duration blinds rows').2) ∧
    ∀ answer, IsAnswer (scheduled duration blinds rows).1 answer →
      SameViews (scheduled duration blinds rows).2 (init duration blinds answer)

/-- Events of one time that concern a common group have the same action. -/
def ConflictFree (S : Finset Row) : Prop :=
  ∀ a ∈ S, ∀ b ∈ S, a.2.2 = b.2.2 → (a.1 = b.1 ∨ a.1 = 0 ∨ b.1 = 0) → a.2.1 = b.2.1

variable {r : Row}

section

variable {t : TimerSupportModule} {e : Event} {groupId : Nat}

theorem addEvent_eq (t : TimerSupportModule) (e : Event) :
    (t.addEvent e).evlist = t.evlist.orderedInsert (fun a b => a.time ≤ b.time) e := by
  rw [List.orderedInsert_eq_take_drop]
  simp only [Int.not_le]
  rfl

theorem mem_addEvent {e' : Event} : e' ∈ (t.addEvent e).evlist ↔ e' = e ∨ e' ∈ t.evlist := by
  rw [addEvent_eq, List.mem_orderedInsert]

theorem Chronicle.addEvent (h : Chronicle t.evlist) (htime : 0 ≤ e.time) (haction : IsStartStop e.action) :
    Chronicle (t.addEvent e).evlist where
  sorted := by
    have : Std.Total fun a b : Event => a.time ≤ b.time := ⟨fun a b => le_total a.time b.time⟩
    have : IsTrans Event fun a b => a.time ≤ b.time := ⟨fun _ _ _ => le_trans⟩
    rw [addEvent_eq]
    exact h.sorted.orderedInsert _ _
  times e' he' := by
    rcases mem_addEvent.mp he' with rfl | he'
    · exact htime
    · exact h.times e' he'
  actions e' he' := by
    rcases mem_addEvent.mp he' with rfl | he'
    · exact haction
    · exact h.actions e' he'

theorem concerns_eventOf : (eventOf r).concerns groupId = true ↔ r.1 = 0 ∨ r.1 = groupId :=
  concerns_iff

theorem isStartStop_actionOf (a : StartStop) : IsStartStop (actionOf a) := by
  cases a with
  | start => exact .inl rfl
  | stop => exact .inr rfl

theorem Chronicle.addRow (h : Chronicle t.evlist) (r : Row) : Chronicle (t.addEvent (eventOf r)).evlist :=
  Chronicle.addEvent h (Int.natCast_nonneg r.2.2) (isStartStop_actionOf r.2.1)

theorem statusAt_addRow_of_unconcerned (h : Chronicle t.evlist)
    (hconcerns : (eventOf r).concerns groupId = false) (time : Int) :
    statusAt (t.addEvent (eventOf r)) groupId time = statusAt t groupId time := by
  have : IsTrans Event fun a b => a.time ≤ b.time := ⟨fun _ _ _ => le_trans⟩
  have hfilter : ((t.addEvent (eventOf r)).evlist.filter fun e => e.concerns groupId) =
      t.evlist.filter fun e => e.concerns groupId := by
    rw [addEvent_eq, StableSort.filter_orderedInsert h.sorted, if_neg (by simp [hconcerns])]
  rw [statusAt, statusAt, eventsUntil_eq (Chronicle.addRow h r).ordered, eventsUntil_eq h.ordered, hfilter]

theorem statusAt_addEvent_of_lt {time : Int} (hlt : time < e.time) :
    statusAt (t.addEvent e) groupId time = statusAt t groupId time := by
  rw [statusAt, t.eventsUntil_addEvent hlt]
  rfl

theorem elapsedAt_addEvent_of_lt {time : Int} (hlt : time < e.time) :
    elapsedAt (t.addEvent e) groupId time = elapsedAt t groupId time := by
  rw [elapsedAt, clockAt, t.eventsUntil_addEvent hlt]
  rfl

variable (s : Contest × TimerSupportModule) (rows : List Row)

theorem mem_foldl_schedule :
    e ∈ (rows.foldl scheduleStartStop s).2.evlist ↔ e ∈ s.2.evlist ∨ ∃ r ∈ rows, eventOf r = e := by
  induction rows generalizing s with
  | nil => simp
  | cons r rows ih =>
    rw [List.foldl_cons, ih, scheduleStartStop, mem_addEvent]
    simp only [List.mem_cons, exists_eq_or_imp, eq_comm (a := e), or_assoc, or_left_comm]

theorem chronicle_foldl_schedule (h : Chronicle s.2.evlist) : Chronicle (rows.foldl scheduleStartStop s).2.evlist := by
  induction rows generalizing s with
  | nil => exact h
  | cons r rows ih => exact ih _ (Chronicle.addRow h r)

theorem duration_foldl_schedule : (rows.foldl scheduleStartStop s).2.duration = s.2.duration := by
  induction rows generalizing s with
  | nil => rfl
  | cons r rows ih => exact ih _

theorem mem_foldl_put {k : Row} : k ∈ (rows.foldl scheduleStartStop s).1.contestStartStop ↔
    k ∈ s.1.contestStartStop ∨ ∃ r ∈ rows, (min r.1 maxInt, r.2) = k := by
  induction rows generalizing s with
  | nil => simp
  | cons r rows ih =>
    rw [List.foldl_cons, ih, scheduleStartStop, putStartStop, Table.mem_insert_row]
    simp only [List.mem_cons, exists_eq_or_imp, or_assoc, or_left_comm]

end

variable {e : Event}

section

variable {duration blinds : Int} {rows : List Row} {answer : List Row}

theorem chronicle_scheduled : Chronicle (scheduled duration blinds rows).2.evlist :=
  chronicle_foldl_schedule _ _ ⟨List.Pairwise.nil, by simp, by simp⟩

theorem duration_scheduled : (scheduled duration blinds rows).2.duration = duration := duration_foldl_schedule _ _

theorem mem_scheduled : e ∈ (scheduled duration blinds rows).2.evlist ↔ ∃ r ∈ rows, eventOf r = e := by
  rw [scheduled, mem_foldl_schedule]
  simp

theorem evlist_init (answer : List Row) : (init duration blinds answer).evlist = (answer.map eventOf).reverse := by
  have hfold : ∀ (answer : List Row) (l : List Event),
      answer.foldl (fun evlist r => eventOf r :: evlist) l = (answer.map eventOf).reverse ++ l := by
    intro answer
    induction answer with
    | nil => exact fun l => rfl
    | cons r answer ih =>
      intro l
      rw [List.foldl_cons, ih, List.map_cons, List.reverse_cons, List.append_assoc]
      rfl
  exact (hfold answer []).trans (List.append_nil _)

theorem chronicle_init (h : answer.Pairwise fun a b => b.2.2 < a.2.2 ∨ b.2.2 = a.2.2 ∧ b.1 ≤ a.1) :
    Chronicle (init duration blinds answer).evlist where
  sorted := by
    rw [evlist_init, List.pairwise_reverse, List.pairwise_map]
    apply h.imp
    intro a b hab
    show (b.2.2 : Int) ≤ a.2.2
    omega
  times e he := by
    rw [evlist_init, List.mem_reverse] at he
    obtain ⟨r, -, rfl⟩ := List.mem_map.mp he
    exact Int.natCast_nonneg _
  actions e he := by
    rw [evlist_init, List.mem_reverse] at he
    obtain ⟨r, -, rfl⟩ := List.mem_map.mp he
    exact isStartStop_actionOf _

theorem mem_init : e ∈ (init duration blinds answer).evlist ↔ ∃ r ∈ answer, eventOf r = e := by
  rw [evlist_init, List.mem_reverse, List.mem_map]

theorem mem_answer (hcolumn : ∀ r ∈ rows, r.1 ≤ maxInt)
    (h : IsAnswer (scheduled duration blinds rows).1 answer) (r : Row) : r ∈ answer ↔ r ∈ rows := by
  rw [h.1.mem_iff, Std.ExtTreeMap.mem_keys, scheduled, mem_foldl_put]
  have hempty : r ∉ Contest.empty.contestStartStop := by simp [Contest.empty]
  simp only [hempty, false_or]
  constructor
  · rintro ⟨r', hr', rfl⟩
    rw [Nat.min_eq_left (hcolumn r' hr')]
    exact hr'
  · intro hr
    exact ⟨r, hr, by rw [Nat.min_eq_left (hcolumn r hr)]⟩

end

theorem sameViews_of_statusAt {t t' : TimerSupportModule} (h : Chronicle t.evlist) (h' : Chronicle t'.evlist)
    (hduration : t'.duration = t.duration) (hnonneg : 0 ≤ t.duration)
    (hstatus : ∀ groupId time, statusAt t' groupId time = statusAt t groupId time) : SameViews t t' := by
  intro now groupId time htime
  have hstatus : ∀ time, 0 ≤ time → statusAt t' groupId time = statusAt t groupId time :=
    fun time _ => hstatus groupId time
  exact ⟨contestTime_congr h h' hstatus hduration htime now, contestStatus_congr h h' hstatus hduration htime now,
    contestEndTime_congr h h' hstatus hduration hnonneg⟩

variable {S : Finset Row} {groupId : Nat}

theorem ConflictFree.events (h : ConflictFree S) {a b : Row} (ha : a ∈ S) (hb : b ∈ S)
    (htime : (eventOf a).time = (eventOf b).time) (hconcerns : (eventOf a).concerns groupId = true)
    (hconcerns' : (eventOf b).concerns groupId = true) : (eventOf a).action = (eventOf b).action := by
  have hgroups : a.1 = b.1 ∨ a.1 = 0 ∨ b.1 = 0 := by
    rw [concerns_eventOf] at hconcerns hconcerns'
    omega
  exact congrArg actionOf (h a ha b hb (Int.ofNat_inj.mp htime) hgroups)

theorem ConflictFree.sameViews (h : ConflictFree S) {t t' : TimerSupportModule} (ht : Chronicle t.evlist)
    (ht' : Chronicle t'.evlist) (hduration : t'.duration = t.duration) (hnonneg : 0 ≤ t.duration)
    (hmem : ∀ e, e ∈ t.evlist ↔ ∃ r ∈ S, eventOf r = e) (hmem' : ∀ e, e ∈ t'.evlist ↔ ∃ r ∈ S, eventOf r = e) :
    SameViews t t' := by
  apply sameViews_of_statusAt ht ht' hduration hnonneg
  intro groupId time
  apply statusAt_of_same_events ht ht' fun e => (hmem' e).trans (hmem e).symm
  intro a ha b hb htime hconcerns hconcerns'
  obtain ⟨ra, hra, rfl⟩ := (hmem a).mp ha
  obtain ⟨rb, hrb, rfl⟩ := (hmem b).mp hb
  exact h.events hra hrb htime hconcerns hconcerns'

theorem eventOf_injective : Function.Injective eventOf := by
  rintro ⟨groupId, action, time⟩ ⟨groupId', action', time'⟩ h
  simp only [eventOf, Event.mk.injEq, Int.natCast_inj] at h
  obtain ⟨rfl, rfl, haction⟩ := h
  cases action <;> cases action' <;> first | rfl | cases haction

theorem pairwise_foldl_schedule (s : Contest × TimerSupportModule) (rows : List Row)
    (hs : s.2.evlist.Pairwise fun x y => x.time ≤ y.time ∧ (y.time ≤ x.time → x ≠ e))
    (hne : ∀ r ∈ rows, eventOf r ≠ e) :
    (rows.foldl scheduleStartStop s).2.evlist.Pairwise fun x y => x.time ≤ y.time ∧ (y.time ≤ x.time → x ≠ e) := by
  have : Std.Total fun a b : Event => a.time ≤ b.time := ⟨fun a b => le_total a.time b.time⟩
  have : IsTrans Event fun a b => a.time ≤ b.time := ⟨fun _ _ _ => le_trans⟩
  induction rows generalizing s with
  | nil => exact hs
  | cons r rows ih =>
    rw [List.foldl_cons]
    apply ih
    · dsimp only [scheduleStartStop]
      rw [addEvent_eq]
      exact StableSort.pairwise_orderedInsert hs fun _ _ => hne r (.head rows)
    · exact fun r' hr' => hne r' (.tail r hr')

/-- The event that is passed on first takes effect last of those of its time. -/
theorem statusAt_scheduled_cons {duration blinds : Int} {rows : List Row} (hr : r ∉ rows)
    (hconcerns : (eventOf r).concerns groupId = true) :
    statusAt (scheduled duration blinds (r :: rows)).2 groupId r.2.2 = actionOf r.2.1 := by
  have hne : ∀ r' ∈ rows, eventOf r' ≠ eventOf r := by
    intro r' hr' heq
    exact hr (eventOf_injective heq ▸ hr')
  have hbehind : (scheduled duration blinds (r :: rows)).2.evlist.Pairwise
      fun x y => x.time ≤ y.time ∧ (y.time ≤ x.time → x ≠ eventOf r) :=
    pairwise_foldl_schedule _ rows (List.pairwise_singleton _ _) hne
  have hmem : eventOf r ∈ (scheduled duration blinds (r :: rows)).2.evlist := mem_scheduled.mpr ⟨r, .head rows, rfl⟩
  generalize hevents : (scheduled duration blinds (r :: rows)).2.eventsUntil groupId r.2.2 = l
  have hl : eventOf r ∈ l := hevents ▸ (mem_eventsUntil chronicle_scheduled).mpr ⟨hmem, hconcerns, Int.le_refl _⟩
  have hbehind : l.Pairwise fun x y => x.time ≤ y.time ∧ (y.time ≤ x.time → x ≠ eventOf r) := by
    rw [← hevents, eventsUntil_eq chronicle_scheduled.ordered]
    exact (hbehind.filter _).filter _
  rw [statusAt, hevents, foldl_action]
  rcases List.eq_nil_or_concat l with rfl | ⟨front, e, rfl⟩
  · cases hl
  · rw [List.concat_eq_append] at hl hbehind hevents ⊢
    have hlast : e = eventOf r := by
      rcases List.mem_append.mp hl with hfront | hlast
      · have he : e ∈ (scheduled duration blinds (r :: rows)).2.eventsUntil groupId r.2.2 := by simp [hevents]
        have htime : e.time ≤ r.2.2 := ((mem_eventsUntil chronicle_scheduled).mp he).2.2
        exact absurd rfl (((List.pairwise_append.mp hbehind).2.2 _ hfront e (by simp)).2 htime)
      · exact (List.mem_singleton.mp hlast).symm
    simp [hlast, eventOf]

theorem exists_order_cons (hr : r ∈ S) :
    ∃ rows : List Row, r ∉ rows ∧ ((r :: rows : List Row) : Multiset Row) = S.val := by
  refine ⟨(S.erase r).toList, by simp, ?_⟩
  rw [← Multiset.cons_coe, Finset.coe_toList, Finset.erase_val, Multiset.cons_erase hr]

theorem OrderIndependent.not_start_stop (h : OrderIndependent S) {a b : Row} (ha : a ∈ S) (hb : b ∈ S)
    (htime : a.2.2 = b.2.2) (hconcerns : (eventOf a).concerns groupId = true)
    (hconcerns' : (eventOf b).concerns groupId = true) (hstart : a.2.1 = .start) (hstop : b.2.1 = .stop) : False := by
  obtain ⟨rows, hrows, horder⟩ := exists_order_cons ha
  obtain ⟨rows', hrows', horder'⟩ := exists_order_cons hb
  -- The contest is long enough that its limit is not reached.
  have hviews := (h (a.2.2 + 1) 0 _ (by omega) horder).1 _ horder'
  have hrun : statusAt (scheduled (a.2.2 + 1) 0 (a :: rows)).2 groupId a.2.2 = timerStart := by
    rw [statusAt_scheduled_cons hrows hconcerns, hstart]
    rfl
  have hhalt : statusAt (scheduled (a.2.2 + 1) 0 (b :: rows')).2 groupId a.2.2 = timerStop := by
    rw [htime, statusAt_scheduled_cons hrows' hconcerns', hstop]
    rfl
  have hequal : ∀ n : Nat, n ≤ a.2.2 + 1 → elapsedAt (scheduled (a.2.2 + 1) 0 (b :: rows')).2 groupId n =
      elapsedAt (scheduled (a.2.2 + 1) 0 (a :: rows)).2 groupId n := by
    intro n hn
    cases n with
    | zero => exact (elapsedAt_zero chronicle_scheduled).trans (elapsedAt_zero chronicle_scheduled).symm
    | succ n =>
      have htimes := (hviews 0 groupId (n + 1 : Nat) (by omega)).1
      rw [contestTime_eq (by omega), contestTime_eq (by omega), duration_scheduled, duration_scheduled] at htimes
      have hle : elapsedAt (scheduled (a.2.2 + 1) 0 (a :: rows)).2 groupId (n + 1 : Nat) ≤ (n + 1 : Nat) :=
        elapsedAt_le chronicle_scheduled (n + 1)
      have hle' : elapsedAt (scheduled (a.2.2 + 1) 0 (b :: rows')).2 groupId (n + 1 : Nat) ≤ (n + 1 : Nat) :=
        elapsedAt_le chronicle_scheduled (n + 1)
      rw [min_eq_left (by omega), min_eq_left (by omega)] at htimes
      exact htimes
  have hbefore := hequal a.2.2 (by omega)
  have hafter := hequal (a.2.2 + 1) (by omega)
  push_cast at hafter
  rw [elapsedAt_succ chronicle_scheduled.ordered, elapsedAt_succ chronicle_scheduled.ordered, hrun, hhalt,
    hbefore] at hafter
  simp [timerStart, timerStop] at hafter

/-- The order of the events is irrelevant exactly if no two of one time start and stop the contest of a common group. -/
theorem orderIndependent_iff_conflictFree (S : Finset Row) (hcolumn : ∀ r ∈ S, r.1 ≤ maxInt) :
    OrderIndependent S ↔ ConflictFree S := by
  constructor
  · intro h a ha b hb htime hgroups
    obtain ⟨groupId, hconcerns, hconcerns'⟩ :
        ∃ groupId, (eventOf a).concerns groupId = true ∧ (eventOf b).concerns groupId = true := by
      refine ⟨if a.1 = 0 then b.1 else a.1, concerns_eventOf.mpr ?_, concerns_eventOf.mpr ?_⟩
      · split <;> omega
      · split <;> omega
    cases hactiona : a.2.1 with
    | start =>
      cases hactionb : b.2.1 with
      | start => rfl
      | stop => exact (h.not_start_stop ha hb htime hconcerns hconcerns' hactiona hactionb).elim
    | stop =>
      cases hactionb : b.2.1 with
      | start => exact (h.not_start_stop hb ha htime.symm hconcerns' hconcerns hactionb hactiona).elim
      | stop => rfl
  · intro h duration blinds rows hduration horder
    have hrows : ∀ {rows : List Row}, (rows : Multiset Row) = S.val → ∀ r, r ∈ rows ↔ r ∈ S := by
      intro rows horder r
      rw [← Finset.mem_val, ← horder, Multiset.mem_coe]
    have hmem : ∀ {rows : List Row}, (rows : Multiset Row) = S.val → ∀ e,
        e ∈ (scheduled duration blinds rows).2.evlist ↔ ∃ r ∈ S, eventOf r = e := by
      intro rows horder e
      simp only [mem_scheduled, hrows horder]
    have hnonneg : 0 ≤ (scheduled duration blinds rows).2.duration := by
      rw [duration_scheduled]
      omega
    constructor
    · intro rows' horder'
      apply h.sameViews chronicle_scheduled chronicle_scheduled _ hnonneg (hmem horder) (hmem horder')
      rw [duration_scheduled, duration_scheduled]
    · intro answer hanswer
      apply h.sameViews chronicle_scheduled (chronicle_init hanswer.2) _ hnonneg (hmem horder)
      · intro e
        have hcolumn : ∀ r ∈ rows, r.1 ≤ maxInt := fun r hr => hcolumn r ((hrows horder r).mp hr)
        simp only [mem_init, mem_answer hcolumn hanswer, hrows horder]
      · rw [duration_scheduled]
        rfl

def oneBreak : Finset Row :=
  {(0, .start, 1000), (0, .stop, 5000), (0, .start, 6000), (1, .stop, 5500), (1, .start, 7000)}

theorem orderIndependent_oneBreak : ConflictFree oneBreak ∧ OrderIndependent oneBreak := by
  have hfree : ConflictFree oneBreak := by
    unfold ConflictFree
    decide
  exact ⟨hfree, (orderIndependent_iff_conflictFree oneBreak (by decide)).mpr hfree⟩

def sameTime : Finset Row := {(0, .start, 1000), (1, .stop, 1000)}

/-- Whether the contest of that group runs depends on which event came first, and reloading may change it. -/
theorem not_orderIndependent_sameTime :
    (scheduled 18000 0 [(0, .start, 1000), (1, .stop, 1000)]).2.contestStatus 2000 1 2000 = timerStart ∧
      (scheduled 18000 0 [(1, .stop, 1000), (0, .start, 1000)]).2.contestStatus 2000 1 2000 = timerStop ∧
      (init 18000 0 [(1, .stop, 1000), (0, .start, 1000)]).contestStatus 2000 1 2000 = timerStop ∧
      IsAnswer (scheduled 18000 0 [(0, .start, 1000), (1, .stop, 1000)]).1 [(1, .stop, 1000), (0, .start, 1000)] ∧
      ¬OrderIndependent sameTime := by
  have hstart : (scheduled 18000 0 [(0, .start, 1000), (1, .stop, 1000)]).2.contestStatus 2000 1 2000 = timerStart := by
    decide
  have hstop : (scheduled 18000 0 [(1, .stop, 1000), (0, .start, 1000)]).2.contestStatus 2000 1 2000 = timerStop := by
    decide
  refine ⟨hstart, hstop, by decide, ⟨by decide, by decide⟩, fun h => ?_⟩
  have hviews := (h 18000 0 [(0, .start, 1000), (1, .stop, 1000)] (by decide) rfl).1
    [(1, .stop, 1000), (0, .start, 1000)] (by decide)
  have hsame := (hviews 2000 1 2000 (by decide)).2.1
  rw [hstart, hstop] at hsame
  cases hsame

end Abacus.Support.StartStop
