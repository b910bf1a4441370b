import Abacus.Support.GroupState

/-! # When the groups are told the right thing

For every event and for its end, a group has been updated since, or an action or an update is still to come. This
holds as long as no update is made for an earlier moment than the one before, and new groups find
their end on the queue.
-/

namespace Abacus.Support.Notification

open Library Timer Timeline StartStop GroupState

def ops (s : State) : List Op :=
  match s.message with
  | .working ops => ops
  | _ => []

def Queued (s : State) (time : Int) : Prop := time ∈ s.pending ∨ .putTimedAction time ∈ ops s

inductive Covered (s : State) (groupId : Nat) (time : Int) : Prop
  | settled (last : Int) (hlast : s.lastUpdate[groupId]? = some last) (hle : time ≤ last)
  | queued (h : Queued s time)
  | acting (h : (groupId, time) ∈ s.action)
  | update (moment : Int) (h : .updateGroupState groupId moment ∈ ops s) (hle : time ≤ moment)
  | updateNow (h : .updateNow groupId ∈ ops s) (hle : time ≤ s.now)

def Dirty (s : State) (groupId : Nat) : Prop :=
  (∃ time, .updateGroupState groupId time ∈ ops s) ∨ .updateNow groupId ∈ ops s

/-- Something is left to do for the moment of the last update, or for one before. -/
def Unsettled (s : State) (groupId : Nat) : Prop :=
  ∃ last time, s.lastUpdate[groupId]? = some last ∧ time ≤ last ∧ (Queued s time ∨ (groupId, time) ∈ s.action)

def Right (s : State) (groupId : Nat) : Prop :=
  ∃ last, s.lastUpdate[groupId]? = some last ∧ s.groupState[groupId]? = some (limitedStatus s.timer groupId last)

/-- An update is to come for the group, or its state is that of its last update. -/
def Tracked (s : State) (groupId : Nat) : Prop := Dirty s groupId ∨ Unsettled s groupId ∨ Right s groupId

def Jump (t : TimerSupportModule) (groupId : Nat) (time : Int) : Prop :=
  (∃ e ∈ t.evlist, e.concerns groupId = true ∧ e.time = time) ∨ t.contestEndTime groupId = time

structure Kept (s : State) : Prop where
  clock : 0 < s.now
  duration : 0 < s.timer.duration
  chronicle : Chronicle s.timer.evlist
  reading : ∀ now r, s.message = .scheduling now r → 0 < now ∧ now ≤ s.now
  last : ∀ (g : Nat) (last : Int), s.lastUpdate[g]? = some last → 0 < last ∧ last ≤ s.now
  update : ∀ g time, .updateGroupState g time ∈ ops s → 0 < time ∧ time ≤ s.now
  acting : ∀ g time, (g, time) ∈ s.action → 0 < time ∧ time ≤ s.now
  queued : ∀ time, Queued s time → 0 < time
  events : ∀ e ∈ s.timer.evlist, e.time ≤ s.now ∨ Queued s e.time
  covered : ∀ g ∈ s.groups, ∀ time, 0 < time → Jump s.timer g time → Covered s g time
  tracked : ∀ g ∈ s.groups, Tracked s g

theorem Kept.notified {s : State} (h : Kept s) : Notified s := by
  intro hmessage haction hpending g hg
  have hops : ops s = [] := by rw [ops, hmessage]
  have hqueued : ∀ time, Queued s time → s.now < time := by
    rintro time (hmem | hmem)
    · exact hpending time hmem
    · rw [hops] at hmem
      cases hmem
  -- Nothing is left to do for any moment up to now, so the last update was right and nothing has happened since.
  obtain ⟨last, hlast, hstate⟩ : Right s g := by
    rcases h.tracked g hg with (⟨time, hmem⟩ | hmem) | ⟨last, time, hlast, hle, hqueue | hact⟩ | hright
    · rw [hops] at hmem
      cases hmem
    · rw [hops] at hmem
      cases hmem
    · have hlate := hqueued time hqueue
      have hlast := (h.last g last hlast).2
      omega
    · rw [haction] at hact
      cases hact
    · exact hright
  obtain ⟨hpositive, hpast⟩ := h.last g last hlast
  have hquiet : ∀ time, Jump s.timer g time → ¬(last < time ∧ time ≤ s.now) := by
    rintro time hjump ⟨hlow, hhigh⟩
    cases h.covered g hg time (by omega) hjump with
    | settled last' hlast' hle =>
      rw [hlast] at hlast'
      cases hlast'
      omega
    | queued hqueue =>
      have hlate := hqueued time hqueue
      omega
    | acting hact =>
      rw [haction] at hact
      cases hact
    | update moment hmem _ | updateNow hmem _ =>
      rw [hops] at hmem
      cases hmem
  have hclock := h.clock
  rw [hstate, contestStatus_eq (by omega)]
  congr 1
  symm
  apply limitedStatus_of_quiet h.chronicle h.duration.le hpositive.le hpast
  · exact fun e he hconcerns => hquiet e.time (.inl ⟨e, he, hconcerns, rfl⟩)
  · exact hquiet _ (.inr rfl)

variable {time : Int}

section

structure Extends (s s' : State) : Prop where
  now : s.now ≤ s'.now
  last : s'.lastUpdate = s.lastUpdate
  groupState : s'.groupState = s.groupState
  queued : ∀ time, Queued s time → Queued s' time ∨ time ≤ s'.now ∧ ∀ g ∈ s.groups, (g, time) ∈ s'.action
  acting : ∀ x ∈ s.action, x ∈ s'.action
  update : ∀ g time, .updateGroupState g time ∈ ops s → .updateGroupState g time ∈ ops s'
  updateNow : ∀ g, .updateNow g ∈ ops s → .updateNow g ∈ ops s' ∨ ∃ time,
    s.now ≤ time ∧ .updateGroupState g time ∈ ops s'

variable {s s' : State} {g : Nat}

theorem Extends.covered (h : Extends s s') (hg : g ∈ s.groups) (hcovered : Covered s g time) :
    Covered s' g time := by
  cases hcovered with
  | settled last hlast hle => exact .settled last (h.last ▸ hlast) hle
  | queued hqueue =>
    rcases h.queued time hqueue with hqueue | ⟨-, hact⟩
    · exact .queued hqueue
    · exact .acting (hact g hg)
  | acting hact => exact .acting (h.acting _ hact)
  | update moment hmem hle => exact .update moment (h.update g moment hmem) hle
  | updateNow hmem hle =>
    rcases h.updateNow g hmem with hmem | ⟨moment, hmoment, hmem⟩
    · exact .updateNow hmem (hle.trans h.now)
    · exact .update moment hmem (hle.trans hmoment)

theorem Extends.dirty (h : Extends s s') (hdirty : Dirty s g) : Dirty s' g := by
  rcases hdirty with ⟨time, hmem⟩ | hmem
  · exact .inl ⟨time, h.update g time hmem⟩
  · rcases h.updateNow g hmem with hmem | ⟨time, -, hmem⟩
    · exact .inr hmem
    · exact .inl ⟨time, hmem⟩

theorem Extends.unsettled (h : Extends s s') (hg : g ∈ s.groups) (hunsettled : Unsettled s g) : Unsettled s' g := by
  obtain ⟨last, time, hlast, hle, hqueue | hact⟩ := hunsettled
  · refine ⟨last, time, h.last ▸ hlast, hle, ?_⟩
    rcases h.queued time hqueue with hqueue | ⟨-, hact⟩
    · exact .inl hqueue
    · exact .inr (hact g hg)
  · exact ⟨last, time, h.last ▸ hlast, hle, .inr (h.acting _ hact)⟩

theorem Extends.tracked (h : Extends s s') (hg : g ∈ s.groups) (hright : Right s g → Tracked s' g)
    (htracked : Tracked s g) : Tracked s' g := by
  rcases htracked with hdirty | hunsettled | hstate
  · exact .inl (h.dirty hdirty)
  · exact .inr (.inl (h.unsettled hg hunsettled))
  · exact hright hstate

theorem Kept.of_extends (h : Kept s) (hext : Extends s s') (htimer : s'.timer = s.timer)
    (hgroups : s'.groups = s.groups) (hreading : ∀ now r, s'.message = .scheduling now r → 0 < now ∧ now ≤ s'.now)
    (hupdate : ∀ g time, .updateGroupState g time ∈ ops s' → 0 < time ∧ time ≤ s'.now)
    (hacting : ∀ g time, (g, time) ∈ s'.action → 0 < time ∧ time ≤ s'.now)
    (hqueued : ∀ time, Queued s' time → 0 < time) : Kept s' where
  clock := Int.lt_of_lt_of_le h.clock hext.now
  duration := htimer ▸ h.duration
  chronicle := htimer ▸ h.chronicle
  reading := hreading
  last g last hlast := by
    obtain ⟨hpositive, hpast⟩ := h.last g last (hext.last ▸ hlast)
    exact ⟨hpositive, hpast.trans hext.now⟩
  update := hupdate
  acting := hacting
  queued := hqueued
  events e he := by
    rcases h.events e (htimer ▸ he) with hpast | hqueue
    · exact .inl (hpast.trans hext.now)
    · rcases hext.queued e.time hqueue with hqueue | ⟨hpast, -⟩
      · exact .inr hqueue
      · exact .inl hpast
  covered g hg time htime hjump := by
    rw [hgroups] at hg
    exact hext.covered hg (h.covered g hg time htime (htimer ▸ hjump))
  tracked g hg := by
    rw [hgroups] at hg
    refine hext.tracked hg ?_ (h.tracked g hg)
    rintro ⟨last, hlast, hstate⟩
    refine .inr (.inr ⟨last, hext.last ▸ hlast, ?_⟩)
    rw [hext.groupState, htimer]
    exact hstate

theorem Extends.of_idle (hops : ops s = []) (hnow : s'.now = s.now) (hlast : s'.lastUpdate = s.lastUpdate)
    (hstate : s'.groupState = s.groupState) (hpending : s'.pending = s.pending) (haction : s'.action = s.action) :
    Extends s s' where
  now := hnow.ge
  last := hlast
  groupState := hstate
  queued time hqueue := by
    rcases hqueue with hqueue | hmem
    · exact .inl (.inl (hpending ▸ hqueue))
    · rw [hops] at hmem
      cases hmem
  acting x hx := haction ▸ hx
  update g time hmem := by
    rw [hops] at hmem
    cases hmem
  updateNow g hmem := by
    rw [hops] at hmem
    cases hmem

theorem Extends.refl_of_ops (hops : ops s' = ops s) (hnow : s.now ≤ s'.now) (hlast : s'.lastUpdate = s.lastUpdate)
    (hstate : s'.groupState = s.groupState) (hpending : s'.pending = s.pending) (haction : s'.action = s.action) :
    Extends s s' where
  now := hnow
  last := hlast
  groupState := hstate
  queued time hqueue := by
    rw [Queued, hpending, hops]
    exact .inl hqueue
  acting x hx := haction ▸ hx
  update g time hmem := hops ▸ hmem
  updateNow g hmem := .inl (hops ▸ hmem)

end

variable {now : Int}

section

variable {s : State}

theorem Kept.tick (h : Kept s) (seconds : Nat) : Kept { s with now := s.now + seconds } := by
  have hle : s.now ≤ s.now + seconds := by omega
  have hext : Extends s { s with now := s.now + seconds } := Extends.refl_of_ops rfl hle rfl rfl rfl rfl
  apply h.of_extends hext rfl rfl
  · intro now r hmessage
    obtain ⟨hpositive, hpast⟩ := h.reading now r hmessage
    exact ⟨hpositive, hpast.trans hle⟩
  · intro g time hmem
    obtain ⟨hpositive, hpast⟩ := h.update g time hmem
    exact ⟨hpositive, hpast.trans hle⟩
  · intro g time hmem
    obtain ⟨hpositive, hpast⟩ := h.acting g time hmem
    exact ⟨hpositive, hpast.trans hle⟩
  · exact h.queued

theorem Kept.begin (h : Kept s) (hwait : s.message = .working []) {message : Thread}
    (hops : ∀ ops, message ≠ .working ops) (hreading : ∀ now r, message = .scheduling now r → now = s.now) :
    Kept { s with message } := by
  have hsame : ops { s with message } = ops s := by
    rw [ops, ops, hwait]
    cases message with
    | scheduling | creating => rfl
    | working ops => exact absurd rfl (hops ops)
  apply h.of_extends (Extends.refl_of_ops hsame (Int.le_refl _) rfl rfl rfl rfl) rfl rfl
  · intro now r hmessage
    rw [hreading now r hmessage]
    exact ⟨h.clock, Int.le_refl _⟩
  · intro g time hmem
    exact h.update g time (hsame ▸ hmem)
  · exact h.acting
  · intro time hqueue
    rw [Queued, hsame] at hqueue
    exact h.queued time hqueue

variable {g : Nat}

theorem Kept.updateNow (h : Kept s) {rest : List Op} (hmessage : s.message = .working (.updateNow g :: rest)) :
    Kept { s with message := .working (.updateGroupState g s.now :: rest) } := by
  have hops : ops s = .updateNow g :: rest := by rw [ops, hmessage]
  have hqueued : ∀ time,
      Queued { s with message := .working (.updateGroupState g s.now :: rest) } time ↔ Queued s time := by
    intro time
    rw [Queued, Queued, hops]
    simp [ops]
  have hext : Extends s { s with message := .working (.updateGroupState g s.now :: rest) } := {
    now := Int.le_refl _
    last := rfl
    groupState := rfl
    queued := fun time hqueue => .inl ((hqueued time).mpr hqueue)
    acting := fun _ hx => hx
    update := by
      intro g' time hmem
      rw [hops] at hmem
      simp only [List.mem_cons, reduceCtorEq, false_or] at hmem
      exact .tail _ hmem
    updateNow := by
      intro g' hmem
      rw [hops] at hmem
      rcases List.mem_cons.mp hmem with heq | hmem
      · cases heq
        exact .inr ⟨s.now, Int.le_refl _, .head _⟩
      · exact .inl (.tail _ hmem) }
  apply h.of_extends hext rfl rfl
  · exact nofun
  · intro g' time hmem
    rcases List.mem_cons.mp hmem with heq | hmem
    · cases heq
      exact ⟨h.clock, Int.le_refl _⟩
    · exact h.update g' time (hops ▸ .tail _ hmem)
  · exact h.acting
  · exact fun time hqueue => h.queued time ((hqueued time).mp hqueue)

theorem Kept.put (h : Kept s) {rest : List Op} (hmessage : s.message = .working (.putTimedAction time :: rest)) :
    Kept { s with pending := s.pending ++ [time], message := .working rest } := by
  have hops : ops s = .putTimedAction time :: rest := by rw [ops, hmessage]
  have hqueued : ∀ t, Queued { s with pending := s.pending ++ [time], message := .working rest } t ↔ Queued s t := by
    intro t
    rw [Queued, Queued, hops]
    simp [ops, or_assoc]
  have hext : Extends s { s with pending := s.pending ++ [time], message := .working rest } := {
    now := Int.le_refl _
    last := rfl
    groupState := rfl
    queued := fun t hqueue => .inl ((hqueued t).mpr hqueue)
    acting := fun _ hx => hx
    update := by
      intro g t hmem
      rw [hops] at hmem
      simpa [ops] using hmem
    updateNow := by
      intro g hmem
      rw [hops] at hmem
      exact .inl (by simpa [ops] using hmem) }
  apply h.of_extends hext rfl rfl
  · exact nofun
  · exact fun g t hmem => h.update g t (hops ▸ .tail _ hmem)
  · exact h.acting
  · exact fun t hqueue => h.queued t ((hqueued t).mp hqueue)

theorem Kept.take (h : Kept s) (haction : s.action = []) (hmem : time ∈ s.pending) (hdue : time ≤ s.now) :
    Kept { s with pending := s.pending.erase time, action := s.groups.map fun g => (g, time) } := by
  have hext : Extends s { s with pending := s.pending.erase time, action := s.groups.map fun g => (g, time) } := {
    now := Int.le_refl _
    last := rfl
    groupState := rfl
    queued := by
      rintro t (hpending | hput)
      · by_cases heq : t = time
        · subst heq
          exact .inr ⟨hdue, fun g hg => List.mem_map.mpr ⟨g, hg, rfl⟩⟩
        · exact .inl (.inl ((List.mem_erase_of_ne heq).mpr hpending))
      · exact .inl (.inr hput)
    acting := by
      intro x hx
      rw [haction] at hx
      cases hx
    update := fun _ _ hmem => hmem
    updateNow := fun _ hmem => .inl hmem }
  apply h.of_extends hext rfl rfl
  · exact h.reading
  · exact h.update
  · intro g t hact
    obtain ⟨_, _, heq⟩ := List.mem_map.mp hact
    cases heq
    exact ⟨h.queued time (.inl hmem), hdue⟩
  · rintro t (hpending | hput)
    · exact h.queued t (.inl (List.mem_of_mem_erase hpending))
    · exact h.queued t (.inr hput)

structure Updates (s s' : State) (g : Nat) (time : Int) : Prop where
  timer : s'.timer = s.timer
  last : s'.lastUpdate = s.lastUpdate.insert g time
  state : s'.groupState = s.groupState.insert g (s.timer.contestStatus s.now g time)
  now : s'.now = s.now
  pending : s'.pending = s.pending
  ops : ∀ op ∈ ops s, op = .updateGroupState g time ∨ op ∈ Notification.ops s'
  ops_old : ∀ op ∈ Notification.ops s', op ∈ Notification.ops s
  action : ∀ x ∈ s.action, x = (g, time) ∨ x ∈ s'.action

section

variable {s' : State} {g g' : Nat} {time t : Int} (hupdates : Updates s s' g time)

include hupdates

theorem Updates.queued : Queued s' t ↔ Queued s t := by
  refine or_congr (by rw [hupdates.pending]) ⟨hupdates.ops_old _, fun hmem => ?_⟩
  exact (hupdates.ops _ hmem).resolve_left (by simp)

theorem Updates.last_self : s'.lastUpdate[g]? = some time := by
  rw [hupdates.last, Table.getElem?_insert_row, if_pos rfl]

theorem Updates.last_other (hne : g ≠ g') : s'.lastUpdate[g']? = s.lastUpdate[g']? := by
  rw [hupdates.last, Table.getElem?_insert_row, if_neg hne]

theorem Updates.covered (horder : InOrder s g time) (hcovered : Covered s g' t) : Covered s' g' t := by
  cases hcovered with
  | settled last hlast hle =>
    by_cases heq : g = g'
    · subst heq
      exact .settled time hupdates.last_self (hle.trans (horder last hlast))
    · exact .settled last ((hupdates.last_other heq).trans hlast) hle
  | queued hqueue => exact .queued (hupdates.queued.mpr hqueue)
  | acting hact =>
    rcases hupdates.action _ hact with heq | hact
    · cases heq
      exact .settled time hupdates.last_self (Int.le_refl _)
    · exact .acting hact
  | update moment hmem hle =>
    rcases hupdates.ops _ hmem with heq | hmem
    · cases heq
      exact .settled time hupdates.last_self hle
    · exact .update moment hmem hle
  | updateNow hmem hle =>
    exact .updateNow ((hupdates.ops _ hmem).resolve_left (by simp)) (hle.trans_eq hupdates.now.symm)

theorem Updates.right_self (htime : 0 < time) : Right s' g := by
  refine ⟨time, hupdates.last_self, ?_⟩
  rw [hupdates.state, Table.getElem?_insert_row, if_pos rfl, contestStatus_eq (by omega), hupdates.timer]

theorem Updates.tracked_other (hne : g ≠ g') (htracked : Tracked s g') : Tracked s' g' := by
  rcases htracked with (⟨t, hmem⟩ | hmem) | ⟨last, t, hlast, hle, hwork⟩ | ⟨last, hlast, hright⟩
  · refine .inl (.inl ⟨t, (hupdates.ops _ hmem).resolve_left ?_⟩)
    intro hop
    cases hop
    exact hne rfl
  · exact .inl (.inr ((hupdates.ops _ hmem).resolve_left (by simp)))
  · refine .inr
      (.inl ⟨last, t, (hupdates.last_other hne).trans hlast, hle, hwork.imp hupdates.queued.mpr fun hact => ?_⟩)
    refine (hupdates.action _ hact).resolve_left ?_
    intro hpair
    cases hpair
    exact hne rfl
  · refine .inr (.inr ⟨last, (hupdates.last_other hne).trans hlast, ?_⟩)
    rw [hupdates.state, Table.getElem?_insert_row, if_neg hne, hupdates.timer]
    exact hright

end

theorem Kept.updateGroupState (h : Kept s) (horder : InOrder s g time) (htime : 0 < time ∧ time ≤ s.now)
    {message : Thread} {action : List (Nat × Int)}
    (hreading : ∀ now r, message = .scheduling now r → s.message = message)
    (hops : ∀ op ∈ ops s, op = .updateGroupState g time ∨ op ∈ ops { s with message })
    (hops' : ∀ op ∈ ops { s with message }, op ∈ ops s)
    (haction : ∀ x ∈ s.action, x = (g, time) ∨ x ∈ action) (haction' : ∀ x ∈ action, x ∈ s.action) :
    Kept { GroupState.updateGroupState g time s with message, action } := by
  have hupdates : Updates s { GroupState.updateGroupState g time s with message, action } g time :=
    ⟨rfl, rfl, rfl, rfl, rfl, hops, hops', haction⟩
  refine ⟨h.clock, h.duration, h.chronicle, ?_, ?_, fun g' t hmem => h.update g' t (hops' _ hmem),
    fun g' t hmem => h.acting g' t (haction' _ hmem), fun t hqueue => h.queued t (hupdates.queued.mp hqueue),
    fun e he => (h.events e he).imp id hupdates.queued.mpr, ?_, ?_⟩
  · intro now r hmessage
    exact h.reading now r ((hreading now r hmessage).trans hmessage)
  · intro g' last hlast
    by_cases heq : g = g'
    · subst heq
      cases hupdates.last_self.symm.trans hlast
      exact htime
    · exact h.last g' last ((hupdates.last_other heq).symm.trans hlast)
  · exact fun g' hg' t ht hjump => hupdates.covered horder (h.covered g' hg' t ht hjump)
  · intro g' hg'
    by_cases heq : g = g'
    · subst heq
      exact .inr (.inr (hupdates.right_self htime.1))
    · exact hupdates.tracked_other heq (h.tracked g' hg')

variable {timer : TimerSupportModule} {groups : List Nat}

theorem mem_endTimes {groupId : Nat} (known : List Int)
    (hg : g ∈ groups) (hgroup : groupId = 0 ∨ groupId = g) (hahead : now < timer.contestEndTime g) :
    timer.contestEndTime g ∈ known ∨ timer.contestEndTime g ∈ endTimes now timer groupId groups known := by
  induction groups generalizing known with
  | nil => cases hg
  | cons g' groups ih =>
    rw [endTimes]
    split
    · rcases List.mem_cons.mp hg with rfl | hg
      · exact .inr (.head _)
      · rcases ih (timer.contestEndTime g' :: known) hg with hmem | hmem
        · rcases List.mem_cons.mp hmem with heq | hmem
          · exact .inr (heq ▸ .head _)
          · exact .inl hmem
        · exact .inr (.tail _ hmem)
    · next hskip =>
      rcases List.mem_cons.mp hg with rfl | hg
      · exact .inl (by_contra fun hnew => hskip ⟨hgroup, hahead, hnew⟩)
      · exact ih known hg

theorem lt_of_mem_endTimes {groupId : Nat} {known : List Int}
    (h : time ∈ endTimes now timer groupId groups known) : now < time := by
  induction groups generalizing known with
  | nil => cases h
  | cons g groups ih =>
    rw [endTimes] at h
    split at h
    · next hput =>
      rcases List.mem_cons.mp h with rfl | h
      · exact hput.2.1
      · exact ih h
    · exact ih h

theorem mem_startStopOps {r : Row} {op : Op} : op ∈ startStopOps now timer groups r ↔
      (now < r.2.2 ∧ op = .putTimedAction r.2.2) ∨ (r.2.2 ≤ now ∧ ∃ g ∈ groups, op = .updateGroupState g now) ∨
        ∃ time ∈ endTimes now timer r.1 groups [], op = .putTimedAction time := by
  rw [startStopOps, List.mem_append, List.mem_map]
  split
  · next hfuture =>
    have hnot : ¬(r.2.2 : Int) ≤ now := by omega
    simp [hfuture, hnot, eq_comm]
  · next hpast =>
    have hle : (r.2.2 : Int) ≤ now := by omega
    simp [hpast, hle, eq_comm]

theorem contestEndTime_of_lt {t : TimerSupportModule} {r : Row} (ht : Chronicle t.evlist) (hduration : 0 < t.duration)
    (hpositive : 0 < (t.addEvent (eventOf r)).contestEndTime g)
    (hlt : (t.addEvent (eventOf r)).contestEndTime g < (eventOf r).time) :
    t.contestEndTime g = (t.addEvent (eventOf r)).contestEndTime g := by
  rcases contestEndTime_spec (Chronicle.addRow ht r) hduration.le with hends | ⟨hzero, -⟩
  · apply contestEndTime_of_ends ht hduration.le
    refine ⟨hpositive.le, ?_, ?_⟩
    · rw [← statusAt_addEvent_of_lt hlt]
      exact hends.runs
    · rw [← elapsedAt_addEvent_of_lt hlt]
      exact hends.spent
  · omega

theorem contestEndTime_of_unconcerned {t : TimerSupportModule} {r : Row} (ht : Chronicle t.evlist)
    (hduration : 0 < t.duration) (hconcerns : (eventOf r).concerns g = false) :
    (t.addEvent (eventOf r)).contestEndTime g = t.contestEndTime g := by
  apply contestEndTime_congr ht (Chronicle.addRow ht r) _ rfl hduration.le
  exact fun time _ => statusAt_addRow_of_unconcerned ht hconcerns time

end

section

variable {s : State} {now : Int} {r : Row} {g : Nat} {added : Bool}

def afterSchedule (s : State) (now : Int) (r : Row) : State :=
  { s with
    timer := s.timer.addEvent (eventOf r)
    message := .working (startStopOps now (s.timer.addEvent (eventOf r)) s.groups r) }

theorem extends_afterSchedule (hops : ops s = []) : Extends s (afterSchedule s now r) :=
  .of_idle hops rfl rfl rfl rfl rfl

theorem queued_afterSchedule (hfuture : now < (r.2.2 : Int)) : Queued (afterSchedule s now r) r.2.2 :=
  .inr (mem_startStopOps.mpr (.inl ⟨hfuture, rfl⟩))

theorem update_afterSchedule (hpast : (r.2.2 : Int) ≤ now) (hg : g ∈ s.groups) :
    .updateGroupState g now ∈ ops (afterSchedule s now r) :=
  mem_startStopOps.mpr (.inr (.inl ⟨hpast, g, hg, rfl⟩))

theorem Kept.covered_end (h : Kept s) (hops : ops s = []) (hg : g ∈ s.groups)
    (hpositive : 0 < (s.timer.addEvent (eventOf r)).contestEndTime g) :
    Covered (afterSchedule s now r) g ((s.timer.addEvent (eventOf r)).contestEndTime g) := by
  have hold : ∀ {time}, 0 < time → s.timer.contestEndTime g = time → Covered (afterSchedule s now r) g time :=
    fun htime hend => (extends_afterSchedule hops).covered hg (h.covered g hg _ htime (.inr hend))
  cases hconcerns : (eventOf r).concerns g with
  | false => exact hold hpositive (contestEndTime_of_unconcerned h.chronicle h.duration hconcerns).symm
  | true =>
    rcases lt_or_ge now ((s.timer.addEvent (eventOf r)).contestEndTime g) with hahead | hover
    · rcases mem_endTimes [] hg (concerns_eventOf.mp hconcerns) hahead with hmem | hmem
      · cases hmem
      · exact .queued (.inr (mem_startStopOps.mpr (.inr (.inr ⟨_, hmem, rfl⟩))))
    · rcases lt_or_ge now r.2.2 with hfuture | hpast
      · exact hold hpositive (contestEndTime_of_lt h.chronicle h.duration hpositive (Int.lt_of_le_of_lt hover hfuture))
      · exact .update now (update_afterSchedule hpast hg) hover

theorem Kept.covered_afterSchedule (h : Kept s) (hops : ops s = []) (hg : g ∈ s.groups) (htime : 0 < time)
    (hjump : Jump (s.timer.addEvent (eventOf r)) g time) : Covered (afterSchedule s now r) g time := by
  rcases hjump with ⟨e, he, hconcerns, rfl⟩ | rfl
  · rcases mem_addEvent.mp he with rfl | he
    · rcases lt_or_ge now r.2.2 with hfuture | hpast
      · exact .queued (queued_afterSchedule hfuture)
      · exact .update now (update_afterSchedule hpast hg) hpast
    · exact (extends_afterSchedule hops).covered hg (h.covered g hg _ htime (.inl ⟨e, he, hconcerns, rfl⟩))
  · exact h.covered_end hops hg htime

theorem Kept.tracked_afterSchedule (h : Kept s) (hops : ops s = []) (hg : g ∈ s.groups) :
    Tracked (afterSchedule s now r) g := by
  rcases lt_or_ge now r.2.2 with hfuture | hpast
  · refine (extends_afterSchedule hops).tracked hg ?_ (h.tracked g hg)
    rintro ⟨last, hlast, hstate⟩
    rcases lt_or_ge last (eventOf r).time with hbefore | hafter
    · refine .inr (.inr ⟨last, hlast, hstate.trans ?_⟩)
      show some (limitedStatus s.timer g last) = some (limitedStatus (s.timer.addEvent (eventOf r)) g last)
      rw [limitedStatus, limitedStatus, statusAt_addEvent_of_lt hbefore, elapsedAt_addEvent_of_lt hbefore]
      rfl
    · exact .inr (.inl ⟨last, r.2.2, hlast, hafter, .inl (queued_afterSchedule hfuture)⟩)
  · exact .inl (.inl ⟨now, update_afterSchedule hpast hg⟩)

theorem Kept.schedule (h : Kept s) (hmessage : s.message = .scheduling now r) : Kept (afterSchedule s now r) := by
  obtain ⟨hread, hpast⟩ := h.reading now r hmessage
  have hops : ops s = [] := by rw [ops, hmessage]
  refine ⟨h.clock, h.duration, Chronicle.addRow h.chronicle r, nofun, h.last, ?_, h.acting, ?_, ?_,
    fun g hg time htime hjump => h.covered_afterSchedule hops hg htime hjump,
    fun g hg => h.tracked_afterSchedule hops hg⟩
  · intro g time hmem
    rcases mem_startStopOps.mp hmem with ⟨-, heq⟩ | ⟨-, g', -, heq⟩ | ⟨time', -, heq⟩
    · cases heq
    · cases heq
      exact ⟨hread, hpast⟩
    · cases heq
  · rintro time (hpending | hmem)
    · exact h.queued time (.inl hpending)
    · rcases mem_startStopOps.mp hmem with ⟨hfuture, heq⟩ | ⟨-, g', -, heq⟩ | ⟨time', htime', heq⟩
      · cases heq
        omega
      · cases heq
      · cases heq
        exact Int.lt_trans hread (lt_of_mem_endTimes htime')
  · intro e he
    rcases mem_addEvent.mp he with rfl | he
    · rcases lt_or_ge now r.2.2 with hfuture | hover
      · exact .inr (queued_afterSchedule hfuture)
      · exact .inl (hover.trans hpast)
    · rcases h.events e he with hle | hqueue
      · exact .inl hle
      · rcases (extends_afterSchedule hops).queued e.time hqueue with hqueue | ⟨hle, -⟩
        · exact .inr hqueue
        · exact .inl hle

def afterCreate (s : State) (g : Nat) (added : Bool) : State :=
  { s with groups := if added then s.groups ++ [g] else s.groups, message := .working [.updateNow g] }

theorem mem_groups_afterCreate {g' : Nat} (hg' : g' ∈ (afterCreate s g added).groups) :
    g' ∈ s.groups ∨ added = true ∧ g' = g := by
  unfold afterCreate at hg'
  cases added with
  | false => exact .inl hg'
  | true => simpa using hg'

theorem Kept.create (h : Kept s) (hmessage : s.message = .creating g added)
    (hend : added = true → s.timer.contestEndTime g ≤ s.now ∨ s.timer.contestEndTime g ∈ s.pending) :
    Kept (afterCreate s g added) := by
  have hops : ops s = [] := by rw [ops, hmessage]
  have hext : Extends s (afterCreate s g added) := .of_idle hops rfl rfl rfl rfl rfl
  have hnow : .updateNow g ∈ ops (afterCreate s g added) := .head []
  have hqueued : ∀ time, Queued (afterCreate s g added) time ↔ Queued s time := by
    intro time
    rw [Queued, Queued, hops]
    simp [ops, afterCreate]
  refine ⟨h.clock, h.duration, h.chronicle, nofun, h.last, ?_, h.acting,
    fun time hqueue => h.queued time ((hqueued time).mp hqueue),
    fun e he => (h.events e he).imp id (hqueued _).mpr, ?_, ?_⟩
  · intro g' time hmem
    cases List.mem_singleton.mp hmem
  · intro g' hg' time htime hjump
    rcases mem_groups_afterCreate hg' with hg' | ⟨hadded, rfl⟩
    · exact hext.covered hg' (h.covered g' hg' time htime hjump)
    · rcases hjump with ⟨e, he, -, rfl⟩ | rfl
      · rcases h.events e he with hpast | hqueue
        · exact .updateNow hnow hpast
        · exact .queued ((hqueued _).mpr hqueue)
      · rcases hend hadded with hpast | hpending
        · exact .updateNow hnow hpast
        · exact .queued (.inl hpending)
  · intro g' hg'
    rcases mem_groups_afterCreate hg' with hg' | ⟨-, rfl⟩
    · exact hext.tracked hg' (fun hright => .inr (.inr hright)) (h.tracked g' hg')
    · exact .inl (.inr hnow)

end

theorem getElem?_foldl_insert {α : Type} (f : Nat → α) (groups : List Nat) (t : Table Nat α) (g : Nat) :
    (groups.foldl (fun t g => t.insert g (f g)) t)[g]? = if g ∈ groups then some (f g) else t[g]? := by
  induction groups generalizing t with
  | nil => simp
  | cons g' groups ih =>
    rw [List.foldl_cons, ih, Table.getElem?_insert_row]
    by_cases hg : g ∈ groups
    · simp [hg]
    · by_cases heq : g' = g
      · simp [heq]
      · simp [hg, heq, Ne.symm heq]

theorem Kept.initialise {timer : TimerSupportModule} {groups : List Nat} (hnow : 0 < now)
    (hduration : 0 < timer.duration) (hchronicle : Chronicle timer.evlist) : Kept (initialise now timer groups) := by
  have hlast : ∀ g : Nat,
      (groups.foldl (fun t g => t.insert g now) (∅ : Table Nat Int))[g]? = if g ∈ groups then some now else none := by
    intro g
    rw [getElem?_foldl_insert (fun _ => now)]
    simp
  have hpending : ∀ {time}, time ∈ (GroupState.initialise now timer groups).pending ↔
      now < time ∧ ((∃ g ∈ groups, timer.contestEndTime g = time) ∨ ∃ e ∈ timer.evlist, e.time = time) := by
    intro time
    simp only [GroupState.initialise, List.mem_append, List.mem_filter, List.mem_map, decide_eq_true_eq]
    constructor
    · rintro (⟨hmem, hlt⟩ | ⟨hmem, hlt⟩)
      · exact ⟨hlt, .inl hmem⟩
      · exact ⟨hlt, .inr hmem⟩
    · rintro ⟨hlt, hmem | hmem⟩
      · exact .inl ⟨hmem, hlt⟩
      · exact .inr ⟨hmem, hlt⟩
  refine ⟨hnow, hduration, hchronicle, nofun, ?_, nofun, nofun, ?_, ?_, ?_, ?_⟩
  · intro g last hg
    have hg : (groups.foldl (fun t g => t.insert g now) (∅ : Table Nat Int))[g]? = some last := hg
    rw [hlast] at hg
    split at hg
    · cases hg
      exact ⟨hnow, Int.le_refl _⟩
    · cases hg
  · rintro time (hmem | hmem)
    · exact Int.lt_trans hnow (hpending.mp hmem).1
    · cases hmem
  · intro e he
    rcases lt_or_ge now e.time with hahead | hpast
    · exact .inr (.inl (hpending.mpr ⟨hahead, .inr ⟨e, he, rfl⟩⟩))
    · exact .inl hpast
  · intro g hg time _ hjump
    rcases lt_or_ge now time with hahead | hpast
    · refine .queued (.inl (hpending.mpr ⟨hahead, ?_⟩))
      rcases hjump with ⟨e, he, -, htime⟩ | htime
      · exact .inr ⟨e, he, htime⟩
      · exact .inl ⟨g, hg, htime⟩
    · exact .settled now ((hlast g).trans (if_pos hg)) hpast
  · intro g hg
    have hg : g ∈ groups := hg
    refine .inr (.inr ⟨now, (hlast g).trans (if_pos hg), ?_⟩)
    show (groups.foldl (fun t g => t.insert g (timer.contestStatus now g now)) (∅ : Table Nat Nat))[g]? = _
    rw [getElem?_foldl_insert (fun g => timer.contestStatus now g now), if_pos hg, contestStatus_eq (by omega)]
    rfl

section

variable {s s' : State}

theorem Kept.stepMessage (h : Kept s) (horderly : Orderly s .message) (hstep : stepMessage s = some s') : Kept s' := by
  unfold GroupState.stepMessage at hstep
  dsimp only [Orderly] at horderly
  split at hstep
  · next now r hmessage =>
    cases hstep
    exact h.schedule hmessage
  · next g added hmessage =>
    cases hstep
    apply h.create hmessage
    rintro rfl
    rw [hmessage] at horderly
    exact horderly
  · cases hstep
  · next g time rest hmessage =>
    cases hstep
    rw [hmessage] at horderly
    have hops : ops s = .updateGroupState g time :: rest := by rw [ops, hmessage]
    apply h.updateGroupState horderly (h.update g time (hops ▸ .head rest))
    · exact nofun
    · intro op hop
      rw [hops] at hop
      exact List.mem_cons.mp hop
    · intro op hop
      rw [hops]
      exact .tail _ hop
    · exact fun x hx => .inr hx
    · exact fun x hx => hx
  · next g rest hmessage =>
    cases hstep
    exact h.updateNow hmessage
  · next time rest hmessage =>
    cases hstep
    exact h.put hmessage

theorem Kept.step (h : Kept s) {l : Label} (horderly : Orderly s l) (hstep : GroupState.step s l = some s') :
    Kept s' := by
  cases l with
  | tick seconds =>
    cases hstep
    exact h.tick seconds
  | startStop r =>
    dsimp only [GroupState.step] at hstep
    split at hstep
    · next hwait =>
      cases hstep
      apply h.begin hwait
      · exact fun ops hworking => by cases hworking
      · rintro now r' ⟨⟩
        rfl
    · cases hstep
  | createGroup g added =>
    dsimp only [GroupState.step] at hstep
    split at hstep
    · next hwait =>
      cases hstep
      apply h.begin hwait.1
      · exact fun ops hworking => by cases hworking
      · exact fun now r hscheduling => by cases hscheduling
    · cases hstep
  | message => exact h.stepMessage horderly hstep
  | take time =>
    dsimp only [GroupState.step] at hstep
    split at hstep
    · next hdue =>
      cases hstep
      exact h.take hdue.1 hdue.2.1 hdue.2.2
    · cases hstep
  | act =>
    dsimp only [GroupState.step] at hstep
    dsimp only [Orderly] at horderly
    split at hstep
    · cases hstep
    · next g time action haction =>
      cases hstep
      rw [haction] at horderly
      apply h.updateGroupState horderly (h.acting g time (haction ▸ .head action))
      · exact fun _ _ _ => rfl
      · exact fun op hop => .inr hop
      · exact fun op hop => hop
      · intro x hx
        rw [haction] at hx
        exact List.mem_cons.mp hx
      · intro x hx
        rw [haction]
        exact .tail _ hx

end

/-- In an orderly run the groups are told the right thing. -/
theorem notified_of_orderly (s : State) (h : machine.Reach Orderly s) : Notified s := by
  have hkept : Kept s := by
    apply h.invariant
    · rintro s ⟨now, timer, groups, hnow, hduration, hchronicle, rfl⟩
      exact Kept.initialise hnow hduration hchronicle
    · exact fun s l s' hs horderly hstep => hs.step horderly hstep
  exact hkept.notified

instance (s : State) (groupId : Nat) (time : Int) : Decidable (InOrder s groupId time) :=
  match h : s.lastUpdate[groupId]? with
  | none => isTrue (by simp [InOrder, h])
  | some last => decidable_of_iff (last ≤ time) (by simp [InOrder, h])

instance (s : State) : (m : Thread) → Decidable (MessageInOrder s m)
  | .creating _ true => inferInstanceAs (Decidable (_ ∨ _))
  | .working (.updateGroupState g time :: _) => inferInstanceAs (Decidable (InOrder s g time))
  | .creating _ false | .scheduling _ _ | .working [] | .working (.updateNow _ :: _)
  | .working (.putTimedAction _ :: _) => isTrue trivial

instance (s : State) : (action : List (Nat × Int)) → Decidable (ActionInOrder s action)
  | (g, time) :: _ => inferInstanceAs (Decidable (InOrder s g time))
  | [] => isTrue trivial

instance (s : State) : (l : Label) → Decidable (Orderly s l)
  | .message => inferInstanceAs (Decidable (MessageInOrder s s.message))
  | .act => inferInstanceAs (Decidable (ActionInOrder s s.action))
  | .tick _ | .startStop _ | .createGroup _ _ | .take _ => isTrue trivial

def shortContest : TimerSupportModule := { evlist := [⟨1000, 0, timerStart⟩], duration := 100, blinds := 0 }

theorem chronicle_shortContest : Chronicle shortContest.evlist where
  sorted := List.pairwise_singleton _ _
  times := by decide
  actions := by
    intro e he
    cases List.mem_singleton.mp he
    exact .inl rfl

/-- A stop for all groups is scheduled ahead of the end and performed late. -/
theorem notified_stop : ∃ s, machine.Reach Orderly s ∧ s.now = 1062 ∧ s.pending = [1100] ∧
    s.groupState[1]? = some timerStop ∧ Notified s := by
  have hplay : ∃ s, play step Orderly (initialise 1050 shortContest [1])
      [.startStop (0, .stop, 1060), .message, .message, .tick 12, .take 1060, .act] = some s ∧
      s.now = 1062 ∧ s.pending = [1100] ∧ s.groupState[1]? = some timerStop := by decide +kernel
  obtain ⟨s, hplay, hnow, hpending, hstate⟩ := hplay
  have hstarted : Started (initialise 1050 shortContest [1]) :=
    ⟨1050, shortContest, [1], by decide, by decide, chronicle_shortContest, rfl⟩
  have hreach : machine.Reach Orderly s := Machine.Reach.play (.init hstarted) hplay
  exact ⟨s, hreach, hnow, hpending, hstate, notified_of_orderly s hreach⟩

theorem not_notified_of_status {s : State} (hmessage : s.message = .working []) (haction : s.action = [])
    (hpending : ∀ time ∈ s.pending, s.now < time) (hgroups : s.groups = [1]) {state : Nat}
    (hstate : s.groupState[1]? = some state) (hstatus : s.timer.contestStatus s.now 1 s.now ≠ state) : ¬Notified s := by
  intro hnotified
  have hsame := hnotified hmessage haction hpending 1 (by simp [hgroups])
  rw [hstate] at hsame
  exact hstatus (Option.some.inj hsame).symm

/-- A group that is created while the contest runs is not told its end. One that is stopped late is left stopped. -/
theorem not_notified_late :
    (∃ s, machine.Reachable s ∧ s.now = 1200 ∧ s.pending = [] ∧ s.groupState[1]? = some timerStart ∧
      s.timer.contestStatus s.now 1 s.now = timerStop ∧ ¬Notified s) ∧
    ∃ s, machine.Reachable s ∧ s.now = 1070 ∧ s.pending = [1100, 1105] ∧ s.groupState[1]? = some timerStop ∧
      s.timer.contestStatus s.now 1 s.now = timerStart ∧ ¬Notified s := by
  have hstarted : ∀ groups, Started (initialise 1050 shortContest groups) := fun groups =>
    ⟨1050, shortContest, groups, by decide, by decide, chronicle_shortContest, rfl⟩
  constructor
  · have hplay : ∃ s, play step (fun _ _ => True) (initialise 1050 shortContest [])
        [.createGroup 1 true, .message, .message, .message, .tick 150] = some s ∧ s.now = 1200 ∧ s.pending = [] ∧
        s.message = .working [] ∧ s.action = [] ∧ s.groups = [1] ∧ s.groupState[1]? = some timerStart ∧
        s.timer.contestStatus s.now 1 s.now = timerStop := by decide +kernel
    obtain ⟨s, hplay, hnow, hpending, hmessage, haction, hgroups, hstate, hstatus⟩ := hplay
    refine ⟨s, Machine.Reach.play (.init (hstarted [])) hplay, hnow, hpending, hstate, hstatus, ?_⟩
    apply not_notified_of_status hmessage haction _ hgroups hstate (by simp [hstatus, timerStart, timerStop])
    simp [hpending]
  · have hplay : ∃ s, play step (fun _ _ => True) (initialise 1050 shortContest [1])
        [.startStop (0, .stop, 1060), .message, .message, .tick 15, .startStop (0, .start, 1065), .message, .message,
          .message, .tick 5, .take 1060, .act] = some s ∧ s.now = 1070 ∧ s.pending = [1100, 1105] ∧
        s.message = .working [] ∧ s.action = [] ∧ s.groups = [1] ∧ s.groupState[1]? = some timerStop ∧
        s.timer.contestStatus s.now 1 s.now = timerStart := by decide +kernel
    obtain ⟨s, hplay, hnow, hpending, hmessage, haction, hgroups, hstate, hstatus⟩ := hplay
    refine ⟨s, Machine.Reach.play (.init (hstarted [1])) hplay, hnow, hpending, hstate, hstatus, ?_⟩
    apply not_notified_of_status hmessage haction _ hgroups hstate (by simp [hstatus, timerStart, timerStop])
    simp [hpending, hnow]

end Abacus.Support.Notification
