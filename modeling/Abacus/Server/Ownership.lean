import Abacus.Server.Waitable

/-! # Who owns a Waitable

A Waitable is at rest in the set, or the selector loop is handing it over, or one worker has it, or it is gone,
as long as the loop does not take it while its worker has not yet asked whether it is finished.
-/

namespace Abacus.Server.Ownership

open Library Waitable

variable {n : Nat}

def Grouped : List Ref → Prop
  | [] => True
  | w :: rest => (w ∈ rest → rest.head? = some w) ∧ Grouped rest

variable {active rest : List Ref} {w : Ref}

theorem grouped_append_replicate (h : Grouped active) (hw : w ∉ active) (m : Nat) :
    Grouped (active ++ List.replicate m w) := by
  induction active with
  | nil =>
    induction m with
    | zero => trivial
    | succ m ih =>
      refine ⟨fun hmem => ?_, ih⟩
      cases m with
      | zero => cases hmem
      | succ m => rfl
  | cons v rest ih =>
    obtain ⟨hhead, hrest⟩ := h
    refine ⟨fun hmem => ?_, ih hrest fun hm => hw (.tail v hm)⟩
    have hne : v ≠ w := fun heq => hw (heq ▸ .head rest)
    have hv : v ∈ rest := by simpa [List.mem_replicate, hne] using hmem
    show (rest ++ List.replicate m w).head? = some v
    rw [List.head?_append, hhead hv]
    rfl

theorem mem_of_mem_signalled {last : Option Ref} {active : List (Ref × Bool)}
    (h : w ∈ signalled last active) : w ∈ active.map Prod.fst := by
  induction active generalizing last with
  | nil => cases h
  | cons entry rest ih =>
    rw [signalled] at h
    split at h
    · cases h with
      | head => exact .head _
      | tail _ h => exact .tail _ (ih h)
    · exact .tail _ (ih h)

/-- The loop takes a Waitable once, since it skips the copies that follow. -/
theorem nodup_signalled {last : Option Ref} {active : List (Ref × Bool)} (h : Grouped (active.map Prod.fst))
    (hlast : ∀ u, last = some u → u ∈ active.map Prod.fst → (active.map Prod.fst).head? = some u) :
    (signalled last active).Nodup ∧ ∀ u, last = some u → u ∉ signalled last active := by
  induction active generalizing last with
  | nil => exact ⟨.nil, fun _ _ hu => nomatch hu⟩
  | cons entry rest ih =>
    obtain ⟨w, activity⟩ := entry
    obtain ⟨hhead, hrest⟩ := h
    rw [signalled]
    split
    · next htake =>
      have hcopies : ∀ u, some w = some u → u ∈ rest.map Prod.fst → (rest.map Prod.fst).head? = some u := by
        intro u hu hmem
        cases hu
        exact hhead hmem
      obtain ⟨hnodup, hw⟩ := ih hrest hcopies
      refine ⟨List.nodup_cons.mpr ⟨hw w rfl, hnodup⟩, fun u hu hmem => htake.1 ?_⟩
      have hin : u ∈ w :: rest.map Prod.fst := by
        cases hmem with
        | head => exact .head _
        | tail _ hmem => exact .tail _ (mem_of_mem_signalled hmem)
      exact (hlast u hu hin).trans hu.symm
    · refine ih hrest fun u hu hmem => ?_
      have heq : w = u := Option.some.inj (hlast u hu (.tail _ hmem))
      exact heq ▸ hhead (heq ▸ hmem)

def hand : Selector → Option Ref
  | .handing w _ => some w
  | _ => none

def pending : Selector → List Ref
  | .ready => []
  | .collecting _ active | .polling active => active
  | .dispatching rest | .handing _ rest => rest

def upcoming : Selector → Option Worker
  | .dispatching (w :: _) => some (.published w)
  | _ => none

def Orderly (waitables : List Ref) : Selector → Prop
  | .ready => True
  | .collecting rest active =>
    rest.Nodup ∧ Grouped active ∧ ∀ w ∈ rest, w ∉ active ∧ w ∈ waitables
  | .polling active => Grouped active
  | .dispatching rest | .handing _ rest => rest.Nodup

/-- What is true of the Waitable a worker has, by how far the worker is. -/
def Stage (s : State n) : Worker → Prop
  | .idle | .leaving => True
  | .assigned w | .processing w => w ∈ s.waitables ∧ s.events w = [] ∧ s.closed w = false
  | .returned w newEvents => w ∈ s.waitables ∧ s.events w = [] ∧ s.closed w = newEvents.isEmpty
  | .published w => w ∈ s.waitables ∧ s.closed w = (s.events w).isEmpty
  | .finished w => w ∈ s.waitables ∧ s.events w = [] ∧ s.closed w = true
  | .removed w => w ∉ s.waitables ∧ w < s.next ∧ s.closed w = true ∧ s.deletions w = 0

def Unheld (s : State n) (w : Ref) : Prop := ∀ k, (s.workers k).on ≠ some w

structure Staged (s : State n) : Prop where
  holder : ∀ j k w, (s.workers j).on = some w → (s.workers k).on = some w → j = k
  stage : ∀ k, Stage s (s.workers k)
  handed : ∀ w, hand s.selector = some w →
    w ∈ s.waitables ∧ s.events w = [] ∧ s.closed w = false ∧ Unheld s w
  pending : ∀ w ∈ pending s.selector, w ∈ s.waitables ∧ s.events w ≠ []
  orderly : Orderly s.waitables s.selector
  resting : ∀ w ∈ s.waitables, hand s.selector ≠ some w → Unheld s w → s.events w ≠ [] ∧ s.closed w = false
  nodup : s.waitables.Nodup
  member : ∀ w ∈ s.waitables, w < s.next ∧ s.deletions w = 0
  gone : ∀ w < s.next, w ∉ s.waitables → Unheld s w → s.closed w = true ∧ s.deletions w = 1
  fresh : ∀ w, s.next ≤ w → s.closed w = false ∧ s.deletions w = 0 ∧ Unheld s w

/-- The loop does not take the Waitable of a worker that is about to ask whether it is finished. -/
def Prompt (s : State n) (l : Label n) : Prop :=
  l = .preprocess → ∀ k, upcoming s.selector ≠ s.workers k

theorem staged_start : Staged (start n) where
  holder := by
    intro j k w hj
    cases hj
  stage _ := trivial
  handed := by
    intro w hw
    cases hw
  pending := by
    intro w hw
    cases hw
  orderly := trivial
  resting := by
    intro w hw
    cases hw
  nodup := .nil
  member := by
    intro w hw
    cases hw
  gone := by
    intro w hw
    cases hw
  fresh _ _ := ⟨rfl, rfl, fun _ h => nomatch h⟩

variable {s s' : State n} {k : Fin n}

theorem Staged.published_of_events (h : Staged s) (hw : w ∈ s.waitables) (hevents : s.events w ≠ [])
    (hk : (s.workers k).on = some w) : s.workers k = .published w := by
  have hstage := h.stage k
  cases hworker : s.workers k with
  | idle | leaving => rw [hworker] at hk; cases hk
  | published v => rw [hworker] at hk; cases hk; rfl
  | removed v =>
    rw [hworker] at hk hstage
    cases hk
    exact absurd hw hstage.1
  | assigned v | processing v | returned v newEvents | finished v =>
    rw [hworker] at hk hstage
    cases hk
    exact absurd hstage.2.1 hevents

structure Agree (s s' : State n) (w : Ref) : Prop where
  events : s'.events w = s.events w
  closed : s'.closed w = s.closed w
  deletions : s'.deletions w = s.deletions w
  waitables : w ∈ s'.waitables ↔ w ∈ s.waitables
  next : s.next ≤ s'.next

variable {c : Worker}

theorem Agree.stage (hagree : ∀ w, c.on = some w → Agree s s' w) (h : Stage s c) : Stage s' c := by
  cases c with
  | idle | leaving => trivial
  | assigned w | processing w | returned w newEvents | finished w =>
    have ha := hagree w rfl
    obtain ⟨hmem, hevents, hclosed⟩ := h
    exact ⟨ha.waitables.mpr hmem, ha.events.trans hevents, ha.closed.trans hclosed⟩
  | published w =>
    have ha := hagree w rfl
    refine ⟨ha.waitables.mpr h.1, ?_⟩
    rw [ha.closed, ha.events, h.2]
  | removed w =>
    have ha := hagree w rfl
    obtain ⟨hmem, hnext, hclosed, hdeletions⟩ := h
    exact ⟨fun hw => hmem (ha.waitables.mp hw), Nat.lt_of_lt_of_le hnext ha.next, ha.closed.trans hclosed,
      ha.deletions.trans hdeletions⟩

/-! ### Steps of the selector loop -/

theorem Staged.of_selector (h : Staged s) {selector : Selector} (hold : hand s.selector = none)
    (hnew : hand selector = none)
    (hpending : ∀ w ∈ Ownership.pending selector, w ∈ s.waitables ∧ s.events w ≠ [])
    (horderly : Orderly s.waitables selector) : Staged { s with selector := selector } where
  holder := h.holder
  stage := h.stage
  handed w hw := by
    rw [hnew] at hw
    cases hw
  pending := hpending
  orderly := horderly
  resting w hw _ hfree := by
    apply h.resting w hw _ hfree
    rw [hold]
    exact Option.some_ne_none w |>.symm
  nodup := h.nodup
  member := h.member
  gone := h.gone
  fresh := h.fresh

theorem Staged.of_ready (h : Staged s) (hold : hand s.selector = none) : Staged { s with selector := .ready } := by
  apply h.of_selector hold rfl
  · intro w hw
    cases hw
  · trivial

theorem Staged.collectNext (h : Staged s) (hsel : s.selector = .collecting (w :: rest) active) :
    Staged { s with selector := .collecting rest (active ++ List.replicate (s.events w).length w) } := by
  have hpending := h.pending
  have horderly := h.orderly
  rw [hsel] at hpending horderly
  obtain ⟨hnodup, hgrouped, hrest⟩ := horderly
  obtain ⟨hw, hnodup⟩ := List.nodup_cons.mp hnodup
  apply h.of_selector (by rw [hsel]; rfl) rfl
  · intro v hv
    rcases List.mem_append.mp hv with hv | hv
    · exact hpending v hv
    · obtain ⟨hlength, rfl⟩ := List.mem_replicate.mp hv
      exact ⟨(hrest v (.head rest)).2, fun hnil => hlength (by rw [hnil]; rfl)⟩
  · refine ⟨hnodup, grouped_append_replicate hgrouped (hrest w (.head rest)).1 _, ?_⟩
    intro v hv
    refine ⟨fun hmem => ?_, (hrest v (.tail w hv)).2⟩
    rcases List.mem_append.mp hmem with hmem | hmem
    · exact (hrest v (.tail w hv)).1 hmem
    · obtain ⟨-, rfl⟩ := List.mem_replicate.mp hmem
      exact hw hv

theorem Staged.poll (h : Staged s) {revents : List Bool} (hsel : s.selector = .polling active)
    (hlength : revents.length = active.length) :
    Staged { s with selector := .dispatching (signalled none (active.zip revents)) } := by
  have hfst : (active.zip revents).map Prod.fst = active := List.map_fst_zip (Nat.le_of_eq hlength.symm)
  have hpending := h.pending
  have horderly := h.orderly
  rw [hsel] at hpending horderly
  apply h.of_selector (by rw [hsel]; rfl) rfl
  · intro w hw
    exact hpending w (hfst ▸ mem_of_mem_signalled hw)
  · have hgrouped : Grouped ((active.zip revents).map Prod.fst) := hfst.symm ▸ horderly
    refine (nodup_signalled hgrouped fun u hu => ?_).1
    cases hu

theorem Staged.preprocess (h : Staged s) (hsel : s.selector = .dispatching (w :: rest))
    (hprompt : ∀ k, s.workers k ≠ .published w) :
    Staged { s with events := Function.update s.events w [], selector := .handing w rest } := by
  have hpending := h.pending
  have horderly := h.orderly
  have hresting := h.resting
  rw [hsel] at hpending horderly hresting
  obtain ⟨hw, hevents⟩ := hpending w (.head rest)
  obtain ⟨hnotin, hnodup⟩ := List.nodup_cons.mp horderly
  -- a worker that still has the Waitable would have set its events
  have hfree : Unheld s w := fun k hk => hprompt k (h.published_of_events hw hevents hk)
  have hother : ∀ v, v ≠ w → Function.update s.events w [] v = s.events v :=
    fun v hv => Function.update_of_ne hv [] s.events
  constructor
  case holder => exact h.holder
  case stage =>
    intro k
    apply Agree.stage _ (h.stage k)
    intro v hv
    exact ⟨hother v fun heq => hfree k (heq ▸ hv), rfl, rfl, Iff.rfl, Nat.le_refl _⟩
  case handed =>
    rintro v hv
    cases hv
    exact ⟨hw, Function.update_self .., (hresting w hw (Option.some_ne_none w).symm hfree).2, hfree⟩
  case pending =>
    intro v hv
    obtain ⟨hmem, hne⟩ := hpending v (.tail w hv)
    exact ⟨hmem, fun hnil => hne ((hother v fun heq => hnotin (heq ▸ hv)).symm.trans hnil)⟩
  case orderly => exact hnodup
  case resting =>
    intro v hv hhand hunheld
    have hne : v ≠ w := fun heq => hhand (heq ▸ rfl)
    obtain ⟨hevents, hclosed⟩ := hresting v hv (Option.some_ne_none v).symm hunheld
    exact ⟨fun hnil => hevents ((hother v hne).symm.trans hnil), hclosed⟩
  case nodup => exact h.nodup
  case member => exact h.member
  case gone => exact h.gone
  case fresh => exact h.fresh

theorem Staged.handOver (h : Staged s) (hsel : s.selector = .handing w rest)
    (hk : s.workers k = .idle) :
    Staged { setWorker s k (.assigned w) with selector := .dispatching rest } := by
  have hpending := h.pending
  have horderly := h.orderly
  have hresting := h.resting
  have hhanded := h.handed
  rw [hsel] at hpending horderly hresting hhanded
  obtain ⟨hw, hevents, hclosed, hfree⟩ := hhanded w rfl
  have hself : (setWorker s k (.assigned w)).workers k = .assigned w := Function.update_self ..
  have hother : ∀ j, j ≠ k → (setWorker s k (.assigned w)).workers j = s.workers j :=
    fun j hj => Function.update_of_ne hj ..
  -- the new holder is the only worker that has anything more than before
  have hon : ∀ {j v}, ((setWorker s k (.assigned w)).workers j).on = some v →
      (j = k ∧ v = w) ∨ (j ≠ k ∧ (s.workers j).on = some v) := by
    intro j v hj
    by_cases heq : j = k
    · subst heq
      rw [hself] at hj
      exact .inl ⟨rfl, (Option.some.inj hj).symm⟩
    · rw [hother j heq] at hj
      exact .inr ⟨heq, hj⟩
  have hunheld : ∀ v, Unheld (setWorker s k (.assigned w)) v → Unheld s v ∧ v ≠ w := by
    intro v hv
    constructor
    · intro j hj
      have hne : j ≠ k := fun heq => by rw [heq, hk] at hj; cases hj
      exact hv j (by rw [hother j hne]; exact hj)
    · intro heq
      exact hv k (by rw [hself, heq]; rfl)
  constructor
  case holder =>
    intro i j v hi hj
    rcases hon hi with ⟨hik, hiw⟩ | ⟨-, hi⟩ <;> rcases hon hj with ⟨hjk, hjw⟩ | ⟨-, hj⟩
    · exact hik.trans hjk.symm
    · exact absurd (hiw ▸ hj) (hfree j)
    · exact absurd (hjw ▸ hi) (hfree i)
    · exact h.holder i j v hi hj
  case stage =>
    intro j
    show Stage _ ((setWorker s k (.assigned w)).workers j)
    by_cases heq : j = k
    · rw [heq, hself]
      exact ⟨hw, hevents, hclosed⟩
    · rw [hother j heq]
      exact Agree.stage (fun v _ => ⟨rfl, rfl, rfl, Iff.rfl, Nat.le_refl _⟩) (h.stage j)
  case handed =>
    intro v hv
    cases hv
  case pending => exact hpending
  case orderly => exact horderly
  case resting =>
    intro v hv _ hfree'
    obtain ⟨hunheld, hne⟩ := hunheld v hfree'
    exact hresting v hv (fun heq => hne (Option.some.inj heq).symm) hunheld
  case nodup => exact h.nodup
  case member => exact h.member
  case gone =>
    intro v hv hmem hfree'
    exact h.gone v hv hmem (hunheld v hfree').1
  case fresh =>
    intro v hv
    obtain ⟨hclosed, hdeletions, hunheld⟩ := h.fresh v hv
    refine ⟨hclosed, hdeletions, fun j hj => ?_⟩
    rcases hon hj with ⟨rfl, rfl⟩ | ⟨-, hj⟩
    · exact Nat.not_lt.mpr hv (h.member v hw).1
    · exact hunheld j hj

theorem Staged.add (h : Staged s) {events : List PollFd} (hlock : s.selector.holdsLock = false)
    (hevents : events ≠ []) : Staged { s with
      events := Function.update s.events s.next events
      waitables := s.waitables ++ [s.next]
      next := s.next + 1 } := by
  have hold : ∀ {v}, v ∈ s.waitables → v ≠ s.next := fun hv => Nat.ne_of_lt (h.member _ hv).1
  have hother : ∀ v, v ≠ s.next → Function.update s.events s.next events v = s.events v :=
    fun v hv => Function.update_of_ne hv ..
  have hmem : ∀ {v}, v ∈ s.waitables ++ [s.next] ↔ v ∈ s.waitables ∨ v = s.next := by
    intro v
    rw [List.mem_append, List.mem_singleton]
  obtain ⟨hclosed, hdeletions, hunheld⟩ := h.fresh s.next (Nat.le_refl _)
  constructor
  case holder => exact h.holder
  case stage =>
    intro k
    apply Agree.stage _ (h.stage k)
    intro v hv
    have hne : v ≠ s.next := fun heq => hunheld k (heq ▸ hv)
    exact ⟨hother v hne, rfl, rfl, hmem.trans (or_iff_left hne), Nat.le_succ _⟩
  case handed =>
    intro v hv
    obtain ⟨hin, hnil, hopen, hfree⟩ := h.handed v hv
    exact ⟨hmem.mpr (.inl hin), (hother v (hold hin)).trans hnil, hopen, hfree⟩
  case pending =>
    intro v hv
    obtain ⟨hin, hne⟩ := h.pending v hv
    exact ⟨hmem.mpr (.inl hin), fun hnil => hne ((hother v (hold hin)).symm.trans hnil)⟩
  case orderly =>
    have horderly := h.orderly
    revert hlock horderly
    show s.selector.holdsLock = false → Orderly s.waitables s.selector → Orderly (s.waitables ++ [s.next]) s.selector
    intro hlock horderly
    cases hsel : s.selector with
    | collecting => rw [hsel] at hlock; cases hlock
    | ready | polling | dispatching | handing => rwa [hsel] at horderly
  case resting =>
    intro v hv hhand hfree
    by_cases heq : v = s.next
    · subst heq
      refine ⟨fun hnil => hevents ?_, hclosed⟩
      exact (Function.update_self s.next events s.events).symm.trans hnil
    · obtain ⟨hne, hopen⟩ := h.resting v ((hmem.mp hv).resolve_right heq) hhand hfree
      exact ⟨fun hnil => hne ((hother v heq).symm.trans hnil), hopen⟩
  case nodup =>
    apply List.nodup_append.mpr
    refine ⟨h.nodup, List.pairwise_singleton .., fun v hv u hu => ?_⟩
    rw [List.mem_singleton.mp hu]
    exact hold hv
  case member =>
    intro v hv
    rcases hmem.mp hv with hv | rfl
    · exact ⟨Nat.lt_succ_of_lt (h.member v hv).1, (h.member v hv).2⟩
    · exact ⟨Nat.lt_succ_self _, hdeletions⟩
  case gone =>
    intro v hv hnot hfree
    have hne : v ≠ s.next := fun heq => hnot (hmem.mpr (.inr heq))
    exact h.gone v (Nat.lt_of_le_of_ne (Nat.le_of_lt_succ hv) hne) (fun hin => hnot (hmem.mpr (.inl hin))) hfree
  case fresh =>
    intro v hv
    exact h.fresh v (Nat.le_of_succ_le hv)

/-! ### Steps of a worker -/

structure Handled (s s' : State n) (k : Fin n) (w : Ref) (c : Worker) : Prop where
  workers : s'.workers = Function.update s.workers k c := by rfl
  selector : s'.selector = s.selector := by rfl
  next : s'.next = s.next := by rfl
  agree : ∀ v, v ≠ w → Agree s s' v
  keeps : ∀ v, c.on = some v → v = w
  stage : Stage s' c
  pending : w ∈ pending s.selector → w ∈ s'.waitables ∧ s'.events w ≠ []
  orderly : Orderly s'.waitables s.selector
  nodup : s'.waitables.Nodup
  member : w ∈ s'.waitables → s'.deletions w = 0
  -- the worker gives the Waitable back, or it is gone
  released : c.on = none →
    w ∈ s'.waitables ∧ s'.events w ≠ [] ∧ s'.closed w = false ∨
    w ∉ s'.waitables ∧ s'.closed w = true ∧ s'.deletions w = 1

section

variable {k : Fin n} {w : Ref} {c : Worker} (hh : Handled s s' k w c)

include hh

theorem Handled.worker : s'.workers k = c := by
  rw [hh.workers]
  exact Function.update_self ..

theorem Handled.other {j : Fin n} (hj : j ≠ k) : s'.workers j = s.workers j := by
  rw [hh.workers]
  exact Function.update_of_ne hj ..

theorem Handled.on_before (hk : (s.workers k).on = some w) {j : Fin n} {v : Ref} (hj : (s'.workers j).on = some v) :
    (s.workers j).on = some v := by
  by_cases heq : j = k
  · rw [heq, hh.worker] at hj
    rw [heq, hh.keeps v hj]
    exact hk
  · rwa [hh.other heq] at hj

theorem Handled.unheld_before (hk : (s.workers k).on = some w) {v : Ref} (hv : v ≠ w) (hfree : Unheld s' v) :
    Unheld s v := by
  intro j hj
  have hne : j ≠ k := by
    rintro rfl
    rw [hk] at hj
    exact hv (Option.some.inj hj).symm
  exact hfree j (by rw [hh.other hne]; exact hj)

theorem Handled.given_up (hfree : Unheld s' w) : c.on = none := by
  cases hc : c.on with
  | none => rfl
  | some v => exact absurd (hh.worker ▸ hh.keeps v hc ▸ hc) (hfree k)

end

theorem Staged.of_handled (h : Staged s) (c : Worker) (hk : (s.workers k).on = some w)
    (hh : Handled s s' k w c) : Staged s' := by
  have hnext : w < s.next := by
    apply Nat.lt_of_not_le
    intro hle
    exact (h.fresh w hle).2.2 k hk
  constructor
  case holder =>
    intro i j v hi hj
    exact h.holder i j v (hh.on_before hk hi) (hh.on_before hk hj)
  case stage =>
    intro j
    by_cases heq : j = k
    · rw [heq, hh.worker]
      exact hh.stage
    · rw [hh.other heq]
      apply Agree.stage _ (h.stage j)
      intro v hv
      apply hh.agree
      rintro rfl
      exact heq (h.holder j k v hv hk)
  case handed =>
    intro v hv
    rw [hh.selector] at hv
    obtain ⟨hmem, hevents, hclosed, hfree⟩ := h.handed v hv
    have ha := hh.agree v fun heq => hfree k (heq ▸ hk)
    refine ⟨ha.waitables.mpr hmem, ha.events.trans hevents, ha.closed.trans hclosed, fun j hj => ?_⟩
    exact hfree j (hh.on_before hk hj)
  case pending =>
    intro v hv
    rw [hh.selector] at hv
    by_cases heq : v = w
    · exact heq ▸ hh.pending (heq ▸ hv)
    · have ha := hh.agree v heq
      rw [ha.waitables, ha.events]
      exact h.pending v hv
  case orderly =>
    rw [hh.selector]
    exact hh.orderly
  case resting =>
    intro v hv hhand hfree
    by_cases heq : v = w
    · subst heq
      rcases hh.released (hh.given_up hfree) with ⟨-, hrests⟩ | ⟨hgone, -⟩
      · exact hrests
      · exact absurd hv hgone
    · have ha := hh.agree v heq
      rw [ha.events, ha.closed]
      exact h.resting v (ha.waitables.mp hv) (hh.selector ▸ hhand) (hh.unheld_before hk heq hfree)
  case nodup => exact hh.nodup
  case member =>
    intro v hv
    rw [hh.next]
    by_cases heq : v = w
    · subst heq
      exact ⟨hnext, hh.member hv⟩
    · have ha := hh.agree v heq
      rw [ha.deletions]
      exact h.member v (ha.waitables.mp hv)
  case gone =>
    intro v hv hmem hfree
    rw [hh.next] at hv
    by_cases heq : v = w
    · subst heq
      rcases hh.released (hh.given_up hfree) with ⟨hin, -⟩ | ⟨-, hgone⟩
      · exact absurd hin hmem
      · exact hgone
    · have ha := hh.agree v heq
      rw [ha.closed, ha.deletions]
      exact h.gone v hv (fun hmem' => hmem (ha.waitables.mpr hmem')) (hh.unheld_before hk heq hfree)
  case fresh =>
    intro v hv
    rw [hh.next] at hv
    have hne : v ≠ w := fun heq => Nat.not_le.mpr hnext (heq ▸ hv)
    have ha := hh.agree v hne
    obtain ⟨hclosed, hdeletions, hunheld⟩ := h.fresh v hv
    exact ⟨ha.closed.trans hclosed, ha.deletions.trans hdeletions, fun j hj => hunheld j (hh.on_before hk hj)⟩

theorem Agree.refl (w : Ref) : Agree s (setWorker s k c) w := ⟨rfl, rfl, rfl, Iff.rfl, Nat.le_refl _⟩

theorem Staged.dequeue (h : Staged s) (hk : s.workers k = .assigned w) :
    Staged (setWorker s k (.processing w)) := by
  have hstage := h.stage k
  rw [hk] at hstage
  refine h.of_handled (.processing w) (by rw [hk]; rfl) {
    agree := fun v _ => Agree.refl v
    keeps := ?_
    stage := hstage
    pending := h.pending w
    orderly := h.orderly
    nodup := h.nodup
    member := fun hw => (h.member w hw).2
    released := ?_ }
  · rintro v ⟨⟩
    rfl
  · rintro ⟨⟩

theorem Staged.intProcess (h : Staged s) (newEvents : List PollFd)
    (hk : s.workers k = .processing w) :
    Staged { setWorker s k (.returned w newEvents) with
      closed := Function.update s.closed w (s.closed w || newEvents.isEmpty) } := by
  have hstage := h.stage k
  rw [hk] at hstage
  obtain ⟨hw, hevents, hclosed⟩ := hstage
  refine h.of_handled (.returned w newEvents) (by rw [hk]; rfl) {
    agree := fun v hv => ⟨rfl, Function.update_of_ne hv .., rfl, Iff.rfl, Nat.le_refl _⟩
    keeps := ?_
    stage := ⟨hw, hevents, ?_⟩
    pending := h.pending w
    orderly := h.orderly
    nodup := h.nodup
    member := fun hw => (h.member w hw).2
    released := ?_ }
  · rintro v ⟨⟩
    rfl
  · show Function.update s.closed w (s.closed w || newEvents.isEmpty) w = newEvents.isEmpty
    rw [Function.update_self, hclosed, Bool.false_or]
  · rintro ⟨⟩

theorem Staged.setEvents (h : Staged s) {newEvents : List PollFd}
    (hk : s.workers k = .returned w newEvents) :
    Staged { setWorker s k (.published w) with events := Function.update s.events w newEvents } := by
  have hstage := h.stage k
  rw [hk] at hstage
  obtain ⟨hw, hevents, hclosed⟩ := hstage
  refine h.of_handled (.published w) (by rw [hk]; rfl) {
    agree := fun v hv => ⟨Function.update_of_ne hv .., rfl, rfl, Iff.rfl, Nat.le_refl _⟩
    keeps := ?_
    stage := ⟨hw, ?_⟩
    pending := fun hpending => absurd hevents (h.pending w hpending).2
    orderly := h.orderly
    nodup := h.nodup
    member := fun hw => (h.member w hw).2
    released := ?_ }
  · rintro v ⟨⟩
    rfl
  · show s.closed w = (Function.update s.events w newEvents w).isEmpty
    rw [Function.update_self, hclosed]
  · rintro ⟨⟩

theorem Staged.isFinished (h : Staged s) (hk : s.workers k = .published w) :
    Staged (setWorker s k (if s.events w = [] then .finished w else .leaving)) := by
  have hstage := h.stage k
  rw [hk] at hstage
  obtain ⟨hw, hclosed⟩ := hstage
  refine h.of_handled (if s.events w = [] then .finished w else .leaving) (by rw [hk]; rfl) {
    agree := fun v _ => Agree.refl v
    keeps := ?_
    stage := ?_
    pending := h.pending w
    orderly := h.orderly
    nodup := h.nodup
    member := fun hw => (h.member w hw).2
    released := ?_ }
  · intro v hv
    split at hv
    · exact (Option.some.inj hv).symm
    · cases hv
  · split
    · next hevents => exact ⟨hw, hevents, hclosed.trans (List.isEmpty_iff.mpr hevents)⟩
    · trivial
  · intro hnone
    split at hnone
    · cases hnone
    · next hevents =>
      exact .inl ⟨hw, hevents, hclosed.trans (List.isEmpty_eq_false_iff.mpr hevents)⟩

theorem Staged.remove (h : Staged s) (hk : s.workers k = .finished w)
    (hlock : s.selector.holdsLock = false) :
    Staged { setWorker s k (.removed w) with waitables := s.waitables.filter (· ≠ w) } := by
  have hstage := h.stage k
  rw [hk] at hstage
  obtain ⟨hw, hevents, hclosed⟩ := hstage
  have hgone : w ∉ s.waitables.filter (· ≠ w) := fun hmem => by simpa using (List.mem_filter.mp hmem).2
  refine h.of_handled (.removed w) (by rw [hk]; rfl) {
    agree := fun v hv => ⟨rfl, rfl, rfl, ?_, Nat.le_refl _⟩
    keeps := ?_
    stage := ⟨hgone, (h.member w hw).1, hclosed, (h.member w hw).2⟩
    pending := fun hpending => absurd hevents (h.pending w hpending).2
    orderly := ?_
    nodup := h.nodup.filter _
    member := fun hmem => absurd hmem hgone
    released := ?_ }
  · show v ∈ s.waitables.filter (· ≠ w) ↔ v ∈ s.waitables
    rw [List.mem_filter]
    exact and_iff_left (decide_eq_true hv)
  · rintro v ⟨⟩
    rfl
  · have horderly := h.orderly
    cases hsel : s.selector with
    | collecting => rw [hsel] at hlock; cases hlock
    | ready | polling | dispatching | handing => rwa [hsel] at horderly
  · rintro ⟨⟩

theorem Staged.delete (h : Staged s) (hk : s.workers k = .removed w) :
    Staged { setWorker s k .leaving with
      deletions := Function.update s.deletions w (s.deletions w + 1) } := by
  have hstage := h.stage k
  rw [hk] at hstage
  obtain ⟨hw, -, hclosed, hdeletions⟩ := hstage
  refine h.of_handled .leaving (by rw [hk]; rfl) {
    agree := fun v hv => ⟨rfl, rfl, Function.update_of_ne hv .., Iff.rfl, Nat.le_refl _⟩
    keeps := ?_
    stage := trivial
    pending := h.pending w
    orderly := h.orderly
    nodup := h.nodup
    member := fun hmem => absurd hmem hw
    released := fun _ => ?_ }
  · rintro v ⟨⟩
  · refine .inr ⟨hw, hclosed, ?_⟩
    show Function.update s.deletions w (s.deletions w + 1) w = 1
    rw [Function.update_self, hdeletions]

theorem Staged.workerIdle (h : Staged s) (hk : s.workers k = .leaving) :
    Staged (setWorker s k .idle) := by
  have hon : ∀ j, ((setWorker s k .idle).workers j).on = (s.workers j).on := by
    intro j
    by_cases heq : j = k
    · rw [heq, hk]
      show (Function.update s.workers k .idle k).on = none
      rw [Function.update_self]
      rfl
    · exact congrArg Worker.on (Function.update_of_ne heq ..)
  have hunheld : ∀ w, Unheld (setWorker s k .idle) w ↔ Unheld s w := by
    intro w
    exact forall_congr' fun j => by rw [hon j]
  constructor
  case holder =>
    intro i j w
    rw [hon, hon]
    exact h.holder i j w
  case stage =>
    intro j
    by_cases heq : j = k
    · rw [heq, show (setWorker s k .idle).workers k = .idle from Function.update_self ..]
      trivial
    · rw [show (setWorker s k .idle).workers j = s.workers j from Function.update_of_ne heq ..]
      exact Agree.stage (fun v _ => Agree.refl v) (h.stage j)
  case handed =>
    intro w hw
    rw [hunheld]
    exact h.handed w hw
  case pending => exact h.pending
  case orderly => exact h.orderly
  case resting =>
    intro w hw hhand hfree
    exact h.resting w hw hhand ((hunheld w).mp hfree)
  case nodup => exact h.nodup
  case member => exact h.member
  case gone =>
    intro w hw hmem hfree
    exact h.gone w hw hmem ((hunheld w).mp hfree)
  case fresh =>
    intro w hw
    rw [hunheld]
    exact h.fresh w hw

/-! ### Runs -/

theorem Staged.stepSelector (h : Staged s) {l : Label n} (hprompt : Prompt s l) (hstep : stepSelector s l = some s') :
    Staged s' := by
  have hpending := h.pending
  have horderly := h.orderly
  cases l <;> simp only [Waitable.stepSelector] at hstep <;> try cases hstep
  case collectStart =>
    split at hstep
    · next hsel =>
      cases hstep
      apply h.of_selector (by rw [hsel]; rfl) rfl
      · intro w hw
        cases hw
      · exact ⟨h.nodup, trivial, fun w hw => ⟨List.not_mem_nil, hw⟩⟩
    · cases hstep
  case collectNext =>
    split at hstep
    · next hsel =>
      cases hstep
      exact h.collectNext hsel
    · cases hstep
  case collectEnd =>
    split at hstep
    · next hsel =>
      cases hstep
      rw [hsel] at hpending horderly
      exact h.of_selector (by rw [hsel]; rfl) rfl hpending horderly.2.1
    · cases hstep
  case pollFail =>
    split at hstep
    · next hsel =>
      cases hstep
      exact h.of_ready (by rw [hsel]; rfl)
    · cases hstep
  case poll revents =>
    split at hstep
    · next hsel =>
      split at hstep
      · next hlength =>
        cases hstep
        exact h.poll hsel hlength
      · cases hstep
    · cases hstep
  case preprocess =>
    split at hstep
    · next w rest hsel =>
      cases hstep
      refine h.preprocess hsel fun k hk => hprompt rfl k ?_
      rw [hsel, hk]
      rfl
    · cases hstep
  case handOver k =>
    split at hstep
    · next hsel hk =>
      cases hstep
      exact h.handOver hsel hk
    · cases hstep
  case roundEnd =>
    split at hstep
    · next hsel =>
      cases hstep
      exact h.of_ready (by rw [hsel]; rfl)
    · cases hstep

theorem Staged.stepWorker (h : Staged s) {l : Label n} (hstep : stepWorker s l = some s') : Staged s' := by
  cases l <;> simp only [Waitable.stepWorker] at hstep <;> try cases hstep
  case remove k =>
    split at hstep
    · next hk =>
      split at hstep
      · cases hstep
      · next hlock =>
        cases hstep
        exact h.remove hk (Bool.eq_false_iff.mpr hlock)
    · cases hstep
  case add events =>
    split at hstep
    · cases hstep
    · next hguard =>
      cases hstep
      obtain ⟨hlock, hevents⟩ := not_or.mp hguard
      exact h.add (Bool.eq_false_iff.mpr hlock) hevents
  all_goals
    split at hstep
    · next hk =>
      cases hstep
      first
        | exact h.dequeue hk
        | exact h.intProcess _ hk
        | exact h.setEvents hk
        | exact h.isFinished hk
        | exact h.delete hk
        | exact h.workerIdle hk
    · cases hstep

theorem staged_of_reach (h : (machine n).Reach Prompt s) : Staged s := by
  apply h.invariant
  · rintro s rfl
    exact staged_start
  · intro s l s' hs hprompt hstep
    rcases Option.or_eq_some_iff.mp hstep with hsel | ⟨-, hworker⟩
    · exact hs.stepSelector hprompt hsel
    · exact hs.stepWorker hworker

/-- A Waitable has one worker at a time, and it is deleted once, after an `int_process` that returned no events. -/
structure Owned (s : State n) : Prop where
  single : ∀ j k w, (s.workers j).processes = some w → (s.workers k).processes = some w → j = k
  deleted : ∀ w, 0 < s.deletions w →
    s.deletions w = 1 ∧ s.closed w = true ∧ ∀ k, (s.workers k).processes ≠ some w
  disposed : ∀ w, s.closed w = true → Unheld s w → s.deletions w = 1

theorem on_of_processes (h : c.processes = some w) : c.on = some w := by
  cases c with
  | processing | returned => exact h
  | idle | assigned | published | finished | removed | leaving => cases h

theorem Staged.owned (h : Staged s) : Owned s where
  single j k w hj hk := h.holder j k w (on_of_processes hj) (on_of_processes hk)
  deleted := by
    intro w hw
    have hnext : w < s.next := by
      apply Nat.lt_of_not_le
      intro hle
      exact Nat.ne_of_gt hw (h.fresh w hle).2.1
    have hmem : w ∉ s.waitables := fun hmem => Nat.ne_of_gt hw (h.member w hmem).2
    -- a worker that has the Waitable either left it in the set or has not deleted it yet
    have hfree : Unheld s w := by
      intro k hk
      have hstage := h.stage k
      cases hworker : s.workers k with
      | idle | leaving =>
        rw [hworker] at hk
        cases hk
      | assigned | processing | returned | published | finished =>
        rw [hworker] at hk hstage
        cases hk
        exact hmem hstage.1
      | removed =>
        rw [hworker] at hk hstage
        cases hk
        exact Nat.ne_of_gt hw hstage.2.2.2
    obtain ⟨hclosed, hdeletions⟩ := h.gone w hnext hmem hfree
    exact ⟨hdeletions, hclosed, fun k hk => hfree k (on_of_processes hk)⟩
  disposed := by
    intro w hclosed hfree
    have hnext : w < s.next := by
      apply Nat.lt_of_not_le
      intro hle
      exact Bool.false_ne_true ((h.fresh w hle).1.symm.trans hclosed)
    have hmem : w ∉ s.waitables := by
      intro hmem
      by_cases hhand : hand s.selector = some w
      · exact Bool.false_ne_true ((h.handed w hhand).2.2.1.symm.trans hclosed)
      · exact Bool.false_ne_true ((h.resting w hmem hhand hfree).2.symm.trans hclosed)
    exact (h.gone w hnext hmem hfree).2

theorem owned_of_prompt {n : Nat} {s : State n} (h : (machine n).Reach Prompt s) : Owned s :=
  (staged_of_reach h).owned

instance (s : State n) (l : Label n) : Decidable (Prompt s l) := inferInstanceAs (Decidable (_ → _))

def readable : PollFd := ⟨4, 1⟩

def firstRound : List (Label 2) :=
  [.add [readable], .collectStart, .collectNext, .collectEnd, .poll [true], .preprocess, .handOver 0, .roundEnd,
   .dequeue 0, .intProcess 0 [readable], .setEvents 0]

/-- The loop waits for worker 0 before it takes the Waitable again. -/
theorem owned_two_rounds : ∃ s, (machine 2).Reach Prompt s ∧ s.deletions 0 = 1 ∧ Owned s := by
  have hplay : ∃ s, Library.play step Prompt (start 2) (firstRound ++
      [.isFinished 0, .collectStart, .collectNext, .collectEnd, .poll [true], .preprocess, .handOver 1, .dequeue 1,
       .intProcess 1 [], .setEvents 1, .isFinished 1, .remove 1, .delete 1]) = some s ∧ s.deletions 0 = 1 := by
    refine ⟨_, rfl, ?_⟩
    decide
  obtain ⟨s, hplay, hdeletions⟩ := hplay
  have hreach : (machine 2).Reach Prompt s := Machine.Reach.play (.init rfl) hplay
  exact ⟨s, hreach, hdeletions, owned_of_prompt hreach⟩

/-- Worker 0 asks whether the Waitable is finished after the loop has cleared its events, and deletes it under worker
1. -/
theorem not_owned_late_check : ∃ s, (machine 2).Reachable s ∧ s.workers 1 = .processing 0 ∧ s.closed 0 = false ∧
    s.deletions 0 = 1 ∧ ¬ Owned s := by
  have hplay : ∃ s, Library.play step (fun _ _ => True) (start 2) (firstRound ++
      [.collectStart, .collectNext, .collectEnd, .poll [true], .preprocess, .handOver 1, .dequeue 1,
       .isFinished 0, .roundEnd, .remove 0, .delete 0]) = some s ∧
      s.workers 1 = .processing 0 ∧ s.closed 0 = false ∧ s.deletions 0 = 1 := by
    refine ⟨_, rfl, ?_⟩
    decide
  obtain ⟨s, hplay, hworker, hclosed, hdeletions⟩ := hplay
  refine ⟨s, Machine.Reach.play (.init rfl) hplay, hworker, hclosed, hdeletions, fun howned => ?_⟩
  have hprocessed := (howned.deleted 0 (by rw [hdeletions]; decide)).2.2 1
  rw [hworker] at hprocessed
  exact hprocessed rfl

end Abacus.Server.Ownership
