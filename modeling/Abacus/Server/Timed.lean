import Mathlib.Data.List.ReduceOption
import Mathlib.Data.Multiset.AddSub
import Abacus.Library.Machine

/-! # The thread of timed actions

`timed_actions` holds the next action out of a heap with the others. It performs what is due, and waits for an
action to arrive or to become due. A timed wait may end at any moment.
-/

namespace Abacus.Server.Timed

open Library

structure TimedAction where
  id : Nat
  processingTime : Int
  deriving DecidableEq

/-- The heap has its greatest element first, so the comparison is reversed. -/
def timedActionPtrLessThan (v1 v2 : TimedAction) : Bool := v1.processingTime > v2.processingTime

def IsHeap (heap : List TimedAction) : Prop := ∀ first ∈ heap.head?, ∀ a ∈ heap, timedActionPtrLessThan first a = false

/-- What `push_heap` and `pop_heap` may make of the elements. -/
def Arranges (heap elements : List TimedAction) : Prop := heap.Perm elements ∧ IsHeap heap

instance (heap elements : List TimedAction) : Decidable (Arranges heap elements) :=
  inferInstanceAs
    (Decidable (heap.Perm elements ∧ ∀ first ∈ heap.head?, ∀ a ∈ heap, timedActionPtrLessThan first a = false))

inductive Phase where
  -- at the head of the outer loop
  | testing
  -- in the inner loop, with what was read from the clock
  | firing (now : Int)
  | waiting
  | finished
  deriving DecidableEq

structure State where
  running : Bool
  phase : Phase
  next : Option TimedAction
  heap : List TimedAction
  /-- A null pointer is put on the queue when the server shuts down. -/
  timedQueue : List (Option TimedAction)
  clock : Int
  created : Nat
  /-- The actions that came out of the queue. -/
  received : List TimedAction
  /-- The actions that were performed, each with the time. -/
  performed : List (TimedAction × Int)

def start (clock : Int) : State where
  running := true
  phase := .testing
  next := none
  heap := []
  timedQueue := []
  clock
  created := 0
  received := []
  performed := []

/-- The heap functions are performed by some labels, which have the heap they leave. -/
inductive Label where
  | putTimedAction (processingTime : Int)
  | putNull
  | stop
  | tick (clock : Int)
  | test
  | perform (heap : List TimedAction)
  | wait
  | receive (heap : List TimedAction)
  | timeOut

def State.perform (s : State) (next : TimedAction) (heap : List TimedAction) : Option State :=
  match s.heap with
  | [] => if heap = [] then some { s with next := none, performed := s.performed ++ [(next, s.clock)] } else none
  | first :: rest =>
    if Arranges heap rest then
      some { s with next := some first, heap, performed := s.performed ++ [(next, s.clock)] }
    else none

def State.receive (s : State) (tmp : Option TimedAction) (heap : List TimedAction) : Option State :=
  match s.next, tmp with
  | none, _ => if heap = s.heap then some { s with next := tmp, received := s.received ++ tmp.toList } else none
  | some _, none => if heap = s.heap then some s else none
  | some next, some tmp =>
    if tmp.processingTime < next.processingTime then
      if Arranges heap (s.heap ++ [next]) then some { s with next := some tmp, heap, received := s.received ++ [tmp] }
      else none
    else if Arranges heap (s.heap ++ [tmp]) then some { s with heap, received := s.received ++ [tmp] }
    else none

def step (s : State) : Label → Option State
  | .putTimedAction processingTime =>
    some { s with timedQueue := s.timedQueue ++ [some ⟨s.created, processingTime⟩], created := s.created + 1 }
  | .putNull => some { s with timedQueue := s.timedQueue ++ [none] }
  | .stop => some { s with running := false }
  | .tick clock => if s.clock ≤ clock then some { s with clock } else none
  | .test =>
    match s.phase with
    | .testing => some { s with phase := if s.running then .firing s.clock else .finished }
    | _ => none
  | .perform heap =>
    match s.phase, s.next with
    | .firing now, some next => if next.processingTime ≤ now then s.perform next heap else none
    | _, _ => none
  | .wait =>
    match s.phase with
    | .firing now => if ∃ next ∈ s.next, next.processingTime ≤ now then none else some { s with phase := .waiting }
    | _ => none
  | .receive heap =>
    match s.phase, s.timedQueue with
    | .waiting, tmp :: timedQueue => (s.receive tmp heap).map fun s => { s with phase := .testing, timedQueue }
    | _, _ => none
  | .timeOut =>
    match s.phase, s.next with
    | .waiting, some _ => some { s with phase := .testing }
    | _, _ => none

def machine : Machine State Label := .ofFun (fun s => ∃ clock, s = start clock) step

def Performs (s : State) (a : TimedAction) : Prop :=
  ∃ now, s.phase = .firing now ∧ s.next = some a ∧ a.processingTime ≤ now

def State.unperformed (s : State) : Multiset TimedAction :=
  (s.received : Multiset TimedAction) - s.performed.map Prod.fst

structure Scheduled (s : State) : Prop where
  balance : (s.received : Multiset TimedAction) = s.performed.map Prod.fst + s.next.toList + s.heap
  first : ∀ next ∈ s.next, ∀ a ∈ s.heap, next.processingTime ≤ a.processingTime
  due : ∀ p ∈ s.performed, p.1.processingTime ≤ p.2
  once : (s.performed.map Prod.fst).Nodup
  ordered : ∀ a, Performs s a → a ∈ s.unperformed ∧ ∀ b ∈ s.unperformed, a.processingTime ≤ b.processingTime

section

/-- The next action is held out of the heap, and what is received is held or performed. -/
structure Held (s : State) : Prop where
  balance : s.received.Perm (s.performed.map Prod.fst ++ (s.next.toList ++ s.heap))
  first : ∀ next ∈ s.next, ∀ a ∈ s.heap, next.processingTime ≤ a.processingTime
  alone : s.next = none → s.heap = []
  heap : IsHeap s.heap

def State.known (s : State) : List TimedAction := s.received ++ s.timedQueue.reduceOption

structure Sound (s : State) : Prop where
  held : Held s
  due : ∀ p ∈ s.performed, p.1.processingTime ≤ p.2
  clock : ∀ now, s.phase = .firing now → now ≤ s.clock
  nodup : s.known.Nodup
  fresh : ∀ a ∈ s.known, a.id < s.created

variable {s s' : State} {l : Label} {heap : List TimedAction} {tmp : Option TimedAction} {next : TimedAction}

theorem timedActionPtrLessThan_eq_false {a b : TimedAction} :
    timedActionPtrLessThan a b = false ↔ a.processingTime ≤ b.processingTime := by
  simp [timedActionPtrLessThan]

theorem IsHeap.le_of_mem {first : TimedAction} {rest : List TimedAction} (h : IsHeap (first :: rest)) {a : TimedAction}
    (ha : a ∈ rest) : first.processingTime ≤ a.processingTime :=
  timedActionPtrLessThan_eq_false.mp (h first rfl a (.tail _ ha))

theorem Held.kept (h : Held s) (running : Bool) (phase : Phase) (timedQueue : List (Option TimedAction)) (clock : Int)
    (created : Nat) : Held { s with running, phase, timedQueue, clock, created } :=
  ⟨h.balance, h.first, h.alone, h.heap⟩

theorem Held.perform (h : Held s) (hnext : s.next = some next) (hperform : s.perform next heap = some s') :
    Held s' := by
  have hbalance := h.balance
  rw [hnext] at hbalance
  unfold State.perform at hperform
  split at hperform
  · next hempty =>
    split at hperform
    · cases hperform
      refine ⟨?_, fun _ hmem => ?_, fun _ => hempty, h.heap⟩
      · simpa [hempty] using hbalance
      · cases hmem
    · cases hperform
  · next first rest hfirst =>
    have hheap := h.heap
    rw [hfirst] at hbalance hheap
    split at hperform
    · next harranges =>
      cases hperform
      refine ⟨?_, ?_, fun hnone => ?_, harranges.2⟩
      · refine hbalance.trans ?_
        simpa using ((harranges.1.symm.cons first).cons next).append_left (s.performed.map Prod.fst)
      · intro a ha b hb
        cases ha
        exact hheap.le_of_mem (harranges.1.mem_iff.mp hb)
      · cases hnone
    · cases hperform

theorem perform_frame (hperform : s.perform next heap = some s') :
    s'.performed = s.performed ++ [(next, s.clock)] ∧ s'.clock = s.clock ∧ s'.phase = s.phase ∧ s'.known = s.known ∧
      s'.created = s.created := by
  unfold State.perform at hperform
  split at hperform
  · split at hperform <;> cases hperform
    exact ⟨rfl, rfl, rfl, rfl, rfl⟩
  · split at hperform <;> cases hperform
    exact ⟨rfl, rfl, rfl, rfl, rfl⟩

theorem Held.push (h : Held s) (hnext : s.next = some next) {first other a : TimedAction}
    (hpair : [first, other].Perm [next, a]) (hfirst : first.processingTime ≤ other.processingTime)
    (harranges : Arranges heap (s.heap ++ [other])) :
    Held { s with next := some first, heap, received := s.received ++ [a] } := by
  have hbalance := h.balance
  rw [hnext] at hbalance
  constructor
  · apply List.perm_iff_count.mpr
    intro x
    have hreceived := hbalance.count_eq x
    have hboth := hpair.count_eq x
    have hheap := harranges.1.count_eq x
    simp only [Option.toList_some, List.count_append, List.count_cons, List.count_nil] at hreceived hboth hheap ⊢
    omega
  · intro f hf b hb
    cases hf
    have hnext' : first.processingTime ≤ next.processingTime := by
      have hmem : next ∈ [first, other] := hpair.mem_iff.mpr (.head _)
      obtain rfl | rfl : next = first ∨ next = other := by simpa using hmem
      · exact Int.le_refl _
      · exact hfirst
    obtain hb | hb := List.mem_append.mp (harranges.1.mem_iff.mp hb)
    · exact Int.le_trans hnext' (h.first next hnext b hb)
    · rw [List.mem_singleton.mp hb]
      exact hfirst
  · intro hnone
    cases hnone
  · exact harranges.2

theorem Held.receive (h : Held s) (hreceive : s.receive tmp heap = some s') : Held s' := by
  unfold State.receive at hreceive
  split at hreceive
  · next hnext =>
    split at hreceive <;> cases hreceive
    have hempty := h.alone hnext
    refine ⟨?_, fun next _ a ha => ?_, fun _ => hempty, h.heap⟩
    · have hbalance := h.balance
      rw [hnext, hempty] at hbalance
      simpa [hempty] using hbalance.append_right _
    · rw [hempty] at ha
      cases ha
  · split at hreceive <;> cases hreceive
    exact h
  · next next a hnext =>
    split at hreceive
    · next hearlier =>
      split at hreceive <;> cases hreceive
      next harranges => exact h.push hnext (.swap ..) (Int.le_of_lt hearlier) harranges
    · next hlater =>
      split at hreceive <;> cases hreceive
      next harranges =>
      have hpush := h.push hnext (.refl _) (Int.not_lt.mp hlater) harranges
      rw [← hnext] at hpush
      exact hpush

theorem receive_frame (hreceive : s.receive tmp heap = some s') :
    s'.received = s.received ++ tmp.toList ∧ s'.performed = s.performed ∧ s'.clock = s.clock ∧
      s'.created = s.created := by
  unfold State.receive at hreceive
  split at hreceive
  · split at hreceive <;> cases hreceive
    exact ⟨rfl, rfl, rfl, rfl⟩
  · split at hreceive <;> cases hreceive
    exact ⟨(List.append_nil _).symm, rfl, rfl, rfl⟩
  · split at hreceive
    · split at hreceive <;> cases hreceive
      exact ⟨rfl, rfl, rfl, rfl⟩
    · split at hreceive <;> cases hreceive
      exact ⟨rfl, rfl, rfl, rfl⟩

theorem sound_start (clock : Int) : Sound (start clock) where
  held := ⟨.nil, by simp [start], fun _ => rfl, by simp [start, IsHeap]⟩
  due := List.forall_mem_nil _
  clock _ hphase := by cases hphase
  nodup := .nil
  fresh := List.forall_mem_nil _

theorem Sound.enter (h : Sound s) (running : Bool) {phase : Phase} {clock : Int}
    (hphase : ∀ now, phase = .firing now → now ≤ clock) : Sound { s with running, phase, clock } :=
  ⟨h.held.kept _ _ _ _ _, h.due, hphase, h.nodup, h.fresh⟩

theorem Sound.putTimedAction (h : Sound s) (processingTime : Int) :
    Sound { s with timedQueue := s.timedQueue ++ [some ⟨s.created, processingTime⟩], created := s.created + 1 } := by
  let arrived : TimedAction := ⟨s.created, processingTime⟩
  have hknown : State.known { s with timedQueue := s.timedQueue ++ [some arrived], created := s.created + 1 } =
      s.known ++ [arrived] := by
    simp [State.known, List.reduceOption]
  refine ⟨h.held.kept _ _ _ _ _, h.due, h.clock, ?_, ?_⟩
  · rw [hknown, List.nodup_append]
    refine ⟨h.nodup, List.nodup_singleton _, fun a ha b hb => ?_⟩
    rw [List.mem_singleton.mp hb]
    rintro rfl
    exact absurd (h.fresh _ ha) (Nat.lt_irrefl _)
  · intro a ha
    rw [hknown] at ha
    obtain ha | ha := List.mem_append.mp ha
    · exact Nat.lt_succ_of_lt (h.fresh a ha)
    · rw [List.mem_singleton.mp ha]
      exact Nat.lt_succ_self _

theorem Sound.putNull (h : Sound s) : Sound { s with timedQueue := s.timedQueue ++ [none] } := by
  have hknown : State.known { s with timedQueue := s.timedQueue ++ [none] } = s.known := by
    simp [State.known, List.reduceOption]
  exact ⟨h.held.kept _ _ _ _ _, h.due, h.clock, hknown ▸ h.nodup, hknown ▸ h.fresh⟩

theorem Sound.perform (h : Sound s) (hnext : s.next = some next) (hdue : next.processingTime ≤ s.clock)
    (hperform : s.perform next heap = some s') : Sound s' := by
  obtain ⟨hperformed, hclock, hphase, hknown, hcreated⟩ := perform_frame hperform
  refine ⟨h.held.perform hnext hperform, ?_, ?_, hknown ▸ h.nodup, ?_⟩
  · rw [hperformed]
    exact List.forall_mem_append.mpr ⟨h.due, List.forall_mem_singleton.mpr hdue⟩
  · rw [hphase, hclock]
    exact h.clock
  · rw [hknown, hcreated]
    exact h.fresh

theorem Sound.receive (h : Sound s) {timedQueue : List (Option TimedAction)} (hqueue : s.timedQueue = tmp :: timedQueue)
    (hreceive : s.receive tmp heap = some s') : Sound { s' with phase := .testing, timedQueue } := by
  obtain ⟨hreceived, hperformed, hclock, hcreated⟩ := receive_frame hreceive
  have hheld := h.held.receive hreceive
  have hknown : State.known { s' with phase := .testing, timedQueue } = s.known := by
    cases tmp <;> simp [State.known, hqueue, hreceived, List.reduceOption]
  refine ⟨hheld.kept _ _ _ _ _, ?_, fun now hnow => ?_, hknown ▸ h.nodup, ?_⟩
  · dsimp only
    rw [hperformed]
    exact h.due
  · cases hnow
  · rw [hknown]
    dsimp only
    rw [hcreated]
    exact h.fresh

theorem Sound.step (h : Sound s) (hstep : step s l = some s') : Sound s' := by
  cases l with
  | putTimedAction processingTime =>
    cases hstep
    exact h.putTimedAction processingTime
  | putNull =>
    cases hstep
    exact h.putNull
  | stop =>
    cases hstep
    exact h.enter false h.clock
  | tick clock =>
    dsimp only [Timed.step] at hstep
    split at hstep <;> cases hstep
    next hclock => exact h.enter s.running fun now hphase => Int.le_trans (h.clock now hphase) hclock
  | test =>
    dsimp only [Timed.step] at hstep
    split at hstep <;> cases hstep
    refine h.enter s.running fun now hphase => ?_
    split at hphase <;> cases hphase
    exact Int.le_refl _
  | perform heap =>
    dsimp only [Timed.step] at hstep
    split at hstep
    · next now next hphase hnext =>
      split at hstep
      · next hdue => exact h.perform hnext (Int.le_trans hdue (h.clock now hphase)) hstep
      · cases hstep
    · cases hstep
  | wait =>
    dsimp only [Timed.step] at hstep
    split at hstep
    · split at hstep <;> cases hstep
      exact h.enter s.running (by simp)
    · cases hstep
  | receive heap =>
    dsimp only [Timed.step] at hstep
    split at hstep
    · next tmp timedQueue hphase hqueue =>
      obtain ⟨received, hreceive, rfl⟩ := Option.map_eq_some_iff.mp hstep
      exact h.receive hqueue hreceive
    · cases hstep
  | timeOut =>
    dsimp only [Timed.step] at hstep
    split at hstep <;> cases hstep
    exact h.enter s.running (by simp)

theorem sound_of_reachable (h : machine.Reachable s) : Sound s := by
  apply h.invariant
  · rintro s ⟨clock, rfl⟩
    exact sound_start clock
  · intro s l s' hsound _ hstep
    exact hsound.step hstep

end

theorem scheduled_of_reachable (s : State) (h : machine.Reachable s) : Scheduled s := by
  obtain ⟨hheld, hdue, hclock, hnodup, hfresh⟩ := sound_of_reachable h
  have hbalance : (s.received : Multiset TimedAction) = s.performed.map Prod.fst + s.next.toList + s.heap := by
    rw [Multiset.coe_add, Multiset.coe_add, List.append_assoc]
    exact Multiset.coe_eq_coe.mpr hheld.balance
  have hunperformed : s.unperformed = (s.next.toList : Multiset TimedAction) + s.heap := by
    rw [State.unperformed, hbalance, Multiset.add_assoc, Multiset.add_comm, Multiset.add_sub_cancel_right]
  refine ⟨hbalance, hheld.first, hdue, ?_, ?_⟩
  · have hreceived : s.received.Nodup := (List.nodup_append.mp hnodup).1
    exact (List.nodup_append.mp (hheld.balance.nodup_iff.mp hreceived)).1
  · rintro a ⟨now, -, hnext, -⟩
    rw [hunperformed, hnext, Option.toList_some, Multiset.coe_singleton]
    refine ⟨Multiset.mem_add.mpr (.inl (Multiset.mem_singleton_self a)), fun b hb => ?_⟩
    obtain hb | hb := Multiset.mem_add.mp hb
    · exact Int.le_of_eq (congrArg TimedAction.processingTime (Multiset.mem_singleton.mp hb).symm)
    · exact hheld.first a hnext b hb

def twoActions : List Label :=
  [.putTimedAction 30, .putTimedAction 20, .test, .wait, .receive [], .test, .wait, .receive [⟨0, 30⟩], .tick 40, .test,
    .perform []]

theorem scheduled_twoActions :
    ∃ s, machine.Reachable s ∧ s.performed = [(⟨1, 20⟩, 40)] ∧ Performs s ⟨0, 30⟩ ∧ Scheduled s := by
  have hplay : ∃ s, play step (fun _ _ => True) (start 10) twoActions = some s ∧ s.performed = [(⟨1, 20⟩, 40)] ∧
      s.phase = .firing 40 ∧ s.next = some ⟨0, 30⟩ := by decide +kernel
  obtain ⟨s, hplay, hperformed, hphase, hnext⟩ := hplay
  have hreach : machine.Reachable s := Machine.Reach.play (.init ⟨10, rfl⟩) hplay
  exact ⟨s, hreach, hperformed, ⟨40, hphase, hnext, by decide⟩, scheduled_of_reachable s hreach⟩

end Abacus.Server.Timed
