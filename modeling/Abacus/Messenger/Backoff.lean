import Abacus.Library.Table
import Abacus.Misc

/-! # How long a server waits before it sends again

The delay for a server doubles with each message and halves with each acknowledgement. The bounds come from
the configuration. All is computed in 32 bits.
-/

namespace Abacus.Messenger.Backoff

open Library Library.Bytes Misc

structure Delays where
  init : Nat
  min : Nat
  max : Nat
  deriving DecidableEq

def lowest (min : Nat) : Nat := if min < 100 then 100 else min

def highest (min max : Nat) : Nat := if max < wrap32 (1000 * min) then wrap32 (1000 * min) else max

def correct (init min max : Nat) : Delays :=
  let min := lowest min
  let max := highest min max
  { min, max, init := if init < min ∨ init > max then min / 2 + max / 2 else init }

def initialise (initDelay minDelay maxDelay : Str) : Delays :=
  correct (toU32 (strtol initDelay)) (toU32 (strtol minDelay)) (toU32 (strtol maxDelay))

/-- The corrected bounds are in order. If they are one odd number, only that number can be the first delay. -/
def Usable (init min max : Nat) : Prop :=
  (lowest min ≤ max ∨ lowest min ≤ wrap32 (1000 * lowest min)) ∧
    (lowest min % 2 = 1 → max ≤ lowest min → wrap32 (1000 * lowest min) ≤ lowest min → init = lowest min)

instance (init min max : Nat) : Decidable (Usable init min max) := inferInstanceAs (Decidable (_ ∧ _))

theorem correct_init_iff (init min max : Nat) :
    (correct init min max).min ≤ (correct init min max).init ∧
      (correct init min max).init ≤ (correct init min max).max ↔ Usable init min max := by
  unfold correct Usable highest
  dsimp only
  generalize lowest min = low
  generalize wrap32 (1000 * low) = most
  split <;> split <;> omega

section

abbrev BackoffMap := Table Nat Nat

inductive Call
  | getBackoff (serverId : Nat)
  | downBackoff (serverId : Nat)
  deriving DecidableEq

variable (d : Delays)

def getBackoff (m : BackoffMap) (serverId : Nat) : Nat × BackoffMap :=
  match m[serverId]? with
  | none => (d.init, m.insert serverId d.init)
  | some delay =>
    let doubled := wrap32 (delay * 2)
    (delay, m.insert serverId (if doubled > d.max then d.max else doubled))

def downBackoff (m : BackoffMap) (serverId : Nat) : BackoffMap :=
  match m[serverId]? with
  | none => m
  | some delay => m.insert serverId (if delay / 2 < d.min then d.min else delay / 2)

def perform (m : BackoffMap) : Call → BackoffMap
  | .getBackoff serverId => (getBackoff d m serverId).2
  | .downBackoff serverId => downBackoff d m serverId

def performAll (calls : List Call) : BackoffMap := calls.foldl (perform d) ∅

def InRange (m : BackoffMap) : Prop :=
  ∀ (serverId delay : Nat), m[serverId]? = some delay → d.min ≤ delay ∧ delay ≤ d.max

/-- The double of the delay has 32 bits, or what is left of it is not below the least delay. -/
def Doubles (delay : Nat) : Prop := delay < 2147483648 ∨ d.min + 4294967296 ≤ delay * 2

/-- Usable numbers in the configuration for the first delay of a server, and a double that fits for every later one. -/
def Meets (init min max : Nat) (m : BackoffMap) : Call → Prop
  | .getBackoff serverId =>
    match m[serverId]? with
    | none => Usable init min max
    | some delay => Doubles (correct init min max) delay
  | .downBackoff _ => True

end

section

variable {d : Delays} {m : BackoffMap} {serverId : Nat}

theorem inRange_insert (hm : InRange d m) (delay : Nat) :
    InRange d (m.insert serverId delay) ↔ d.min ≤ delay ∧ delay ≤ d.max := by
  constructor
  · intro h
    apply h serverId
    rw [Table.getElem?_insert_row, if_pos rfl]
  · intro hdelay other value hvalue
    rw [Table.getElem?_insert_row] at hvalue
    split at hvalue
    · cases hvalue
      exact hdelay
    · exact hm other value hvalue

theorem inRange_doubled {delay : Nat} (hdelay : d.min ≤ delay ∧ delay ≤ d.max) (hmax : d.max < 4294967296) :
    (d.min ≤ if wrap32 (delay * 2) > d.max then d.max else wrap32 (delay * 2)) ∧
        (if wrap32 (delay * 2) > d.max then d.max else wrap32 (delay * 2)) ≤ d.max ↔ Doubles d delay := by
  unfold Doubles wrap32
  split <;> omega

theorem inRange_downBackoff (hm : InRange d m) (serverId : Nat) : InRange d (downBackoff d m serverId) := by
  unfold downBackoff
  split
  · exact hm
  · next delay hdelay =>
    obtain ⟨hlow, hhigh⟩ := hm serverId delay hdelay
    rw [inRange_insert hm]
    split <;> omega

variable {init min max : Nat}

theorem highest_lt (hmax : max < 4294967296) : highest min max < 4294967296 := by
  unfold highest wrap32
  split <;> omega

/-- A call keeps the delays in the range if and only if it has what it needs. -/
theorem inRange_perform_iff (hmax : max < 4294967296) (hm : InRange (correct init min max) m) (call : Call) :
    InRange (correct init min max) (perform (correct init min max) m call) ↔ Meets init min max m call := by
  cases call with
  | downBackoff serverId => exact iff_of_true (inRange_downBackoff hm serverId) trivial
  | getBackoff serverId =>
    unfold perform getBackoff Meets
    dsimp only
    split
    · rw [inRange_insert hm]
      exact correct_init_iff init min max
    · next delay hdelay =>
      rw [inRange_insert hm]
      exact inRange_doubled (hm serverId delay hdelay) (highest_lt hmax)

end

section

variable {d : Delays} {calls : List Call}

theorem inRange_empty : InRange d ∅ := by
  intro serverId delay hdelay
  rw [Std.ExtTreeMap.getElem?_empty] at hdelay
  cases hdelay

theorem performAll_take_succ {n : Nat} {call : Call} (h : calls[n]? = some call) :
    performAll d (calls.take (n + 1)) = perform d (performAll d (calls.take n)) call := by
  rw [performAll, List.take_add_one, h, Option.toList_some, List.foldl_append]
  rfl

/-- All delays stay in the range if and only if every call of the run has what it needs in the state that it finds. -/
theorem inRange_iff_meets (initDelay minDelay maxDelay : Str) (calls : List Call) :
    (∀ n, InRange (initialise initDelay minDelay maxDelay)
        (performAll (initialise initDelay minDelay maxDelay) (calls.take n))) ↔
      ∀ n call, calls[n]? = some call →
        Meets (toU32 (strtol initDelay)) (toU32 (strtol minDelay)) (toU32 (strtol maxDelay))
          (performAll (initialise initDelay minDelay maxDelay) (calls.take n)) call := by
  have hmax := toU32_lt (strtol maxDelay)
  constructor
  · intro h n call hcall
    have hnext := h (n + 1)
    rw [performAll_take_succ hcall] at hnext
    exact (inRange_perform_iff hmax (h n) call).mp hnext
  · intro h n
    induction n with
    | zero => exact inRange_empty
    | succ n ih =>
      cases hcall : calls[n]? with
      | none =>
        rw [List.take_add_one, hcall, Option.toList_none, List.append_nil]
        exact ih
      | some call =>
        rw [performAll_take_succ hcall]
        exact (inRange_perform_iff hmax ih call).mpr (h n call hcall)

/-- The delay is 2147483648 after the first call, and 0 after the second. -/
theorem not_inRange_doubled : ¬∀ n, InRange (initialise (str "2147483648") (str "100") (str "2147483648"))
    (performAll (initialise (str "2147483648") (str "100") (str "2147483648"))
      ([Call.getBackoff 1, .getBackoff 1].take n)) := by
  intro h
  have hrange := h 2 1 0 (by decide)
  exact absurd hrange.1 (by decide)

end

end Abacus.Messenger.Backoff
