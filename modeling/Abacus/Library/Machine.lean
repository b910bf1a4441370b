import Mathlib.Logic.Basic

/-! # Runs of a machine

A machine has initial states and labelled steps. `Reach M ok` holds of the states at the
end of the runs in which every step meets `ok` in the state it starts from.
-/

namespace Abacus.Library

structure Machine (σ ℓ : Type) where
  init : σ → Prop
  step : σ → ℓ → σ → Prop

variable {σ ℓ : Type}

inductive Machine.Reach (M : Machine σ ℓ) (ok : σ → ℓ → Prop) : σ → Prop
  | init {s : σ} (hinit : M.init s) : M.Reach ok s
  | step {s s' : σ} {l : ℓ} (hreach : M.Reach ok s) (hok : ok s l) (hstep : M.step s l s') : M.Reach ok s'

def Machine.Reachable (M : Machine σ ℓ) : σ → Prop := M.Reach fun _ _ => True

variable {M : Machine σ ℓ} {ok : σ → ℓ → Prop}

theorem Machine.Reach.invariant {I : σ → Prop} {s : σ} (h : M.Reach ok s)
    (hinit : ∀ s, M.init s → I s) (hstep : ∀ s l s', I s → ok s l → M.step s l s' → I s') : I s := by
  induction h with
  | init h => exact hinit _ h
  | step _ hok hs ih => exact hstep _ _ _ ih hok hs

theorem Machine.Reach.reachable {s : σ} (h : M.Reach ok s) : M.Reachable s := by
  induction h with
  | init h => exact .init h
  | step _ _ hs ih => exact .step ih trivial hs

/-- A machine whose steps are computed: a label either leads to one state or is refused. -/
def Machine.ofFun (init : σ → Prop) (f : σ → ℓ → Option σ) : Machine σ ℓ where
  init := init
  step s l s' := f s l = some s'

def play (f : σ → ℓ → Option σ) (ok : σ → ℓ → Prop) [∀ s l, Decidable (ok s l)] : σ → List ℓ → Option σ
  | s, [] => some s
  | s, l :: ls => if ok s l then (f s l).bind fun s' => play f ok s' ls else none

variable {f : σ → ℓ → Option σ}

theorem Machine.Reach.tested {test : σ → ℓ → Prop} [∀ s l, Decidable (test s l)]
    (htest : ∀ s l s', test s l → f s l = some s' → ok s l ∧ M.step s l s') {s s' : σ} {ls : List ℓ} (h : M.Reach ok s)
    (hplay : play f test s ls = some s') : M.Reach ok s' := by
  induction ls generalizing s with
  | nil =>
    cases hplay
    exact h
  | cons l ls ih =>
    rw [Library.play] at hplay
    split at hplay
    · next hl =>
      obtain ⟨next, hnext, hrest⟩ := Option.bind_eq_some_iff.mp hplay
      obtain ⟨hok, hstep⟩ := htest s l next hl hnext
      exact ih (.step h hok hstep) hrest
    · cases hplay

theorem Machine.Reach.play {init : σ → Prop} [∀ s l, Decidable (ok s l)]
    {s s' : σ} {ls : List ℓ} (h : (Machine.ofFun init f).Reach ok s) (hplay : play f ok s ls = some s') :
    (Machine.ofFun init f).Reach ok s' :=
  h.tested (fun _ _ _ hok hstep => ⟨hok, hstep⟩) hplay

theorem Machine.Reach.playAll {init : σ → Prop} {s s' : σ} {ls : List ℓ}
    (hok : ∀ l ∈ ls, ∀ s, ok s l) (h : (Machine.ofFun init f).Reach ok s)
    (hplay : Library.play f (fun _ _ => True) s ls = some s') : (Machine.ofFun init f).Reach ok s' := by
  induction ls generalizing s with
  | nil =>
    cases hplay
    exact h
  | cons l ls ih =>
    rw [Library.play, if_pos trivial] at hplay
    obtain ⟨next, hstep, hrest⟩ := Option.bind_eq_some_iff.mp hplay
    exact ih (fun l' hl' => hok l' (.tail l hl')) (.step h (hok l (.head ls) s) hstep) hrest

end Abacus.Library
