import Abacus.Library.Statement

/-! # Two runs side by side

From related stores and memories either both programs are stopped by an action that fails, or both end in
related ones with the same result. The rules follow the way programs are put together.
-/

namespace Abacus.Library.Prog

variable {σ ω ε α β μ : Type}

/-- The ends of two runs that are related and have the same result. -/
structure Agree (R : σ → σ → Prop) (M : μ → μ → Prop) (x y : σ × μ × Except ε α) : Prop where
  store : R x.1 y.1
  memory : M x.2.1 y.2.1
  result : y.2.2 = x.2.2

def Lockstep (act : σ → ω → μ → Option μ) (R : σ → σ → Prop) (M : μ → μ → Prop) (p q : Prog σ ω ε α) : Prop :=
  ∀ s s' m m', R s s' → M m m' → Option.Rel (Agree R M) (perform act p s m) (perform act q s' m')

variable {act : σ → ω → μ → Option μ} {R : σ → σ → Prop} {M : μ → μ → Prop}

theorem lockstep_pure (a : α) : Lockstep act R M (pure a : Prog σ ω ε α) (pure a) :=
  fun _ _ _ _ hs hm => .some ⟨hs, hm, rfl⟩

theorem lockstep_raise (e : ε) : Lockstep act R M (raise e : Prog σ ω ε α) (raise e) :=
  fun _ _ _ _ hs hm => .some ⟨hs, hm, rfl⟩

theorem lockstep_bind {p q : Prog σ ω ε α} {f g : α → Prog σ ω ε β} (hp : Lockstep act R M p q)
    (hf : ∀ a, Lockstep act R M (f a) (g a)) : Lockstep act R M (p >>= f) (q >>= g) := by
  intro s s' m m' hs hm
  have hfirst := hp s s' m m' hs hm
  rw [perform_bind, perform_bind]
  generalize perform act p s m = x at hfirst
  generalize perform act q s' m' = y at hfirst
  cases hfirst with
  | none => exact .none
  | @some x y h =>
    obtain ⟨s₁, m₁, r⟩ := x
    obtain ⟨s₂, m₂, r'⟩ := y
    obtain ⟨hs, hm, hresult⟩ := h
    cases hresult
    cases r with
    | error e => exact .some ⟨hs, hm, rfl⟩
    | ok a => exact hf a s₁ s₂ m₁ m₂ hs hm

theorem lockstep_read {g : σ → α} (h : ∀ s s', R s s' → g s' = g s) :
    Lockstep act R M (read g : Prog σ ω ε α) (read g) :=
  fun s s' _ _ hs hm => .some ⟨hs, hm, congrArg Except.ok (h s s' hs)⟩

theorem lockstep_write {w : σ → Option σ} (h : ∀ s s', R s s' → Option.Rel R (w s) (w s')) :
    Lockstep act R M (write w : Prog σ ω ε Bool) (write w) := by
  intro s s' m m' hs hm
  have hw := h s s' hs
  simp only [write, perform]
  generalize w s = x at hw
  generalize w s' = y at hw
  cases hw with
  | none => exact .some ⟨hs, hm, rfl⟩
  | some hs' => exact .some ⟨hs', hm, rfl⟩

theorem lockstep_set {w : σ → σ} (h : ∀ s s', R s s' → R (w s) (w s')) :
    Lockstep act R M (set w : Prog σ ω ε Unit) (set w) :=
  fun s s' _ _ hs hm => .some ⟨h s s' hs, hm, rfl⟩

theorem lockstep_output {o : ω} (h : ∀ s m, act s o m = some m) :
    Lockstep act R M (output o : Prog σ ω ε Unit) (output o) := by
  intro s s' m m' hs hm
  simp only [output, perform, h, Option.bind_some]
  exact .some ⟨hs, hm, rfl⟩

end Abacus.Library.Prog
