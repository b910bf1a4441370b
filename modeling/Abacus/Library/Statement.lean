import Mathlib.Logic.Basic

/-! # Programs of statements over a store

A program reads the store, executes statements that write it, emits outputs, and ends with a result or an
exception. A write that fails leaves the store as it was. A crash comes between two writes.
-/

namespace Abacus.Library

inductive Prog (σ ω ε α : Type) : Type
  | ret (a : α)
  | raise (e : ε)
  | emit (o : ω) (next : Prog σ ω ε α)
  | query (next : σ → Prog σ ω ε α)
  | exec (write : σ → Option σ) (next : Bool → Prog σ ω ε α)

namespace Prog

variable {σ ω ε α β : Type}

def bind : Prog σ ω ε α → (α → Prog σ ω ε β) → Prog σ ω ε β
  | ret a, f => f a
  | raise e, _ => raise e
  | emit o p, f => emit o (bind p f)
  | query n, f => query fun s => bind (n s) f
  | exec w n, f => exec w fun ok => bind (n ok) f

instance : Monad (Prog σ ω ε) where
  pure := ret
  bind := bind

def read (f : σ → α) : Prog σ ω ε α := query fun s => ret (f s)

def write (w : σ → Option σ) : Prog σ ω ε Bool := exec w ret

def set (w : σ → σ) : Prog σ ω ε Unit := exec (fun s => some (w s)) fun _ => ret ()

def output (o : ω) : Prog σ ω ε Unit := emit o (ret ())

def run : Prog σ ω ε α → σ → σ × List ω × Except ε α
  | ret a, s => (s, [], .ok a)
  | raise e, s => (s, [], .error e)
  | emit o p, s =>
    let (s', os, r) := run p s
    (s', o :: os, r)
  | query n, s => run (n s) s
  | exec w n, s =>
    match w s with
    | some s' => run (n true) s'
    | none => run (n false) s

def final (p : Prog σ ω ε α) (s : σ) : σ := (run p s).1

def result (p : Prog σ ω ε α) (s : σ) : Except ε α := (run p s).2.2

/-- A run in which each output acts on a memory, with the store as it is then; an action may fail. -/
def perform {μ : Type} (act : σ → ω → μ → Option μ) : Prog σ ω ε α → σ → μ → Option (σ × μ × Except ε α)
  | ret a, s, m => some (s, m, .ok a)
  | raise e, s, m => some (s, m, .error e)
  | emit o p, s, m => (act s o m).bind fun m' => perform act p s m'
  | query n, s, m => perform act (n s) s m
  | exec w n, s, m =>
    match w s with
    | some s' => perform act (n true) s' m
    | none => perform act (n false) s m

/-- The store when the program stops before its next write, having executed so many of them. -/
def crashAfter : Prog σ ω ε α → Nat → σ → σ
  | ret _, _, s => s
  | raise _, _, s => s
  | emit _ p, k, s => crashAfter p k s
  | query n, k, s => crashAfter (n s) k s
  | exec _ _, 0, s => s
  | exec w n, k + 1, s =>
    match w s with
    | some s' => crashAfter (n true) k s'
    | none => crashAfter (n false) (k + 1) s

def embed {ω' ε' : Type} (f : ω → ω') (g : ε → ε') : Prog σ ω ε α → Prog σ ω' ε' α
  | ret a => ret a
  | raise e => raise (g e)
  | emit o p => emit (f o) (embed f g p)
  | query n => query fun s => embed f g (n s)
  | exec w n => exec w fun ok => embed f g (n ok)

def Returns (p : Prog σ ω ε α) (s : σ) : Prop := ∃ a, p.result s = .ok a

section

variable (p : Prog σ ω ε α) (f : α → Prog σ ω ε β) (s : σ)

@[simp] theorem final_ret (a : α) : final (ret a : Prog σ ω ε α) s = s := rfl

@[simp] theorem result_ret (a : α) : result (ret a : Prog σ ω ε α) s = .ok a := rfl

@[simp] theorem result_pure (a : α) : result (pure a : Prog σ ω ε α) s = .ok a := rfl

theorem run_bind : run (p >>= f) s =
    match run p s with
    | (s', os, .ok a) =>
      let (s'', os', r) := run (f a) s'
      (s'', os ++ os', r)
    | (s', os, .error e) => (s', os, .error e) := by
  change run (bind p f) s = _
  induction p generalizing s with
  | ret a | raise e => rfl
  | emit o p ih =>
    simp only [bind, run, ih]
    rcases run p s with ⟨s', os, e | a⟩ <;> rfl
  | query n ih => exact ih s s
  | exec w n ih =>
    simp only [bind, run]
    cases w s with
    | none => exact ih false s
    | some s' => exact ih true s'

theorem final_bind : final (p >>= f) s =
    match result p s with
    | .ok a => final (f a) (final p s)
    | .error _ => final p s := by
  unfold final result
  rw [run_bind]
  rcases run p s with ⟨s', os, e | a⟩ <;> rfl

theorem result_bind : result (p >>= f) s =
    match result p s with
    | .ok a => result (f a) (final p s)
    | .error e => .error e := by
  unfold final result
  rw [run_bind]
  rcases run p s with ⟨s', os, e | a⟩ <;> rfl

end

section

variable {μ : Type} {act : σ → ω → μ → Option μ} {p : Prog σ ω ε α} {f : α → Prog σ ω ε β} {s : σ} {m : μ}

theorem perform_bind : perform act (p >>= f) s m =
    (perform act p s m).bind fun (s', m', r) =>
      match r with
      | .ok a => perform act (f a) s' m'
      | .error e => some (s', m', .error e) := by
  change perform act (bind p f) s m = _
  induction p generalizing s m with
  | ret a | raise e => rfl
  | emit o p ih =>
    simp only [bind, perform]
    cases act s o m with
    | none => rfl
    | some m' => exact ih
  | query n ih => exact ih s
  | exec w n ih =>
    simp only [bind, perform]
    cases w s with
    | none => exact ih false
    | some s' => exact ih true

@[simp] theorem perform_read_bind (g : σ → α) : perform act (read g >>= f) s m = perform act (f (g s)) s m := rfl

@[simp] theorem perform_set_bind (w : σ → σ) (f : Unit → Prog σ ω ε β) :
    perform act (set w >>= f) s m = perform act (f ()) (w s) m := rfl

@[simp] theorem perform_output_bind (o : ω) (f : Unit → Prog σ ω ε β) :
    perform act (output o >>= f) s m = (act s o m).bind fun m' => perform act (f ()) s m' := rfl

theorem perform_eq_some {s' : σ} {m' : μ} {r : Except ε α} (h : perform act p s m = some (s', m', r)) :
    s' = final p s ∧ r = result p s := by
  induction p generalizing s m with
  | ret a | raise e =>
    cases h
    exact ⟨rfl, rfl⟩
  | emit o p ih =>
    obtain ⟨after, -, hrest⟩ := Option.bind_eq_some_iff.mp h
    exact ih hrest
  | query n ih => exact ih s h
  | exec w n ih =>
    simp only [perform] at h
    simp only [final, result, run]
    cases hw : w s with
    | none =>
      rw [hw] at h
      exact ih false h
    | some next =>
      rw [hw] at h
      exact ih true h

end

section

variable {ω' ε' : Type} (f : ω → ω') (g : ε → ε') (p : Prog σ ω ε α) (s : σ)

theorem run_embed : run (embed f g p) s = ((run p s).1, (run p s).2.1.map f, (run p s).2.2.mapError g) := by
  induction p generalizing s with
  | ret a | raise e => rfl
  | emit o p ih =>
    simp only [embed, run, ih]
    rfl
  | query n ih => exact ih s s
  | exec w n ih =>
    simp only [embed, run]
    cases w s with
    | none => exact ih false s
    | some s' => exact ih true s'

theorem returns_embed : Returns (embed f g p) s ↔ Returns p s := by
  unfold Returns result
  rw [run_embed]
  cases (run p s).2.2 with
  | error e => exact iff_of_false nofun nofun
  | ok a => exact iff_of_true ⟨a, rfl⟩ ⟨a, rfl⟩

@[simp] theorem returns_pure (a : α) : Returns (pure a : Prog σ ω ε α) s := ⟨a, rfl⟩

@[simp] theorem not_returns_raise (e : ε) : ¬Returns (raise e : Prog σ ω ε α) s := nofun

theorem returns_bind (p : Prog σ ω ε α) (f : α → Prog σ ω ε β) :
    Returns (p >>= f) s ↔ ∃ a, result p s = .ok a ∧ Returns (f a) (final p s) := by
  unfold Returns
  rw [result_bind]
  cases result p s with
  | error e => exact iff_of_false nofun nofun
  | ok a => simp

@[simp] theorem returns_read_bind (g : σ → α) (f : α → Prog σ ω ε β) :
    Returns (read g >>= f) s ↔ Returns (f (g s)) s := Iff.rfl

@[simp] theorem returns_output_bind (o : ω) (f : Unit → Prog σ ω ε β) :
    Returns (output o >>= f) s ↔ Returns (f ()) s := Iff.rfl

@[simp] theorem returns_if_pure (c : Prop) [Decidable c] (a : α) (p : Prog σ ω ε α) :
    Returns (if c then pure a else p) s ↔ (¬c → Returns p s) := by
  by_cases h : c <;> simp [h]

@[simp] theorem returns_if_else_pure (c : Prop) [Decidable c] (a : α) (p : Prog σ ω ε α) :
    Returns (if c then p else pure a) s ↔ (c → Returns p s) := by
  by_cases h : c <;> simp [h]

theorem run_read_bind (g : σ → α) (f : α → Prog σ ω ε β) : run (read g >>= f) s = run (f (g s)) s := rfl

theorem run_output_bind (o : ω) (f : Unit → Prog σ ω ε β) :
    run (output o >>= f) s = ((run (f ()) s).1, o :: (run (f ()) s).2.1, (run (f ()) s).2.2) := rfl

theorem run_set_bind (w : σ → σ) (f : Unit → Prog σ ω ε β) : run (set w >>= f) s = run (f ()) (w s) := rfl

@[simp] theorem final_read_bind (g : σ → α) (f : α → Prog σ ω ε β) : final (read g >>= f) s = final (f (g s)) s := rfl

@[simp] theorem result_read_bind (g : σ → α) (f : α → Prog σ ω ε β) : result (read g >>= f) s = result (f (g s)) s :=
  rfl

@[simp] theorem result_output_bind (o : ω) (f : Unit → Prog σ ω ε β) : result (output o >>= f) s = result (f ()) s :=
  rfl

@[simp] theorem final_set_bind (w : σ → σ) (f : Unit → Prog σ ω ε β) : final (set w >>= f) s = final (f ()) (w s) := rfl

@[simp] theorem result_set_bind (w : σ → σ) (f : Unit → Prog σ ω ε β) : result (set w >>= f) s = result (f ()) (w s) :=
  rfl

theorem final_write_bind (w : σ → Option σ) (f : Bool → Prog σ ω ε β) : final (write w >>= f) s =
    match w s with
    | some s' => final (f true) s'
    | none => final (f false) s := by
  change (run (exec w fun ok => bind (ret ok) f) s).1 = _
  simp only [run]
  cases w s with
  | none | some s' => rfl

theorem result_write_bind (w : σ → Option σ) (f : Bool → Prog σ ω ε β) : result (write w >>= f) s =
    match w s with
    | some s' => result (f true) s'
    | none => result (f false) s := by
  change (run (exec w fun ok => bind (ret ok) f) s).2.2 = _
  simp only [run]
  cases w s with
  | none | some s' => rfl

@[simp] theorem crashAfter_read_bind (g : σ → α) (f : α → Prog σ ω ε β) (k : Nat) :
    crashAfter (read g >>= f) k s = crashAfter (f (g s)) k s := rfl

@[simp] theorem crashAfter_set_bind (w : σ → σ) (f : Unit → Prog σ ω ε β) (k : Nat) :
    crashAfter (set w >>= f) (k + 1) s = crashAfter (f ()) k (w s) := rfl

theorem crashAfter_write_bind (w : σ → Option σ) (f : Bool → Prog σ ω ε β) (k : Nat) :
    crashAfter (write w >>= f) (k + 1) s =
      match w s with
      | some s' => crashAfter (f true) k s'
      | none => crashAfter (f false) (k + 1) s := by
  change crashAfter (exec w fun ok => bind (ret ok) f) (k + 1) s = _
  simp only [crashAfter]
  cases w s with
  | none | some s' => rfl

end

@[simp] theorem crashAfter_zero (p : Prog σ ω ε α) (s : σ) : crashAfter p 0 s = s := by
  induction p with
  | ret a | raise e => rfl
  | emit o p ih => exact ih
  | query n ih => exact ih s
  | exec w n => rfl

def Runs (p : Prog σ ω ε α) (s : σ) (os : List ω) (s' : σ) (a : α) : Prop := run p s = (s', os, .ok a)

variable {w : σ → Option σ}

section

variable {p : Prog σ ω ε α} {f : α → Prog σ ω ε β} {s s' : σ} {os : List ω} {a : α} {b : β}

theorem runs_pure {a' : α} : Runs (pure a : Prog σ ω ε α) s os s' a' ↔ s = s' ∧ [] = os ∧ a = a' := by
  change (s, [], Except.ok a) = (s', os, Except.ok a') ↔ _
  simp

theorem runs_bind : Runs (p >>= f) s os s' b ↔
    ∃ first m a second, Runs p s first m a ∧ Runs (f a) m second s' b ∧ first ++ second = os := by
  unfold Runs
  rw [run_bind]
  rcases run p s with ⟨m, first, e | a⟩
  · simp
  · dsimp only
    rcases hf : run (f a) m with ⟨s'', second, r⟩
    constructor
    · intro h
      obtain ⟨rfl, hrest⟩ := Prod.mk.inj h
      obtain ⟨rfl, rfl⟩ := Prod.mk.inj hrest
      exact ⟨first, m, a, second, rfl, hf, rfl⟩
    · rintro ⟨first', m', a', second', hp, hsecond, rfl⟩
      cases hp
      rw [hf] at hsecond
      cases hsecond
      rfl

theorem runs_read_bind (g : σ → α) : Runs (read g >>= f) s os s' b ↔ Runs (f (g s)) s os s' b := Iff.rfl

theorem runs_output_bind {o : ω} {f : Unit → Prog σ ω ε β} :
    Runs (output o >>= f) s os s' b ↔ ∃ rest, Runs (f ()) s rest s' b ∧ o :: rest = os := by
  unfold Runs
  rw [run_output_bind]
  rcases run (f ()) s with ⟨m, rest, r⟩
  constructor
  · intro h
    obtain ⟨rfl, hrest⟩ := Prod.mk.inj h
    obtain ⟨rfl, rfl⟩ := Prod.mk.inj hrest
    exact ⟨rest, rfl, rfl⟩
  · rintro ⟨rest', h, rfl⟩
    cases h
    rfl

theorem runs_write_bind {f : Bool → Prog σ ω ε β} : Runs (write w >>= f) s os s' b ↔
    (∃ m, w s = some m ∧ Runs (f true) m os s' b) ∨ (w s = none ∧ Runs (f false) s os s' b) := by
  unfold Runs
  change run (exec w fun ok => bind (ret ok) f) s = _ ↔ _
  simp only [run]
  cases w s with
  | none | some m => simp [bind]

theorem runs_iff : Runs p s os s' a ↔ final p s = s' ∧ (run p s).2.1 = os ∧ result p s = .ok a := by
  unfold Runs final result
  rcases run p s with ⟨m, first, r⟩
  simp

end

def Yields (p : Prog σ ω ε α) (s s' : σ) (a : α) : Prop := final p s = s' ∧ result p s = .ok a

section

variable {p : Prog σ ω ε α} {f : α → Prog σ ω ε β} {s s' s'' : σ} {a : α} {b : β}

theorem yields_pure (a : α) (s : σ) : Yields (pure a : Prog σ ω ε α) s s a := ⟨rfl, rfl⟩

theorem yields_bind (hp : Yields p s s' a) (hf : Yields (f a) s' s'' b) : Yields (p >>= f) s s'' b := by
  obtain ⟨rfl, hresult⟩ := hp
  rw [Yields, final_bind, result_bind, hresult]
  exact hf

theorem yields_set (w : σ → σ) (s : σ) : Yields (set w : Prog σ ω ε Unit) s (w s) () := ⟨rfl, rfl⟩

theorem yields_write_some (h : w s = some s') : Yields (write w : Prog σ ω ε Bool) s s' true := by
  rw [Yields, final, result, write, run, h]
  exact ⟨rfl, rfl⟩

theorem yields_write_none (h : w s = none) : Yields (write w : Prog σ ω ε Bool) s s false := by
  rw [Yields, final, result, write, run, h]
  exact ⟨rfl, rfl⟩

end

/-- The statements that a program may execute and the exceptions that it may throw in the stores of `I`. -/
def Limits (I : σ → Prop) (W : (σ → Option σ) → Prop) (E : ε → Prop) : Prog σ ω ε α → Prop
  | ret _ => True
  | raise e => E e
  | emit _ p => Limits I W E p
  | query n => ∀ s, I s → Limits I W E (n s)
  | exec w n => W w ∧ ∀ ok, Limits I W E (n ok)

section

variable {I : σ → Prop} {W : (σ → Option σ) → Prop} {E : ε → Prop} {p : Prog σ ω ε α}

theorem limits_pure (a : α) : Limits I W E (pure a : Prog σ ω ε α) := trivial

variable {f : α → Prog σ ω ε β}

theorem limits_bind (hp : Limits I W E p) (hf : ∀ a, Limits I W E (f a)) :
    Limits I W E (p >>= f) := by
  change Limits I W E (bind p f)
  induction p with
  | ret a => exact hf a
  | raise e => exact hp
  | emit o p ih => exact ih hp
  | query n ih => exact fun s hs => ih s (hp s hs)
  | exec w n ih => exact ⟨hp.1, fun ok => ih ok (hp.2 ok)⟩

theorem limits_read_bind {g : σ → α} (h : ∀ s, I s → Limits I W E (f (g s))) :
    Limits I W E (read g >>= f) := h

theorem limits_output (o : ω) : Limits I W E (output o : Prog σ ω ε Unit) := trivial

theorem limits_write (h : W w) : Limits I W E (write w : Prog σ ω ε Bool) := ⟨h, fun _ => trivial⟩

theorem limits_set {w : σ → σ} (h : W fun s => some (w s)) : Limits I W E (set w : Prog σ ω ε Unit) :=
  ⟨h, fun _ => trivial⟩

theorem Limits.mono {I' : σ → Prop} {W' : (σ → Option σ) → Prop} {E' : ε → Prop} (h : Limits I W E p)
    (hI : ∀ s, I' s → I s) (hW : ∀ w, W w → W' w) (hE : ∀ e, E e → E' e) : Limits I' W' E' p := by
  induction p with
  | ret a => trivial
  | raise e => exact hE e h
  | emit o p ih => exact ih h
  | query n ih => exact fun s hs => ih s (h s (hI s hs))
  | exec w n ih => exact ⟨hW w h.1, fun ok => ih ok (h.2 ok)⟩

section

variable (hI : ∀ w, W w → ∀ s s', I s → w s = some s' → I s')

include hI

theorem Limits.final (h : Limits I W E p) {s : σ} (hs : I s) : I (final p s) := by
  induction p generalizing s with
  | ret a | raise e => exact hs
  | emit o p ih => exact ih h hs
  | query n ih => exact ih s (h s hs) hs
  | exec w n ih =>
    simp only [Prog.final, run]
    cases hw : w s with
    | none => exact ih false (h.2 false) hs
    | some s' => exact ih true (h.2 true) (hI w h.1 s s' hs hw)

/-- What every statement keeps holds whenever the program is stopped. -/
theorem Limits.crashAfter (h : Limits I W E p) (k : Nat) {s : σ} (hs : I s) : I (crashAfter p k s) := by
  induction p generalizing s k with
  | ret a | raise e => exact hs
  | emit o p ih => exact ih h k hs
  | query n ih => exact ih s (h s hs) k hs
  | exec w n ih =>
    cases k with
    | zero => exact hs
    | succ k =>
      simp only [Prog.crashAfter]
      cases hw : w s with
      | none => exact ih false (h.2 false) (k + 1) hs
      | some s' => exact ih true (h.2 true) k (hI w h.1 s s' hs hw)

theorem Limits.exists_result (hE : ∀ e, ¬E e) (h : Limits I W E p) {s : σ} (hs : I s) : ∃ a, result p s = .ok a := by
  induction p generalizing s with
  | ret a => exact ⟨a, rfl⟩
  | raise e => exact absurd h (hE e)
  | emit o p ih => exact ih h hs
  | query n ih => exact ih s (h s hs) hs
  | exec w n ih =>
    simp only [result, run]
    cases hw : w s with
    | none => exact ih false (h.2 false) hs
    | some s' => exact ih true (h.2 true) (hI w h.1 s s' hs hw)

end

theorem Limits.final_eq (h : Limits (fun _ => True) (fun _ => False) E p) (s : σ) : Prog.final p s = s := by
  refine Limits.final (I := (· = s)) (W := fun _ => False) (E := E) (fun _ hw => hw.elim) ?_ rfl
  exact h.mono (fun _ _ => trivial) (fun _ hw => hw) fun _ he => he

theorem crashAfter_bind (hf : ∀ a, Limits (fun _ => True) (fun _ => False) E (f a)) (k : Nat)
    (s : σ) : crashAfter (p >>= f) k s = crashAfter p k s := by
  change crashAfter (bind p f) k s = _
  induction p generalizing k s with
  | ret a =>
    refine Limits.crashAfter (I := (· = s)) (W := fun _ => False) (E := fun _ => True) (fun _ hw => hw.elim) ?_ k rfl
    exact (hf a).mono (fun _ _ => trivial) (fun _ h => h) fun _ _ => trivial
  | raise e => rfl
  | emit o p ih => exact ih k s
  | query n ih => exact ih s k s
  | exec w n ih =>
    cases k with
    | zero => rfl
    | succ k =>
      simp only [bind, crashAfter]
      cases w s with
      | none => exact ih false (k + 1) s
      | some s' => exact ih true k s'

end

def Reads (E : ε → Prop) (p : Prog σ ω ε α) : Prop := Limits (fun _ => True) (fun _ => False) E p

def Gives (p : Prog σ ω ε α) (s : σ) (Q : α → Prop) : Prop := ∀ a, result p s = .ok a → Q a

section

variable {E : ε → Prop} {p : Prog σ ω ε α} {f : α → Prog σ ω ε β}

@[grind ←] theorem reads_pure (a : α) : Reads E (pure a : Prog σ ω ε α) := trivial

@[grind ←] theorem reads_read (g : σ → α) : Reads E (read g : Prog σ ω ε α) := fun _ _ => trivial

@[grind ←] theorem reads_output (o : ω) : Reads E (output o : Prog σ ω ε Unit) := trivial

@[grind ←] theorem reads_raise {e : ε} (h : E e) : Reads E (raise e : Prog σ ω ε α) := h

@[grind ←] theorem reads_bind (hp : Reads E p) (hf : ∀ a, Reads E (f a)) : Reads E (p >>= f) := limits_bind hp hf

@[grind ←] theorem reads_map (g : α → β) (hp : Reads E p) : Reads E (g <$> p) := reads_bind hp fun a => reads_pure (g a)

theorem Reads.final_eq (h : Reads E p) (s : σ) : final p s = s := Limits.final_eq h s

theorem Reads.returns (h : Reads (fun _ => False) p) (s : σ) : Returns p s :=
  Limits.exists_result (fun _ hw => hw.elim) (fun _ he => he) h trivial

theorem returns_map (g : α → β) (s : σ) : Returns (g <$> p) s ↔ Returns p s := by
  change Returns (p >>= fun a => pure (g a)) s ↔ _
  rw [returns_bind]
  exact ⟨fun ⟨a, ha, _⟩ => ⟨a, ha⟩, fun ⟨a, ha⟩ => ⟨a, ha, returns_pure _ _⟩⟩

theorem Reads.returns_bind (h : Reads E p) (s : σ) :
    Returns (p >>= f) s ↔ ∃ a, result p s = .ok a ∧ Returns (f a) s := by
  rw [Prog.returns_bind, h.final_eq]

variable {Q : β → Prop} {s : σ}

@[grind ←] theorem gives_pure {b : β} (h : Q b) : Gives (pure b : Prog σ ω ε β) s Q := by
  rintro a ⟨⟩
  exact h

@[grind ←] theorem gives_raise (e : ε) : Gives (raise e : Prog σ ω ε β) s Q := nofun

theorem gives_map (g : α → β) (h : ∀ a, Q (g a)) : Gives (g <$> p) s Q := by
  intro b hb
  change result (p >>= fun a => pure (g a)) s = .ok b at hb
  rw [result_bind] at hb
  cases hresult : result p s with
  | error e =>
    rw [hresult] at hb
    cases hb
  | ok a =>
    rw [hresult] at hb
    cases hb
    exact h a

theorem gives_bind_of {R : α → Prop} (hp : Reads (fun _ => True) p) (hR : Gives p s R)
    (h : ∀ a, R a → Gives (f a) s Q) : Gives (p >>= f) s Q := by
  intro b hb
  rw [result_bind] at hb
  cases hresult : result p s with
  | error e =>
    rw [hresult] at hb
    cases hb
  | ok a =>
    rw [hresult, hp.final_eq] at hb
    exact h a (hR a hresult) b hb

@[grind ←] theorem gives_bind (hp : Reads (fun _ => True) p) (h : ∀ a, Gives (f a) s Q) : Gives (p >>= f) s Q :=
  gives_bind_of hp (fun _ _ => trivial) fun a (_ : True) => h a

end

end Prog

end Abacus.Library
