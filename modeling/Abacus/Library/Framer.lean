import Mathlib.Data.List.Infix

/-! # Readers that take one item at a time

A framer takes items until a message is complete or rejected; a session collects the messages of a
stream. Both go on with the second part of a list where they stopped in the first.
-/

namespace Abacus.Library

inductive Signal
  | more
  | complete
  | reject
  deriving DecidableEq, Repr

structure Framer (σ β : Type) where
  fresh : σ
  push : σ → β → σ × Signal

namespace Framer

variable {σ β : Type} (F : Framer σ β)

/-- The items up to the end of one message: the state, how it ended and the number of items taken. -/
def feed : σ → List β → σ × Signal × Nat
  | s, [] => (s, .more, 0)
  | s, b :: bs =>
    match F.push s b with
    | (s', .more) => ((feed s' bs).1, (feed s' bs).2.1, (feed s' bs).2.2 + 1)
    | (s', signal) => (s', signal, 1)

variable {F} {s s' : σ} {b : β} {bs : List β} {n : Nat} {signal : Signal}

theorem feed_cons_more (h : F.push s b = (s', .more)) :
    F.feed s (b :: bs) = ((F.feed s' bs).1, (F.feed s' bs).2.1, (F.feed s' bs).2.2 + 1) := by
  rw [feed, h]

theorem feed_cons_of_ne (h : F.push s b = (s', signal)) (hne : signal ≠ .more) :
    F.feed s (b :: bs) = (s', signal, 1) := by
  rw [feed, h]
  cases signal with
  | more => exact absurd rfl hne
  | complete | reject => rfl

theorem feed_append (s : σ) (xs ys : List β) : F.feed s (xs ++ ys) =
    match F.feed s xs with
    | (s', .more, n) => ((F.feed s' ys).1, (F.feed s' ys).2.1, n + (F.feed s' ys).2.2)
    | (s', signal, n) => (s', signal, n) := by
  induction xs generalizing s with
  | nil => simp [feed]
  | cons x xs ih =>
    rw [List.cons_append]
    rcases hpush : F.push s x with ⟨s', signal⟩
    cases signal with
    | more =>
      rw [feed_cons_more hpush, feed_cons_more hpush, ih s']
      rcases F.feed s' xs with ⟨s'', signal, n⟩
      cases signal with
      | more => simp only [Nat.add_right_comm]
      | complete | reject => rfl
    | complete | reject => rw [feed_cons_of_ne hpush nofun, feed_cons_of_ne hpush nofun]

theorem feed_bounds (s : σ) (xs : List β) : (F.feed s xs).2.2 ≤ xs.length ∧
    ((F.feed s xs).2.1 = .more → (F.feed s xs).2.2 = xs.length) ∧
    ((F.feed s xs).2.1 ≠ .more → 0 < (F.feed s xs).2.2) := by
  induction xs generalizing s with
  | nil => exact ⟨le_refl 0, fun _ => rfl, fun h => absurd rfl h⟩
  | cons x xs ih =>
    rcases hpush : F.push s x with ⟨s', signal⟩
    cases signal with
    | more =>
      obtain ⟨hle, hmore, -⟩ := ih s'
      rw [feed_cons_more hpush]
      exact ⟨Nat.succ_le_succ hle, fun h => congrArg Nat.succ (hmore h), fun _ => Nat.succ_pos _⟩
    | complete | reject =>
      rw [feed_cons_of_ne hpush nofun]
      exact ⟨Nat.succ_le_succ (Nat.zero_le _), nofun, fun _ => Nat.one_pos⟩

variable {xs ys : List β}

theorem feed_split (h : F.feed s (xs ++ ys) = (s', signal, n)) (hlt : xs.length < n) :
    ∃ m, F.feed s xs = (m, .more, xs.length) ∧ F.feed m ys = (s', signal, n - xs.length) := by
  obtain ⟨hle, hmore, -⟩ := feed_bounds (F := F) s xs
  rw [feed_append] at h
  rcases hfeed : F.feed s xs with ⟨m, first, k⟩
  rw [hfeed] at h hle hmore
  cases first with
  | more =>
    obtain rfl : k = xs.length := hmore rfl
    refine ⟨m, rfl, ?_⟩
    obtain ⟨rfl, hrest⟩ := Prod.mk.inj h
    obtain ⟨rfl, rfl⟩ := Prod.mk.inj hrest
    rw [Nat.add_sub_cancel_left]
  | complete | reject =>
    obtain ⟨-, rfl⟩ := Prod.mk.inj (Prod.mk.inj h).2
    exact absurd hle (Nat.not_le.mpr hlt)

def Reads (F : Framer σ β) (s : σ) (xs : List β) (s' : σ) : Prop := F.feed s xs = (s', .more, xs.length)

theorem reads_nil (s : σ) : F.Reads s [] s := rfl

theorem reads_cons {x : β} :
    F.Reads s (x :: xs) s' ↔ ∃ m, F.push s x = (m, .more) ∧ F.Reads m xs s' := by
  unfold Reads
  rcases hpush : F.push s x with ⟨m, signal⟩
  cases signal with
  | more =>
    rw [feed_cons_more hpush]
    constructor
    · intro h
      obtain ⟨hs, hrest⟩ := Prod.mk.inj h
      obtain ⟨hsignal, hn⟩ := Prod.mk.inj hrest
      refine ⟨m, rfl, Prod.ext hs (Prod.ext hsignal (Nat.succ.inj hn))⟩
    · rintro ⟨m', hm', h⟩
      obtain rfl := (Prod.mk.inj hm').1
      rw [h]
      rfl
  | complete | reject =>
    rw [feed_cons_of_ne hpush nofun]
    exact iff_of_false nofun fun ⟨_, hm, _⟩ => nomatch (Prod.mk.inj hm).2

theorem Reads.feed_append (h : F.Reads s xs s') (ys : List β) :
    F.feed s (xs ++ ys) = ((F.feed s' ys).1, (F.feed s' ys).2.1, xs.length + (F.feed s' ys).2.2) := by
  rw [Framer.feed_append, h]

theorem reads_append :
    F.Reads s (xs ++ ys) s' ↔ ∃ m, F.Reads s xs m ∧ F.Reads m ys s' := by
  induction xs generalizing s with
  | nil =>
    constructor
    · exact fun h => ⟨s, reads_nil s, h⟩
    · rintro ⟨m, hnil, h⟩
      obtain rfl : s = m := (Prod.mk.inj hnil).1
      exact h
  | cons x xs ih =>
    rw [List.cons_append, reads_cons]
    constructor
    · rintro ⟨m, hpush, hrest⟩
      obtain ⟨m', hm', hys⟩ := ih.mp hrest
      exact ⟨m', reads_cons.mpr ⟨m, hpush, hm'⟩, hys⟩
    · rintro ⟨m', hcons, hys⟩
      obtain ⟨m, hpush, hm'⟩ := reads_cons.mp hcons
      exact ⟨m, hpush, ih.mpr ⟨m', hm', hys⟩⟩

theorem reads_singleton {x : β} : F.Reads s [x] s' ↔ F.push s x = (s', .more) := by
  rw [reads_cons]
  constructor
  · rintro ⟨m, hpush, hnil⟩
    obtain rfl : m = s' := (Prod.mk.inj hnil).1
    exact hpush
  · exact fun h => ⟨s', h, reads_nil s'⟩

theorem reads_concat {x : β} :
    F.Reads s (xs ++ [x]) s' ↔ ∃ m, F.Reads s xs m ∧ F.push m x = (s', .more) := by
  simp only [reads_append, reads_singleton]

theorem feed_within (h : F.feed s (xs ++ ys) = (s', signal, n)) (hne : signal ≠ .more)
    (hle : n ≤ xs.length) : F.feed s xs = (s', signal, n) := by
  obtain ⟨-, hmore, -⟩ := feed_bounds (F := F) s xs
  rw [feed_append] at h
  rcases hfeed : F.feed s xs with ⟨m, first, k⟩
  rw [hfeed] at h hmore
  cases first with
  | more =>
    obtain rfl : k = xs.length := hmore rfl
    obtain ⟨-, hrest⟩ := Prod.mk.inj h
    obtain ⟨rfl, rfl⟩ := Prod.mk.inj hrest
    have hpos := (feed_bounds (F := F) m ys).2.2 hne
    omega
  | complete | reject => exact h

theorem feed_last (h : F.feed s xs = (s', signal, n)) (hne : signal ≠ .more) :
    ∃ front m x, xs.take n = front ++ [x] ∧ F.Reads s front m ∧ F.push m x = (s', signal) := by
  induction xs generalizing s n with
  | nil =>
    obtain ⟨-, hrest⟩ := Prod.mk.inj h
    exact absurd (Prod.mk.inj hrest).1.symm hne
  | cons x xs ih =>
    rcases hpush : F.push s x with ⟨m, first⟩
    by_cases hfirst : first = .more
    · subst hfirst
      rw [feed_cons_more hpush] at h
      obtain ⟨hs, hrest⟩ := Prod.mk.inj h
      obtain ⟨hsignal, rfl⟩ := Prod.mk.inj hrest
      obtain ⟨front, m', y, htake, hreads, hlast⟩ := ih (n := (F.feed m xs).2.2) (Prod.ext hs (Prod.ext hsignal rfl))
      refine ⟨x :: front, m', y, ?_, reads_cons.mpr ⟨m, hpush, hreads⟩, hlast⟩
      rw [List.take_succ_cons, htake, List.cons_append]
    · rw [feed_cons_of_ne hpush hfirst] at h
      obtain ⟨rfl, hrest⟩ := Prod.mk.inj h
      obtain ⟨rfl, rfl⟩ := Prod.mk.inj hrest
      exact ⟨[], s, x, rfl, reads_nil s, hpush⟩

theorem Reads.eq {m : σ} (h : F.Reads s xs m) (h' : F.Reads s xs s') : m = s' :=
  (Prod.mk.inj (h.symm.trans h')).1

end Framer

structure Session (σ : Type) where
  current : Option σ
  done : List σ
  dropped : Bool

namespace Session

variable {σ β : Type} (F : Framer σ β)

def empty : Session σ := ⟨none, [], false⟩

def state (s : Session σ) : σ := s.current.getD F.fresh

def after (s : Session σ) (c : σ) : Signal → Session σ
  | .more => { s with current := some c }
  | .complete => { s with current := none, done := s.done ++ [c] }
  | .reject => { s with current := some c, dropped := true }

def push (s : Session σ) (b : β) : Session σ :=
  if s.dropped then s else s.after (F.push (s.state F) b).1 (F.push (s.state F) b).2

def run (s : Session σ) (bs : List β) : Session σ := bs.foldl (push F) s

variable {F} {s : Session σ} {c : σ} {n : Nat} {bs : List β}

theorem run_append (s : Session σ) (xs ys : List β) : run F s (xs ++ ys) = run F (run F s xs) ys := List.foldl_append

theorem run_of_dropped (h : s.dropped = true) (bs : List β) : run F s bs = s := by
  induction bs with
  | nil => rfl
  | cons b bs ih =>
    have hpush : push F s b = s := if_pos h
    rw [run, List.foldl_cons, hpush]
    exact ih

theorem push_of_open {b : β} {signal : Signal} (h : s.dropped = false) (hpush : F.push (s.state F) b = (c, signal)) :
    push F s b = s.after c signal := by
  rw [push, if_neg (Bool.eq_false_iff.mp h), hpush]

theorem run_feed {signal : Signal} (h : s.dropped = false) (hne : bs ≠ [])
    (hfeed : F.feed (s.state F) bs = (c, signal, n)) : run F s bs = run F (s.after c signal) (bs.drop n) := by
  induction bs generalizing s n with
  | nil => exact absurd rfl hne
  | cons b bs ih =>
    rcases hpush : F.push (s.state F) b with ⟨m, first⟩
    rw [run, List.foldl_cons, push_of_open h hpush]
    by_cases hfirst : first = .more
    · subst hfirst
      rw [Framer.feed_cons_more hpush] at hfeed
      obtain ⟨hc, hrest⟩ := Prod.mk.inj hfeed
      obtain ⟨hsignal, rfl⟩ := Prod.mk.inj hrest
      rw [List.drop_succ_cons]
      cases bs with
      | nil =>
        obtain rfl : m = c := hc
        obtain rfl : Signal.more = signal := hsignal
        rfl
      | cons b' bs =>
        exact ih (s := s.after m .more) h (List.cons_ne_nil _ _) (Prod.ext hc (Prod.ext hsignal rfl))
    · rw [Framer.feed_cons_of_ne hpush hfirst] at hfeed
      obtain ⟨rfl, hrest⟩ := Prod.mk.inj hfeed
      obtain ⟨rfl, rfl⟩ := Prod.mk.inj hrest
      rfl

end Session

end Abacus.Library
