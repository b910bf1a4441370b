import Abacus.Library.Bytes

/-! # What a bounded reader can do

`Sat r P` says that the reader `r` stays inside its buffer and that `P` holds of what it returns. A
rejection satisfies every `P`. The rules turn a decoder into a statement about its buffer.
-/

namespace Abacus.Library.Reader

open Library.Bytes

def Sat {α : Type} (r : Read α) (P : α → Prop) : Prop :=
  match r with
  | .ok a => P a
  | .error .reject => True
  | .error .outOfBounds => False

variable {α β : Type}

@[simp] theorem sat_ok (a : α) (P : α → Prop) : Sat (.ok a) P ↔ P a := Iff.rfl

@[simp] theorem sat_pure (a : α) (P : α → Prop) : Sat (pure a) P ↔ P a := Iff.rfl

@[simp] theorem sat_reject (P : α → Prop) : Sat (throw .reject) P ↔ True := Iff.rfl

@[simp] theorem sat_bind (r : Read α) (f : α → Read β) (P : β → Prop) :
    Sat (r >>= f) P ↔ Sat r fun a => Sat (f a) P := by
  rcases r with (_ | _) | a <;> exact Iff.rfl

theorem sat_ite {c : Prop} [Decidable c] (r s : Read α) (P : α → Prop) :
    Sat (if c then r else s) P ↔ (c → Sat r P) ∧ (¬c → Sat s P) := by
  by_cases hc : c <;> simp [hc]

theorem Sat.mono {r : Read α} {P Q : α → Prop} (h : Sat r P) (hPQ : ∀ a, P a → Q a) : Sat r Q := by
  rcases r with (_ | _) | a
  · exact h
  · trivial
  · exact hPQ a h

theorem sat_byteAt (buf : Str) (pos : Nat) (P : UInt8 → Prop) :
    Sat (byteAt buf pos) P ↔ ∃ h : pos < buf.length, P buf[pos] := by
  by_cases h : pos < buf.length
  · simp [byteAt_ok h, h]
  · rw [byteAt_oob (by omega)]
    simp [h, Sat]

theorem sat_u32At (buf : Str) (pos : Nat) (P : Nat → Prop) :
    Sat (u32At buf pos) P ↔ pos + 4 ≤ buf.length ∧ P (u32 buf pos) := by
  by_cases h : pos + 4 ≤ buf.length
  · simp [u32At_ok h, h]
  · rw [u32At_oob (by omega)]
    simp [h, Sat]

def signed32 (n : Nat) : Int := if n < 2147483648 then n else (n : Int) - 4294967296

theorem sat_i32At (buf : Str) (pos : Nat) (P : Int → Prop) :
    Sat (i32At buf pos) P ↔ pos + 4 ≤ buf.length ∧ P (signed32 (u32 buf pos)) := by
  unfold i32At
  rw [sat_bind, sat_u32At]
  exact Iff.rfl

theorem sat_bytesAt (buf : Str) (pos len : Nat) (P : Str → Prop) :
    Sat (bytesAt buf pos len) P ↔
      (len = 0 ∨ pos + len ≤ buf.length) ∧ P ((buf.drop pos).take len) := by
  by_cases h : pos + len ≤ buf.length
  · simp [bytesAt_ok h, h]
  · by_cases hlen : len = 0
    · simp [bytesAt, hlen]
    · rw [bytesAt_oob hlen (by omega)]
      simp [h, hlen, Sat]

theorem sat_cstrAt (buf : Str) (pos : Nat) (P : Str → Prop) :
    Sat (cstrAt buf pos) P ↔ 0 ∈ buf.drop pos ∧ P (cstr buf pos) := by
  unfold cstrAt
  by_cases h : (0 : UInt8) ∈ buf.drop pos
  · simp [h]
  · rw [if_neg h]
    simp [h, Sat]

theorem sat_termsAt (buf : Str) (pos size n : Nat) (P : Bool → Prop) :
    Sat (termsAt buf pos size n) P ↔
      (n ≤ zeros buf pos size → P true) ∧
        (zeros buf pos size < n → size ≤ buf.length - pos ∧ P false) := by
  rw [termsAt_eq, sat_ite, sat_ite]
  by_cases hn : n ≤ zeros buf pos size
  · simp [hn, Nat.not_lt.mpr hn]
  · by_cases hsize : size ≤ buf.length - pos <;> simp [hn, hsize, Sat, Nat.lt_of_not_le hn]

theorem sat_cstrAt_of_terms {buf : Str} {pos : Nat} (h : 0 < terms buf pos) (P : Str → Prop) :
    Sat (cstrAt buf pos) P ↔ P (cstr buf pos) := by
  rw [sat_cstrAt]
  exact and_iff_right ((terms_pos_iff buf pos).mp h)

def Ensures (r : Read α) (P : α → Prop) : Prop := ∀ a, r = .ok a → P a

section

variable {r : Read α} {f : α → Read β} {P : β → Prop}

theorem ensures_any (r : Read α) : Ensures r fun _ => True := fun _ _ => trivial

theorem ensures_pure {b : β} (h : P b) : Ensures (pure b) P := by
  rintro a ⟨⟩
  exact h

theorem ensures_throw (fault : ReadFault) : Ensures (throw fault : Read β) P := nofun

theorem ensures_bind {R : α → Prop} (hr : Ensures r R) (hf : ∀ a, R a → Ensures (f a) P) : Ensures (r >>= f) P := by
  cases r with
  | error fault => exact nofun
  | ok a => exact hf a (hr a rfl)

theorem ensures_skip (hf : ∀ a, Ensures (f a) P) : Ensures (r >>= f) P :=
  ensures_bind (ensures_any r) fun a _ => hf a

theorem ensures_ite {c : Prop} [Decidable c] {p q : Read β} (hp : c → Ensures p P) (hq : ¬c → Ensures q P) :
    Ensures (if c then p else q) P := by
  split
  · next h => exact hp h
  · next h => exact hq h

theorem ensures_check {c : Prop} [Decidable c] {p : Unit → Read β} {q : Read β} (hq : Ensures q P) :
    Ensures (if c then throw .reject >>= p else q) P := ensures_ite (fun _ => nofun) fun _ => hq

theorem ensures_cstrAt (buf : Str) (pos : Nat) : Ensures (cstrAt buf pos) ((0 : UInt8) ∉ ·) := by
  intro s hs
  unfold cstrAt at hs
  split at hs
  · cases hs
    exact zero_notMem_cstr buf pos
  · cases hs

end

end Abacus.Library.Reader
