import Mathlib.Data.List.GetD
import Mathlib.Data.List.TakeWhile

/-! # Byte buffers read under a bound

Every read of a buffer stays below its end or raises `outOfBounds`. Offsets do not wrap; a remaining size
is a 32-bit unsigned number and does, through `sub32`.
-/

namespace Abacus.Library.Bytes

abbrev Str := List UInt8

instance instLawfulBEqStr : LawfulBEq Str := inferInstance

/-- The bytes of a text literal, one for each character. -/
def str (s : String) : Str := s.toList.map fun c => c.toNat.toUInt8

inductive ReadFault
  | outOfBounds
  | reject
  deriving DecidableEq, Repr

abbrev Read := Except ReadFault

def wrap32 (n : Nat) : Nat := n % 4294967296

/-- What is left of an unsigned 32-bit variable when `b` is taken off it. -/
def sub32 (a b : Nat) : Nat := (((a : Int) - b) % 4294967296).toNat

theorem zero_lt_word : 0 < 4294967296 := by decide

theorem one_lt_word : 1 < 4294967296 := by decide

theorem wrap32_of_le {n m : Nat} (h : n ≤ m) (hm : m < 4294967296) : wrap32 n = n :=
  Nat.mod_eq_of_lt (Nat.lt_of_le_of_lt h hm)

theorem sub32_of_le {a b : Nat} (ha : a < 4294967296) (hb : b ≤ a) : sub32 a b = a - b := by
  unfold sub32
  omega

variable {pos : Nat} {buf : Str}

theorem sub32_rest {n k : Nat} (hn : n < 4294967296) (h : pos + k ≤ n) : sub32 (n - pos) k = n - (pos + k) := by
  rw [sub32_of_le (by omega) (by omega), Nat.sub_sub]

def byteAt (buf : Str) (pos : Nat) : Read UInt8 :=
  match buf[pos]? with
  | some b => .ok b
  | none => .error .outOfBounds

def u32At (buf : Str) (pos : Nat) : Read Nat := do
  let b₀ ← byteAt buf pos
  let b₁ ← byteAt buf (pos + 1)
  let b₂ ← byteAt buf (pos + 2)
  let b₃ ← byteAt buf (pos + 3)
  return b₀.toNat + 256 * b₁.toNat + 65536 * b₂.toNat + 16777216 * b₃.toNat

def i32At (buf : Str) (pos : Nat) : Read Int := do
  let n ← u32At buf pos
  return if n < 2147483648 then n else (n : Int) - 4294967296

def le32 (n : Nat) : Str := [n, n / 256, n / 65536, n / 16777216].map UInt8.ofNat

/-- A block copy out of the buffer; a copy of no bytes reads nothing. -/
def bytesAt (buf : Str) (pos len : Nat) : Read Str :=
  if len = 0 then .ok []
  else if pos + len ≤ buf.length then .ok ((buf.drop pos).take len)
  else .error .outOfBounds

def cstr (buf : Str) (pos : Nat) : Str := (buf.drop pos).takeWhile (· ≠ 0)

def cstrAt (buf : Str) (pos : Nat) : Read Str :=
  if 0 ∈ buf.drop pos then .ok (cstr buf pos) else .error .outOfBounds

def strnlenAt (buf : Str) : Nat → Nat → Read Nat
  | _, 0 => .ok 0
  | pos, max + 1 => do
    let b ← byteAt buf pos
    if b = 0 then return 0
    let rest ← strnlenAt buf (pos + 1) max
    return rest + 1

def zerosAt (buf : Str) : Nat → Nat → Read Nat
  | _, 0 => .ok 0
  | pos, count + 1 => do
    let b ← byteAt buf pos
    let rest ← zerosAt buf (pos + 1) count
    return if b = 0 then rest + 1 else rest

/-- Whether the next `size` bytes hold `zeros` terminators; the scan stops at the last one. -/
def termsAt (buf : Str) : Nat → Nat → Nat → Read Bool
  | _, 0, zeros => .ok (zeros == 0)
  | pos, size + 1, zeros =>
    if zeros = 0 then .ok true
    else do
      let b ← byteAt buf pos
      termsAt buf (pos + 1) size (if b = 0 then zeros - 1 else zeros)

theorem byteAt_ok (h : pos < buf.length) : byteAt buf pos = .ok buf[pos] := by
  simp [byteAt, h]

theorem byteAt_oob (h : buf.length ≤ pos) : byteAt buf pos = .error .outOfBounds := by
  simp [byteAt, h]

def u32 (buf : Str) (pos : Nat) : Nat :=
  (buf.getD pos 0).toNat + 256 * (buf.getD (pos + 1) 0).toNat + 65536 * (buf.getD (pos + 2) 0).toNat +
    16777216 * (buf.getD (pos + 3) 0).toNat

theorem u32_lt (buf : Str) (pos : Nat) : u32 buf pos < 4294967296 := by
  have h₀ := (buf.getD pos 0).toNat_lt
  have h₁ := (buf.getD (pos + 1) 0).toNat_lt
  have h₂ := (buf.getD (pos + 2) 0).toNat_lt
  have h₃ := (buf.getD (pos + 3) 0).toNat_lt
  unfold u32
  omega

theorem u32At_ok (h : pos + 4 ≤ buf.length) : u32At buf pos = .ok (u32 buf pos) := by
  have h₀ : pos < buf.length := by omega
  have h₁ : pos + 1 < buf.length := by omega
  have h₂ : pos + 2 < buf.length := by omega
  have h₃ : pos + 3 < buf.length := by omega
  simp only [u32At, byteAt_ok h₀, byteAt_ok h₁, byteAt_ok h₂, byteAt_ok h₃, u32,
    List.getD_eq_getElem _ _ h₀, List.getD_eq_getElem _ _ h₁, List.getD_eq_getElem _ _ h₂,
    List.getD_eq_getElem _ _ h₃]
  rfl

theorem u32At_oob (h : buf.length < pos + 4) : u32At buf pos = .error .outOfBounds := by
  unfold u32At
  by_cases h₀ : pos < buf.length
  · by_cases h₁ : pos + 1 < buf.length
    · by_cases h₂ : pos + 2 < buf.length
      · rw [byteAt_ok h₀, byteAt_ok h₁, byteAt_ok h₂, byteAt_oob (by omega)]
        rfl
      · rw [byteAt_ok h₀, byteAt_ok h₁, byteAt_oob (by omega)]
        rfl
    · rw [byteAt_ok h₀, byteAt_oob (by omega)]
      rfl
  · rw [byteAt_oob (by omega)]
    rfl

theorem bytesAt_ok {len : Nat} (h : pos + len ≤ buf.length) : bytesAt buf pos len = .ok ((buf.drop pos).take len) := by
  unfold bytesAt
  rw [if_pos h]
  split
  · next hlen => simp [hlen]
  · rfl

theorem bytesAt_oob {len : Nat} (hlen : len ≠ 0) (h : buf.length < pos + len) :
    bytesAt buf pos len = .error .outOfBounds := by
  unfold bytesAt
  rw [if_neg hlen, if_neg (by omega)]

def zeros (buf : Str) (pos size : Nat) : Nat := ((buf.drop pos).take size).count 0

@[simp] theorem zeros_zero (buf : Str) (pos : Nat) : zeros buf pos 0 = 0 := by
  simp [zeros]

theorem zeros_succ (size : Nat) (h : pos < buf.length) :
    zeros buf pos (size + 1) = zeros buf (pos + 1) size + if buf[pos] = 0 then 1 else 0 := by
  unfold zeros
  rw [List.drop_eq_getElem_cons h, List.take_succ_cons, List.count_cons]
  simp only [beq_iff_eq]

theorem zeros_past_end (size : Nat) (h : buf.length ≤ pos) : zeros buf pos size = 0 := by
  simp [zeros, List.drop_eq_nil_of_le h]

theorem zerosAt_ok {size : Nat} (h : size ≤ buf.length - pos) : zerosAt buf pos size = .ok (zeros buf pos size) := by
  induction size generalizing pos with
  | zero => simp [zerosAt]
  | succ size ih =>
    have hpos : pos < buf.length := by omega
    rw [zerosAt, byteAt_ok hpos, ih (by omega), zeros_succ size hpos]
    by_cases hb : buf[pos] = 0 <;> simp [hb, bind, Except.bind, pure, Except.pure]

theorem strnlenAt_ok (pos : Nat) {max : Nat} (h : max ≤ buf.length - pos) :
    ∃ len, strnlenAt buf pos max = .ok len ∧ (len = max ↔ zeros buf pos max = 0) := by
  induction max generalizing pos with
  | zero => exact ⟨0, rfl, by simp⟩
  | succ max ih =>
    have hpos : pos < buf.length := by omega
    obtain ⟨len, hlen, hiff⟩ := ih (pos + 1) (by omega)
    rw [strnlenAt, byteAt_ok hpos, zeros_succ max hpos]
    by_cases hb : buf[pos] = 0
    · exact ⟨0, by simp [hb, bind, Except.bind, pure, Except.pure], by simp [hb]⟩
    · refine ⟨len + 1, by simp [hb, hlen, bind, Except.bind, pure, Except.pure], ?_⟩
      simp only [hb, if_false, Nat.add_zero, ← hiff]
      omega

theorem termsAt_eq (buf : Str) (pos size n : Nat) :
    termsAt buf pos size n =
      if n ≤ zeros buf pos size then .ok true
      else if size ≤ buf.length - pos then .ok false
      else .error .outOfBounds := by
  induction size generalizing pos n with
  | zero => cases n <;> simp [termsAt]
  | succ size ih =>
    rw [termsAt]
    by_cases hn : n = 0
    · simp [hn]
    rw [if_neg hn]
    by_cases hpos : pos < buf.length
    · rw [byteAt_ok hpos, zeros_succ size hpos]
      have hsize : size + 1 ≤ buf.length - pos ↔ size ≤ buf.length - (pos + 1) := by omega
      change termsAt buf (pos + 1) size (if buf[pos] = 0 then n - 1 else n) = _
      rw [ih]
      by_cases hb : buf[pos] = 0
      · have hcount : n - 1 ≤ zeros buf (pos + 1) size ↔ n ≤ zeros buf (pos + 1) size + 1 := by omega
        simp only [hb, if_true, hcount, hsize]
      · simp only [hb, if_false, hsize, Nat.add_zero]
    · rw [byteAt_oob (by omega), zeros_past_end _ (by omega), if_neg (by omega), if_neg (by omega)]
      rfl

theorem cstrAt_ok {size : Nat} (h : 0 < zeros buf pos size) :
    cstrAt buf pos = .ok (cstr buf pos) ∧ (cstr buf pos).length < size ∧
      pos + (cstr buf pos).length < buf.length ∧
      zeros buf (pos + ((cstr buf pos).length + 1)) (size - ((cstr buf pos).length + 1)) =
        zeros buf pos size - 1 := by
  induction size generalizing pos with
  | zero => simp at h
  | succ size ih =>
    by_cases hpos : pos < buf.length
    · have hdrop := List.drop_eq_getElem_cons hpos
      rw [zeros_succ size hpos] at h ⊢
      by_cases hb : buf[pos] = 0
      · have hcstr : cstr buf pos = [] := by
          rw [cstr, hdrop, List.takeWhile_cons_of_neg (by simpa using hb)]
        have hmem : (0 : UInt8) ∈ buf.drop pos := by
          rw [hdrop, hb]
          exact List.mem_cons_self
        simp [cstrAt, hcstr, hmem, hb, hpos]
      · simp only [hb, if_false, Nat.add_zero] at h ⊢
        obtain ⟨hread, hlt, hend, hrest⟩ := ih h
        have hcstr : cstr buf pos = buf[pos] :: cstr buf (pos + 1) := by
          rw [cstr, hdrop, List.takeWhile_cons_of_pos (by simpa using hb), cstr]
        have hmem : (0 : UInt8) ∈ buf.drop pos := by
          rw [hdrop]
          refine List.mem_cons_of_mem _ (Decidable.byContradiction fun hno => ?_)
          simp [cstrAt, hno] at hread
        refine ⟨by rw [cstrAt, if_pos hmem], by simp [hcstr, hlt], by simp [hcstr]; omega, ?_⟩
        rw [hcstr, List.length_cons, ← hrest]
        congr 1 <;> omega
    · rw [zeros_past_end _ (by omega)] at h
      omega

def terms (buf : Str) (pos : Nat) : Nat := (buf.drop pos).count 0

theorem zeros_rest (buf : Str) (pos : Nat) : zeros buf pos (buf.length - pos) = terms buf pos := by
  rw [zeros, ← List.length_drop, List.take_length, terms]

theorem zeros_le_terms (buf : Str) (pos size : Nat) : zeros buf pos size ≤ terms buf pos :=
  (List.take_sublist _ _).count_le 0

theorem terms_pos_iff (buf : Str) (pos : Nat) : 0 < terms buf pos ↔ 0 ∈ buf.drop pos := List.count_pos_iff

theorem terms_next (h : 0 < terms buf pos) : pos + ((cstr buf pos).length + 1) ≤ buf.length ∧
      terms buf (pos + ((cstr buf pos).length + 1)) = terms buf pos - 1 := by
  rw [← zeros_rest] at h
  obtain ⟨_, hlt, hend, hnext⟩ := cstrAt_ok h
  rw [zeros_rest, Nat.sub_sub, zeros_rest] at hnext
  exact ⟨by omega, hnext⟩

theorem zero_notMem_cstr (buf : Str) (pos : Nat) : (0 : UInt8) ∉ cstr buf pos := by
  intro hmem
  have hne := List.mem_takeWhile_imp hmem
  simp at hne

theorem drop_eq_cstr (h : 0 ∈ buf.drop pos) :
    buf.drop pos = cstr buf pos ++ 0 :: buf.drop (pos + ((cstr buf pos).length + 1)) := by
  have hlt : (cstr buf pos).length < (buf.drop pos).length := by
    have hnext := terms_next ((terms_pos_iff buf pos).mpr h)
    rw [List.length_drop]
    omega
  have hsplit := List.takeWhile_append_dropWhile (p := fun b : UInt8 => decide (b ≠ 0)) (l := buf.drop pos)
  cases hrest : (buf.drop pos).dropWhile (fun b => decide (b ≠ 0)) with
  | nil =>
    rw [hrest, List.append_nil] at hsplit
    rw [cstr, hsplit] at hlt
    omega
  | cons b rest =>
    have hb : b = 0 := by
      have hhead := List.head?_dropWhile_not (fun b : UInt8 => decide (b ≠ 0)) (buf.drop pos)
      rw [hrest] at hhead
      simpa using hhead
    subst hb
    rw [hrest] at hsplit
    change cstr buf pos ++ 0 :: rest = buf.drop pos at hsplit
    have hdrop : buf.drop (pos + ((cstr buf pos).length + 1)) = rest := by
      rw [← List.drop_drop, ← hsplit]
      simp
    rw [hdrop, hsplit]

theorem append_zero_inj {a a' r r' : Str} (ha : (0 : UInt8) ∉ a) (ha' : (0 : UInt8) ∉ a')
    (h : a ++ 0 :: r = a' ++ 0 :: r') : a = a' ∧ r = r' := by
  induction a generalizing a' with
  | nil =>
    cases a' with
    | nil => exact ⟨rfl, (List.cons.inj h).2⟩
    | cons b a' =>
      obtain ⟨rfl, _⟩ := List.cons.inj h
      exact absurd List.mem_cons_self ha'
  | cons b a ih =>
    cases a' with
    | nil =>
      obtain ⟨rfl, _⟩ := List.cons.inj h
      exact absurd List.mem_cons_self ha
    | cons b' a' =>
      obtain ⟨rfl, htail⟩ := List.cons.inj h
      obtain ⟨rfl, rfl⟩ := ih (fun hm => ha (List.mem_cons_of_mem _ hm))
        (fun hm => ha' (List.mem_cons_of_mem _ hm)) htail
      exact ⟨rfl, rfl⟩

theorem count_le_zeros {w rest : Str} (size : Nat) (h : buf.drop pos = w ++ rest) (hsize : w.length ≤ size) :
    w.count 0 ≤ zeros buf pos size := by
  rw [zeros, h, List.take_append, List.take_of_length_le hsize, List.count_append]
  exact Nat.le_add_right _ _

theorem u32_eq_drop (buf : Str) (pos : Nat) : u32 buf pos = u32 (buf.drop pos) 0 := by
  simp [u32]

theorem u32_append {number : Str} (h : number.length = 4) (rest : Str) : u32 (number ++ rest) 0 = u32 number 0 := by
  match number, h with
  | [_, _, _, _], _ => rfl

end Abacus.Library.Bytes
