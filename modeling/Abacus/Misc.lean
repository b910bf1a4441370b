import Abacus.Library.Bytes
import Mathlib.Algebra.Order.Ring.Int

/-! # Numbers as text

`from_string` reads a number into the widest signed type and then compares it with the range of the type
asked for. It takes white space and a sign before the digits and nothing after them.
-/

namespace Abacus.Misc

open Library.Bytes

def isSpace (b : UInt8) : Bool := b = 32 || (9 ≤ b && b ≤ 13)

def isDigit (b : UInt8) : Bool := 48 ≤ b && b ≤ 57

def digitsValue (s : Str) : Nat := s.foldl (fun v b => 10 * v + (b.toNat - 48)) 0

def readDigits (s : Str) : Option Nat := if s ≠ [] ∧ s.all isDigit then some (digitsValue s) else none

def readSigned : Str → Option Int
  | 45 :: s => (readDigits s).map fun n => -(n : Int)
  | 43 :: s => (readDigits s).map fun n => (n : Int)
  | s => (readDigits s).map fun n => (n : Int)

/-- The value of the text, if it is a number that lies in the widest signed type and in `[lo, hi]`. -/
def fromString (lo hi : Int) (s : Str) : Option Int :=
  (readSigned (s.dropWhile isSpace)).filter fun v =>
    -9223372036854775808 ≤ v ∧ v ≤ 9223372036854775807 ∧ lo ≤ v ∧ v ≤ hi

def fromStringU32 (s : Str) : Option Nat := (fromString 0 4294967295 s).map Int.toNat

def fromStringI32 (s : Str) : Option Int := fromString (-2147483648) 2147483647 s

def fromStringTime (s : Str) : Option Int := fromString (-9223372036854775808) 9223372036854775807 s

/-- The number at the start of a text, as far as there is one, within the range of `long`. -/
def strtol (s : Str) : Int :=
  match s.dropWhile isSpace with
  | 45 :: s => max (-(digitsValue (s.takeWhile isDigit) : Int)) (-9223372036854775808)
  | 43 :: s => min (digitsValue (s.takeWhile isDigit) : Int) 9223372036854775807
  | s => min (digitsValue (s.takeWhile isDigit) : Int) 9223372036854775807

def integerValue (s : Str) : Int :=
  match s.dropWhile isSpace with
  | 45 :: s => -(digitsValue (s.takeWhile isDigit) : Int)
  | 43 :: s => digitsValue (s.takeWhile isDigit)
  | s => digitsValue (s.takeWhile isDigit)

def toU32 (z : Int) : Nat := (z % 4294967296).toNat

/-- The pieces between commas; nothing follows a comma at the end. -/
def pieces (s : Str) : List Str :=
  let all := s.splitOn 44
  if all.getLast? = some [] then all.dropLast else all

def digit (n : Nat) : UInt8 := (48 + n % 10).toUInt8

def decimalDigits : Nat → Nat → Str
  | 0, n => [digit n]
  | fuel + 1, n => if n < 10 then [digit n] else decimalDigits fuel (n / 10) ++ [digit n]

def decimal (n : Nat) : Str := decimalDigits n n

def toString (z : Int) : Str := if z < 0 then 45 :: decimal z.natAbs else decimal z.toNat

theorem toNat_digit (n : Nat) : (digit n).toNat = 48 + n % 10 := by
  unfold digit
  rw [Nat.toUInt8_eq, UInt8.toNat_ofNat_of_lt']
  exact Nat.lt_of_lt_of_le (show 48 + n % 10 < 58 by omega) (by decide)

theorem isDigit_digit (n : Nat) : isDigit (digit n) = true := by
  have h := toNat_digit n
  simp only [isDigit, Bool.and_eq_true, decide_eq_true_eq, UInt8.le_iff_toNat_le, h]
  refine ⟨?_, ?_⟩
  · exact Nat.le_add_right 48 _
  · change 48 + n % 10 ≤ 57
    omega

theorem digitsValue_append_digit (s : Str) (n : Nat) :
    digitsValue (s ++ [digit n]) = 10 * digitsValue s + n % 10 := by
  unfold digitsValue
  rw [List.foldl_append, List.foldl_cons, List.foldl_nil, toNat_digit, Nat.add_sub_cancel_left]

variable {n : Nat}

theorem digitsValue_decimalDigits {fuel : Nat} (h : n ≤ fuel) : digitsValue (decimalDigits fuel n) = n := by
  induction fuel generalizing n with
  | zero =>
    obtain rfl := Nat.le_zero.mp h
    rfl
  | succ fuel ih =>
    rw [decimalDigits]
    split
    · next hlt =>
      have hvalue := digitsValue_append_digit [] n
      rw [List.nil_append] at hvalue
      rw [hvalue, Nat.mod_eq_of_lt hlt]
      exact Nat.zero_add n
    · rw [digitsValue_append_digit, ih (by omega)]
      omega

theorem all_isDigit_decimalDigits (fuel n : Nat) : (decimalDigits fuel n).all isDigit = true := by
  induction fuel generalizing n with
  | zero => simp [decimalDigits, isDigit_digit]
  | succ fuel ih =>
    rw [decimalDigits]
    split
    · simp [isDigit_digit]
    · simp [ih, isDigit_digit]

theorem decimalDigits_ne_nil (fuel n : Nat) : decimalDigits fuel n ≠ [] := by
  cases fuel with
  | zero => simp [decimalDigits]
  | succ fuel =>
    rw [decimalDigits]
    split <;> simp

theorem length_decimalDigits_le {fuel width : Nat} (h : n < 10 ^ (width + 1)) :
    (decimalDigits fuel n).length ≤ width + 1 := by
  induction fuel generalizing n width with
  | zero => simp [decimalDigits]
  | succ fuel ih =>
    rw [decimalDigits]
    split
    · simp
    · next hn =>
      cases width with
      | zero => exact absurd h hn
      | succ width =>
        have hlength : (decimalDigits fuel (n / 10)).length ≤ width + 1 := ih (by omega)
        rw [List.length_append, List.length_singleton]
        omega

theorem readDigits_decimal (n : Nat) : readDigits (decimal n) = some n := by
  unfold readDigits decimal
  rw [if_pos ⟨decimalDigits_ne_nil n n, all_isDigit_decimalDigits n n⟩,
    digitsValue_decimalDigits (Nat.le_refl n)]

theorem decimal_inj {j k : Nat} (h : decimal j = decimal k) : j = k := by
  have hread := readDigits_decimal j
  rw [h, readDigits_decimal] at hread
  exact (Option.some.inj hread).symm

theorem append_decimal_inj {a b : Str} (ha : a.all (fun x => !isDigit x) = true)
    (hb : b.all (fun x => !isDigit x) = true) {j k : Nat} (h : a ++ decimal j = b ++ decimal k) : a = b ∧ j = k := by
  have hname : ∀ (a : Str) (n : Nat), a.all (fun x => !isDigit x) = true →
      (a ++ decimal n).takeWhile (fun x => !isDigit x) = a := by
    intro a n ha
    have hdigits := all_isDigit_decimalDigits n n
    rw [List.takeWhile_append_of_pos (List.all_eq_true.mp ha)]
    rw [decimal]
    cases hcons : decimalDigits n n with
    | nil => exact absurd hcons (decimalDigits_ne_nil n n)
    | cons d ds =>
      rw [hcons] at hdigits
      have hd := List.all_eq_true.mp hdigits d List.mem_cons_self
      rw [List.takeWhile_cons_of_neg (by simp [hd]), List.append_nil]
  have hab : a = b := by rw [← hname a j ha, h, hname b k hb]
  subst hab
  exact ⟨rfl, decimal_inj (List.append_cancel_left h)⟩

theorem of_isDigit {b : UInt8} (h : isDigit b = true) : isSpace b = false ∧ b ≠ 45 ∧ b ≠ 43 := by
  simp only [isDigit, Bool.and_eq_true, decide_eq_true_eq, UInt8.le_iff_toNat_le] at h
  refine ⟨?_, ?_, ?_⟩
  · simp only [isSpace, Bool.or_eq_false_iff, Bool.and_eq_false_iff, decide_eq_false_iff_not, UInt8.le_iff_toNat_le,
      ← UInt8.toNat_inj]
    change ¬b.toNat = 32 ∧ (¬9 ≤ b.toNat ∨ ¬b.toNat ≤ 13)
    have h48 : 48 ≤ b.toNat := h.1
    omega
  · rintro rfl
    exact absurd h.1 (by decide)
  · rintro rfl
    exact absurd h.1 (by decide)

theorem readSigned_of_isDigit {b : UInt8} {s : Str} (h : isDigit b = true) :
    readSigned ((b :: s).dropWhile isSpace) = (readDigits (b :: s)).map fun n => (n : Int) := by
  obtain ⟨hspace, h45, h43⟩ := of_isDigit h
  rw [List.dropWhile_cons_of_neg (by rw [hspace]; exact Bool.false_ne_true)]
  simp [readSigned, h45, h43]

theorem fromString_toString (lo hi z : Int) : fromString lo hi (toString z) =
    if -9223372036854775808 ≤ z ∧ z ≤ 9223372036854775807 ∧ lo ≤ z ∧ z ≤ hi then some z else none := by
  have hread : readSigned ((toString z).dropWhile isSpace) = some z := by
    unfold toString
    split
    · next hneg =>
      rw [List.dropWhile_cons_of_neg (by decide), readSigned, readDigits_decimal]
      exact congrArg some (by omega : -(z.natAbs : Int) = z)
    · next hpos =>
      have hdigits := readDigits_decimal z.toNat
      have hall := all_isDigit_decimalDigits z.toNat z.toNat
      rw [show decimal z.toNat = decimalDigits z.toNat z.toNat from rfl] at hdigits ⊢
      cases hcons : decimalDigits z.toNat z.toNat with
      | nil => exact absurd hcons (decimalDigits_ne_nil _ _)
      | cons b s =>
        rw [hcons] at hdigits hall
        rw [readSigned_of_isDigit (List.all_eq_true.mp hall b List.mem_cons_self), hdigits]
        exact congrArg some (Int.toNat_of_nonneg (Int.not_lt.mp hpos))
  rw [fromString, hread]
  split
  · next hrange => exact Option.filter_some_pos (decide_eq_true hrange)
  · next hrange => exact Option.filter_some_neg (decide_eq_false hrange)

theorem toString_natCast (n : Nat) : toString (n : Int) = decimal n := by
  rw [toString, if_neg (Int.not_lt.mpr (Int.natCast_nonneg n)), Int.toNat_natCast]

theorem fromString_decimal {lo hi : Int} (hlo : lo ≤ n) (hhi : (n : Int) ≤ hi)
    (hmax : n ≤ 9223372036854775807) : fromString lo hi (decimal n) = some (n : Int) := by
  rw [← toString_natCast, fromString_toString, if_pos ⟨by omega, by omega, hlo, hhi⟩]

theorem strtol_eq (s : Str) :
    strtol s = max (min (integerValue s) 9223372036854775807) (-9223372036854775808) := by
  unfold strtol integerValue
  split <;> omega

theorem strtol_decimal (h : n ≤ 9223372036854775807) : strtol (decimal n) = n := by
  have hall := all_isDigit_decimalDigits n n
  have hvalue := digitsValue_decimalDigits (le_refl n)
  unfold strtol decimal
  cases hcons : decimalDigits n n with
  | nil => exact absurd hcons (decimalDigits_ne_nil n n)
  | cons b s =>
    rw [hcons] at hall hvalue
    obtain ⟨hspace, h45, h43⟩ := of_isDigit (List.all_eq_true.mp hall b List.mem_cons_self)
    have htake : (b :: s).takeWhile isDigit = b :: s := List.takeWhile_eq_self_iff.mpr (List.all_eq_true.mp hall)
    rw [List.dropWhile_cons_of_neg (by rw [hspace]; exact Bool.false_ne_true)]
    split
    · next heq => exact absurd (List.cons.inj heq).1 h45
    · next heq => exact absurd (List.cons.inj heq).1 h43
    · rw [htake, hvalue]
      omega

theorem fromStringU32_decimal (h : n < 4294967296) : fromStringU32 (decimal n) = some n := by
  rw [fromStringU32, fromString_decimal (by omega) (by omega) (by omega)]
  rfl

theorem fromStringTime_decimal (h : n ≤ 9223372036854775807) : fromStringTime (decimal n) = some (n : Int) :=
  fromString_decimal (by omega) (by omega) h

theorem toU32_lt (z : Int) : toU32 z < 4294967296 := by
  unfold toU32
  omega

theorem fromStringU32_lt {s : Str} (h : fromStringU32 s = some n) : n < 4294967296 := by
  obtain ⟨v, hv, rfl⟩ := Option.map_eq_some_iff.mp h
  obtain ⟨-, hrange⟩ := Option.filter_eq_some_iff.mp hv
  have hle := (of_decide_eq_true hrange).2.2.2
  omega

theorem fromStringI32_range {s : Str} {z : Int} (h : fromStringI32 s = some z) : -2147483648 ≤ z ∧ z ≤ 2147483647 := by
  obtain ⟨-, hrange⟩ := Option.filter_eq_some_iff.mp h
  have hle := of_decide_eq_true hrange
  omega

end Abacus.Misc
