import Abacus.Library.Reader

/-! # Reading back what was written

A reader that stands before a written piece returns what was written there.
-/

namespace Abacus.Library.Written

open Library.Bytes Library.Reader

variable {buf piece rest s data : Str} {pos n : Nat}

theorem drop_written (h : buf.drop pos = piece ++ rest) : buf.drop (pos + piece.length) = rest := by
  rw [← List.drop_drop, h, List.drop_left]

theorem length_le_flatMap {α : Type} {f : α → Str} (hf : ∀ a, f a ≠ []) (l : List α) :
    l.length ≤ (l.flatMap f).length := by
  induction l with
  | nil => exact Nat.zero_le _
  | cons a l ih =>
    have hpos := List.length_pos_iff.mpr (hf a)
    rw [List.flatMap_cons, List.length_append, List.length_cons]
    omega

@[simp] theorem length_le32 (n : Nat) : (le32 n).length = 4 := rfl

theorem u32_le32 (hn : n < 4294967296) : u32 (le32 n) 0 = n := by
  change (UInt8.ofNat n).toNat + 256 * (UInt8.ofNat (n / 256)).toNat + 65536 * (UInt8.ofNat (n / 65536)).toNat +
    16777216 * (UInt8.ofNat (n / 16777216)).toNat = n
  simp only [UInt8.toNat_ofNat']
  omega

theorem u32_written (hn : n < 4294967296) (h : buf.drop pos = le32 n ++ rest) : u32 buf pos = n := by
  rw [u32_eq_drop, h, u32_append (length_le32 n), u32_le32 hn]

theorem u32At_written (hn : n < 4294967296) (h : buf.drop pos = le32 n ++ rest) : u32At buf pos = .ok n := by
  have hlength : pos + 4 ≤ buf.length := by
    have hdrop := congrArg List.length h
    rw [List.length_drop, List.length_append, length_le32] at hdrop
    omega
  rw [u32At_ok hlength, u32_written hn h]

theorem i32At_written {z : Int} (hlow : -2147483648 ≤ z) (hhigh : z ≤ 2147483647)
    (h : buf.drop pos = le32 (z % 4294967296).toNat ++ rest) : i32At buf pos = .ok z := by
  have hread := u32At_written (by omega) h
  rw [i32At, hread]
  change Except.ok (signed32 _) = _
  unfold signed32
  congr 1
  split <;> omega

theorem mem_written (h : buf.drop pos = s ++ 0 :: rest) : (0 : UInt8) ∈ buf.drop pos := by
  rw [h]
  exact List.mem_append_right _ List.mem_cons_self

theorem cstr_written (hs : (0 : UInt8) ∉ s) (h : buf.drop pos = s ++ 0 :: rest) : cstr buf pos = s := by
  have hsplit := drop_eq_cstr (mem_written h)
  rw [h] at hsplit
  exact (append_zero_inj hs (zero_notMem_cstr buf pos) hsplit).1.symm

theorem cstrAt_written (hs : (0 : UInt8) ∉ s) (h : buf.drop pos = s ++ 0 :: rest) : cstrAt buf pos = .ok s := by
  rw [cstrAt, if_pos (mem_written h), cstr_written hs h]

theorem cstr_eq_self (hs : (0 : UInt8) ∉ s) : cstr s 0 = s := by
  rw [cstr, List.drop_zero, List.takeWhile_eq_self_iff]
  intro b hb
  exact decide_eq_true fun hzero => hs (hzero ▸ hb)

theorem bytesAt_written (h : buf.drop pos = data ++ rest) : bytesAt buf pos data.length = .ok data := by
  by_cases hdata : data.length = 0
  · rw [bytesAt, if_pos hdata, List.eq_nil_of_length_eq_zero hdata]
  · have hdrop := congrArg List.length h
    rw [List.length_drop, List.length_append] at hdrop
    rw [bytesAt_ok (by omega), h, List.take_left]

theorem termsAt_written {size : Nat} (h : buf.drop pos = piece ++ rest) (hsize : piece.length ≤ size)
    (hn : n ≤ piece.count 0) : termsAt buf pos size n = .ok true := by
  rw [termsAt_eq, if_pos (hn.trans (count_le_zeros size h hsize))]

theorem byteAt_written {b : UInt8} (h : buf.drop pos = b :: rest) : byteAt buf pos = .ok b := by
  have hget : buf[pos]? = some b := by
    rw [← List.head?_drop, h, List.head?_cons]
  rw [byteAt, hget]

@[simp] theorem bind_ok {α β : Type} (a : α) (f : α → Read β) : (Except.ok a >>= f) = f a := rfl

end Abacus.Library.Written
