import Abacus.Library.Bytes

/-! # Text in UTF-8

In the encoding of a text the bytes below 128 stand for the characters of that code and nothing else, so
a text can be cut at them in its bytes.
-/

namespace Abacus.Library.Utf8

open Library.Bytes

abbrev Text := List Char

def utf8 (text : Text) : Str := text.flatMap String.utf8EncodeChar

def decode? (bytes : Str) : Option Text := bytes.toByteArray.utf8Decode?.map Array.toList

variable {text other : Text} {c : Char}

@[simp] theorem utf8_nil : utf8 [] = [] := rfl

theorem utf8_append (text other : Text) : utf8 (text ++ other) = utf8 text ++ utf8 other := List.flatMap_append

theorem utf8_cons (c : Char) (text : Text) : utf8 (c :: text) = String.utf8EncodeChar c ++ utf8 text := rfl

theorem decode?_utf8 (text : Text) : decode? (utf8 text) = some text := by
  have hdecode : (utf8 text).toByteArray.utf8Decode? = some text.toArray := List.utf8Decode?_utf8Encode
  rw [decode?, hdecode]
  rfl

theorem utf8_inj (h : utf8 text = utf8 other) : text = other := by
  have hdecode := decode?_utf8 text
  rw [h, decode?_utf8] at hdecode
  exact (Option.some.inj hdecode).symm

theorem utf8_eq_nil (h : utf8 text = []) : text = [] := by
  have hnil : utf8 text = utf8 [] := h
  exact utf8_inj hnil

theorem utf8EncodeChar_ascii (h : c.toNat < 128) : String.utf8EncodeChar c = [UInt8.ofNat c.toNat] := by
  have hval : c.val.toNat ≤ 127 := Nat.le_of_lt_succ h
  simp only [String.utf8EncodeChar, if_pos hval]
  rfl

theorem le_of_mem_utf8EncodeChar (h : 128 ≤ c.toNat) {b : UInt8} (hb : b ∈ String.utf8EncodeChar c) :
    128 ≤ b.toNat := by
  have hval : ¬c.val.toNat ≤ 127 := Nat.not_le.mpr h
  simp only [String.utf8EncodeChar, if_neg hval] at hb
  split at hb
  · simp only [List.mem_cons, List.not_mem_nil, or_false] at hb
    rcases hb with rfl | rfl <;> simp only [UInt8.toNat_ofNat'] <;> omega
  · split at hb
    · simp only [List.mem_cons, List.not_mem_nil, or_false] at hb
      rcases hb with rfl | rfl | rfl <;> simp only [UInt8.toNat_ofNat'] <;> omega
    · simp only [List.mem_cons, List.not_mem_nil, or_false] at hb
      rcases hb with rfl | rfl | rfl | rfl <;> simp only [UInt8.toNat_ofNat'] <;> omega

theorem mem_utf8 (h : c.toNat < 128) : UInt8.ofNat c.toNat ∈ utf8 text ↔ c ∈ text := by
  rw [utf8, List.mem_flatMap]
  constructor
  · rintro ⟨d, hd, hmem⟩
    obtain hascii | hwide := Nat.lt_or_ge d.toNat 128
    · rw [utf8EncodeChar_ascii hascii, List.mem_singleton] at hmem
      have heq : c.toNat = d.toNat := by
        have hnat := congrArg UInt8.toNat hmem
        simp only [UInt8.toNat_ofNat'] at hnat
        omega
      exact Char.toNat_inj.mp heq ▸ hd
    · have hbyte := le_of_mem_utf8EncodeChar hwide hmem
      simp only [UInt8.toNat_ofNat'] at hbyte
      omega
  · intro hc
    refine ⟨c, hc, ?_⟩
    rw [utf8EncodeChar_ascii h]
    exact List.mem_singleton_self _

theorem utf8_ascii (h : ∀ c ∈ text, c.toNat < 128) : utf8 text = text.map fun c => UInt8.ofNat c.toNat := by
  induction text with
  | nil => rfl
  | cons c text ih =>
    obtain ⟨hc, htext⟩ := List.forall_mem_cons.mp h
    rw [utf8_cons, utf8EncodeChar_ascii hc, ih htext]
    rfl

theorem toNat_ofNat_ascii {n : Nat} (h : n < 128) : (Char.ofNat n).toNat = n := by
  have hvalid : n.isValidChar := .inl (Nat.lt_trans h (by decide))
  rw [Char.ofNat, dif_pos hvalid]
  rfl

theorem utf8_map_ofNat {bytes : Str} (h : ∀ b ∈ bytes, b.toNat < 128) :
    utf8 (bytes.map fun b => Char.ofNat b.toNat) = bytes := by
  have hascii : ∀ c ∈ bytes.map fun b => Char.ofNat b.toNat, c.toNat < 128 := by
    intro c hc
    obtain ⟨b, hb, rfl⟩ := List.mem_map.mp hc
    rw [toNat_ofNat_ascii (h b hb)]
    exact h b hb
  rw [utf8_ascii hascii, List.map_map]
  refine (List.map_congr_left fun b hb => ?_).trans (List.map_id bytes)
  rw [Function.comp_apply, toNat_ofNat_ascii (h b hb), UInt8.ofNat_toNat]
  rfl

end Abacus.Library.Utf8
