import Abacus.Library.Reader
import Abacus.Peer.Load
import Mathlib.Tactic.ByContra

/-! # Which buffers the decoders stay inside

Eight of the ten decoders stay inside every buffer. That of submissions takes four bytes too few off the
size, and that of problem updates reads a list and an integer without comparing them with it.
-/

namespace Abacus.Peer.Bounds

open Library.Bytes Library.Reader Peer.Classes Peer.Load

/-- Every offset read is below `n`, and the count of consumed bytes, if there is one, is at most `n`. -/
def Within {α : Type} (n : Nat) (r : Read (α × Nat)) : Prop := Sat r fun a => a.2 ≤ n

theorem sat_requireTerms (buf : Str) (pos size n : Nat) (P : Unit → Prop) :
    Sat (requireTerms buf pos size n) P ↔
      (n ≤ zeros buf pos size → P ()) ∧ (zeros buf pos size < n → size ≤ buf.length - pos) := by
  unfold requireTerms checkStringTerms
  rw [sat_bind, sat_termsAt]
  simp

theorem within_mapMessage {α : Type} (n : Nat) (f : α → Message) (r : Read (α × Nat)) :
    Within n (mapMessage f r) ↔ Within n r := by
  unfold Within mapMessage
  rw [sat_bind]
  exact Iff.rfl

theorem bonus_within (buf : Str) : Within buf.length (BonusMessage.load buf) := by
  unfold Within BonusMessage.load
  simp only [sat_ite, sat_bind, sat_reject, sat_u32At, sat_i32At, sat_pure, implies_true, true_and]
  omega

theorem startStop_within (buf : Str) : Within buf.length (MsgStartStop.load buf) := by
  unfold Within MsgStartStop.load
  simp only [sat_ite, sat_bind, sat_reject, sat_u32At, sat_pure, implies_true, true_and]
  omega

variable {buf : Str}

theorem sat_cstrAt_end {pos : Nat} (hn : buf.length < 4294967296) (h : 0 < terms buf pos) :
    Sat (cstrAt buf pos) fun s => wrap32 (pos + (s.length + 1)) ≤ buf.length := by
  obtain ⟨hend, _⟩ := terms_next h
  rwa [sat_cstrAt_of_terms h, wrap32_of_le hend hn]

theorem passwd_within (hn : buf.length < 4294967296) : Within buf.length (PasswdMessage.load buf) := by
  unfold Within PasswdMessage.load
  obtain ⟨len, hread, hzero⟩ := strnlenAt_ok 4 (Nat.le_refl (buf.length - 4))
  rw [hread]
  simp only [sat_bind, sat_ok, sat_ite, sat_reject, sat_u32At, sat_pure, hzero, implies_true, true_and]
  intro hlen hterm
  refine ⟨by omega, sat_cstrAt_end hn ?_⟩
  rw [← zeros_rest]
  exact Nat.pos_of_ne_zero hterm

theorem clarification_within (hn : buf.length < 4294967296) : Within buf.length (ClarificationMessage.load buf) := by
  unfold Within ClarificationMessage.load
  simp only [sat_ite, sat_bind, sat_reject, sat_u32At, sat_requireTerms, sat_pure, implies_true, true_and]
  intro hlen
  rw [sub32_of_le hn (by omega)]
  refine ⟨by omega, by omega, by omega, by omega, by omega, by omega, by omega, ?_, fun _ => Nat.le_refl _⟩
  intro hterm
  exact sat_cstrAt_end hn (zeros_rest buf 28 ▸ hterm)

theorem createGroup_within (hn : buf.length < 4294967296) : Within buf.length (MessageCreateGroup.load buf) := by
  unfold Within MessageCreateGroup.load
  rw [zerosAt_ok (Nat.le_refl _), zeros_rest]
  simp only [sat_bind, sat_ok, sat_ite, sat_reject, sat_u32At, sat_pure, implies_true, true_and]
  intro hterm
  have hzero : 0 < terms buf 4 := by omega
  obtain ⟨hend, _⟩ := terms_next hzero
  exact ⟨by omega, sat_cstrAt_end hn hzero⟩

theorem createUser_within (hn : buf.length < 4294967296) : Within buf.length (MessageCreateUser.load buf) := by
  unfold Within MessageCreateUser.load
  rw [zerosAt_ok (Nat.le_refl _), zeros_rest]
  simp only [sat_bind, sat_ok, sat_ite, sat_reject, sat_u32At, sat_pure, implies_true, true_and]
  intro hterm
  have hzero : 0 < terms buf 16 := by omega
  obtain ⟨hend, hnext⟩ := terms_next hzero
  have hzero₁ : 0 < terms buf (16 + ((cstr buf 16).length + 1)) := by omega
  obtain ⟨hend₁, hnext₁⟩ := terms_next hzero₁
  refine ⟨by omega, by omega, by omega, by omega, ?_⟩
  rw [sat_cstrAt_of_terms hzero, sat_cstrAt_of_terms hzero₁]
  exact sat_cstrAt_end hn (by omega)

theorem sat_loadAttribs (k pos : Nat) (attribs : StringMap Str) (hpos : pos ≤ buf.length) (hk : k ≤ terms buf pos) :
    Sat (MessageCreateServer.loadAttribs buf k pos attribs) fun a => a.2 ≤ buf.length := by
  fun_induction MessageCreateServer.loadAttribs buf k pos attribs with
  | case1 k pos attribs ih =>
    have hzero : 0 < terms buf pos := by omega
    obtain ⟨hend, hnext⟩ := terms_next hzero
    have hzero₁ : 0 < terms buf (pos + ((cstr buf pos).length + 1)) := by omega
    obtain ⟨hend₁, hnext₁⟩ := terms_next hzero₁
    simp only [sat_bind, sat_cstrAt_of_terms hzero, sat_cstrAt_of_terms hzero₁]
    exact ih _ _ hend₁ (by omega)
  | case2 k pos attribs _ => exact hpos

theorem createServer_within (hn : buf.length < 4294967296) : Within buf.length (MessageCreateServer.load buf) := by
  unfold Within MessageCreateServer.load
  rw [zerosAt_ok (Nat.le_refl _), zeros_rest]
  simp only [sat_bind, sat_ok, sat_ite, sat_reject, sat_u32At, sat_pure, implies_true, true_and]
  intro hterm
  have hzero : 0 < terms buf 4 := Nat.pos_of_ne_zero hterm
  obtain ⟨hend, hnext⟩ := terms_next hzero
  refine ⟨by omega, (sat_cstrAt_of_terms hzero _).mpr ?_⟩
  refine (sat_loadAttribs _ _ ∅ hend (by omega)).mono fun a ha => ?_
  rwa [wrap32_of_le ha hn]

theorem sat_loadFiles (hn : buf.length < 4294967296) (rounds pos : Nat) (files : List MarkFile)
    (hpos : pos ≤ buf.length) (hrounds : buf.length - pos < rounds) :
    Sat (MarkMessage.loadFiles buf rounds pos (buf.length - pos) files) fun a => a.2 ≤ buf.length := by
  induction rounds generalizing pos files with
  | zero => omega
  | succ rounds ih =>
    unfold MarkMessage.loadFiles checkStringTerms
    simp only [sat_ite, sat_bind, sat_pure, sat_termsAt, sat_reject, sat_u32At, sat_bytesAt, implies_true, true_and,
      true_implies, false_implies, not_true_eq_false, not_false_eq_true, Bool.false_eq_true, and_true]
    refine ⟨fun hsize => ?_, fun _ => hpos⟩
    rw [sub32_of_le (by omega) (by omega)]
    refine ⟨fun hterm => ?_, fun _ => ⟨by omega, hpos⟩⟩
    obtain ⟨hname, hlt, _, _⟩ := cstrAt_ok hterm
    rw [hname, sat_ok, sub32_rest hn (by omega), sub32_rest hn (by omega)]
    refine ⟨by omega, fun hdata => ⟨by omega, ?_⟩⟩
    rw [sub32_rest hn (by omega)]
    exact ih _ _ (by omega) (by omega)

theorem mark_within (hn : buf.length < 4294967296) : Within buf.length (MarkMessage.load buf) := by
  unfold Within MarkMessage.load
  simp only [sat_ite, sat_bind, sat_reject, sat_u32At, sat_requireTerms, sat_pure, implies_true, true_and]
  intro hlen
  rw [sub32_of_le hn (by omega)]
  refine ⟨by omega, by omega, by omega, by omega, by omega, ?_, fun _ => Nat.le_refl _⟩
  intro hterm
  rw [Nat.succ_le_iff, zeros_rest] at hterm
  obtain ⟨hend, _⟩ := terms_next hterm
  rw [sat_cstrAt_of_terms hterm, sub32_rest hn hend]
  refine (sat_loadFiles hn _ _ [] hend (by omega)).mono fun a ha => ?_
  rwa [wrap32_of_le ha hn]

/-- The content and a terminator for the language lie inside the buffer, or the size is large enough to be refused. -/
def SubmissionFits (buf : Str) : Prop :=
  buf.length < 24 ∨ buf.length < u32 buf 20 + 20 ∨ 0 ∈ buf.drop (24 + u32 buf 20)

theorem submission_within_iff (hn : buf.length < 4294967296) :
    Within buf.length (SubmissionMessage.load buf) ↔ SubmissionFits buf := by
  unfold Within SubmissionMessage.load SubmissionFits
  simp only [sat_ite, sat_bind, sat_reject, sat_u32At, sat_requireTerms, sat_bytesAt, sat_pure, implies_true,
    true_and]
  by_cases hlen : buf.length < 24
  · simp [hlen]
  rw [sub32_of_le hn (by omega)]
  by_cases hcontent : buf.length - 20 < u32 buf 20
  · have hrefused : buf.length < u32 buf 20 + 20 := by omega
    simp only [hlen, hcontent, hrefused, not_true_eq_false, false_implies, not_false_eq_true, true_implies, and_true,
      true_or, or_true, iff_true]
    omega
  rw [sub32_of_le (by omega) (by omega)]
  constructor
  · intro h
    obtain ⟨_, _, _, _, _, _, h⟩ := h hlen
    obtain ⟨_, hterm, hscan⟩ := h hcontent
    right
    right
    rw [← terms_pos_iff]
    by_contra hno
    have hzero := zeros_le_terms buf (24 + u32 buf 20) (buf.length - 20 - u32 buf 20)
    have := hscan (by omega)
    omega
  · rintro (h | h | h) _
    · contradiction
    · omega
    · rw [← terms_pos_iff] at h
      obtain ⟨hend, _⟩ := terms_next h
      refine ⟨by omega, by omega, by omega, by omega, by omega, by omega, fun _ => ⟨by omega, fun _ => ?_, ?_⟩⟩
      · exact sat_cstrAt_end hn h
      · intro hzero
        have hall : zeros buf (24 + u32 buf 20) (buf.length - 20 - u32 buf 20) = terms buf (24 + u32 buf 20) := by
          rw [zeros, terms, List.take_of_length_le]
          rw [List.length_drop]
          omega
        omega

end Abacus.Peer.Bounds
