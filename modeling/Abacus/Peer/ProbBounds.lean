import Abacus.Peer.Bounds

/-! # The bytes of a problem update

The decoder leaves the buffer exactly when, after some well-formed attributes, an integer attribute starts
with fewer than four bytes behind its tag.
-/

namespace Abacus.Peer.ProbBounds

open Library.Bytes Library.Reader Peer.Classes Peer.Load Peer.Bounds

inductive Entry : Str → Prop
  | string {attr value : Str} (hattr : 0 ∉ attr) (hvalue : 0 ∉ value) :
      Entry (83 :: (attr ++ 0 :: (value ++ [0])))
  | int {attr number : Str} (hattr : 0 ∉ attr) (hnumber : number.length = 4) :
      Entry (73 :: (attr ++ 0 :: number))
  | keep {attr number : Str} (hattr : 0 ∉ attr) (hnumber : number.length = 4) :
      Entry (70 :: (attr ++ 0 :: 0 :: number))
  | file {attr name number data : Str} (hattr : 0 ∉ attr) (hname : 0 ∉ name) (hnonempty : name ≠ [])
      (hnumber : number.length = 4) (hdata : data.length = u32 number 0) :
      Entry (70 :: (attr ++ 0 :: (name ++ 0 :: (number ++ data))))

/-- `After rest tail`: well-formed attributes lead from `rest` to `tail`. -/
inductive After : Str → Str → Prop
  | refl (tail : Str) : After tail tail
  | step {entry rest tail : Str} (hentry : Entry entry) (hrest : After rest tail) : After (entry ++ rest) tail

/-- Some well-formed attributes, then an integer attribute with fewer than four bytes behind its tag. -/
def ShortInt (rest : Str) : Prop := ∃ tail, After rest (73 :: tail) ∧ tail.length < 4

variable {rest next attr buf : Str} {pos : Nat} {m : ProbMessage} {P : ProbMessage × Nat × Nat → Prop}

theorem shortInt_cases (h : ShortInt rest) :
    (∃ tail, rest = 73 :: tail ∧ tail.length < 4) ∨ ∃ entry next,
      Entry entry ∧ rest = entry ++ next ∧ ShortInt next := by
  obtain ⟨tail, hafter, hlen⟩ := h
  generalize hgoal : (73 :: tail : Str) = goal at hafter
  cases hafter with
  | refl => exact .inl ⟨tail, hgoal.symm, hlen⟩
  | step hentry hrest =>
    subst hgoal
    exact .inr ⟨_, _, hentry, rfl, tail, hrest, hlen⟩

theorem Entry.shortInt {entry : Str} (hentry : Entry entry) (h : ShortInt next) : ShortInt (entry ++ next) := by
  obtain ⟨tail, hafter, hlen⟩ := h
  exact ⟨tail, .step hentry hafter, hlen⟩

theorem not_shortInt_nil : ¬ShortInt [] := by
  intro h
  obtain ⟨_, hnil, _⟩ | ⟨_, _, hentry, hnil, _⟩ := shortInt_cases h
  · cases hnil
  · cases hentry <;> cases hnil

theorem not_shortInt_of_tag {tag : UInt8} (hS : tag ≠ 83) (hI : tag ≠ 73) (hF : tag ≠ 70) :
    ¬ShortInt (tag :: rest) := by
  intro h
  obtain ⟨_, htag, _⟩ | ⟨_, _, hentry, htag, _⟩ := shortInt_cases h
  · exact hI (List.cons.inj htag).1
  · cases hentry <;> have hbad := (List.cons.inj htag).1
    · exact hS hbad
    · exact hI hbad
    · exact hF hbad
    · exact hF hbad

theorem shortInt_string (h : ShortInt (83 :: rest)) :
    ∃ attr value next, 0 ∉ attr ∧ 0 ∉ value ∧ rest = attr ++ 0 :: (value ++ 0 :: next) ∧ ShortInt next := by
  obtain ⟨_, htag, _⟩ | ⟨_, next, hentry, htag, hnext⟩ := shortInt_cases h
  · exact absurd (List.cons.inj htag).1 (by decide)
  · cases hentry with
    | @string attr value hattr hvalue =>
      refine ⟨attr, value, next, hattr, hvalue, ?_, hnext⟩
      simpa using htag
    | int | keep | file => exact absurd (List.cons.inj htag).1 (by decide)

theorem shortInt_int (h : ShortInt (73 :: rest)) :
    rest.length < 4 ∨ ∃ attr number next, 0 ∉ attr ∧ number.length = 4 ∧ rest = attr ++ 0 :: (number ++ next) ∧
      ShortInt next := by
  obtain ⟨tail, htag, hlen⟩ | ⟨_, next, hentry, htag, hnext⟩ := shortInt_cases h
  · obtain ⟨_, rfl⟩ := List.cons.inj htag
    exact .inl hlen
  · cases hentry with
    | @int attr number hattr hnumber =>
      refine .inr ⟨attr, number, next, hattr, hnumber, ?_, hnext⟩
      simpa using htag
    | string | keep | file => exact absurd (List.cons.inj htag).1 (by decide)

theorem shortInt_file (h : ShortInt (70 :: rest)) :
    ∃ attr name number data next, 0 ∉ attr ∧ 0 ∉ name ∧ number.length = 4 ∧
      data.length = (if name = [] then 0 else u32 number 0) ∧
      rest = attr ++ 0 :: (name ++ 0 :: (number ++ (data ++ next))) ∧ ShortInt next := by
  obtain ⟨tail, htag, hlen⟩ | ⟨_, next, hentry, htag, hnext⟩ := shortInt_cases h
  · exact absurd (List.cons.inj htag).1 (by decide)
  · cases hentry with
    | @keep attr number hattr hnumber =>
      refine ⟨attr, [], number, [], next, hattr, List.not_mem_nil, hnumber, by simp, ?_, hnext⟩
      simpa using htag
    | @file attr name number data hattr hname hnonempty hnumber hdata =>
      refine ⟨attr, name, number, data, next, hattr, hname, hnumber, by rw [if_neg hnonempty, hdata], ?_, hnext⟩
      simpa using htag
    | string | int => exact absurd (List.cons.inj htag).1 (by decide)

theorem shortInt_string_iff {value : Str} (hattr : 0 ∉ attr) (hvalue : 0 ∉ value) :
    ShortInt (83 :: (attr ++ 0 :: (value ++ 0 :: next))) ↔ ShortInt next := by
  constructor
  · intro hshort
    obtain ⟨attr', value', next', hattr', hvalue', hrest, hshort⟩ := shortInt_string hshort
    obtain ⟨_, hrest⟩ := append_zero_inj hattr hattr' hrest
    obtain ⟨_, rfl⟩ := append_zero_inj hvalue hvalue' hrest
    exact hshort
  · intro hshort
    simpa using (Entry.string hattr hvalue).shortInt hshort

theorem shortInt_int_iff {number : Str} (hattr : 0 ∉ attr) (hnumber : number.length = 4) :
    ShortInt (73 :: (attr ++ 0 :: (number ++ next))) ↔ ShortInt next := by
  constructor
  · intro hshort
    obtain hlen | ⟨attr', number', next', hattr', hnumber', hrest, hshort⟩ := shortInt_int hshort
    · simp only [List.length_append, List.length_cons, hnumber] at hlen
      omega
    · obtain ⟨_, hrest⟩ := append_zero_inj hattr hattr' hrest
      obtain ⟨_, rfl⟩ := List.append_inj hrest (hnumber.trans hnumber'.symm)
      exact hshort
  · intro hshort
    simpa using (Entry.int hattr hnumber).shortInt hshort

theorem shortInt_file_iff {name number : Str} (hattr : 0 ∉ attr) (hname : 0 ∉ name) (hnumber : number.length = 4) :
    ShortInt (70 :: (attr ++ 0 :: (name ++ 0 :: (number ++ rest)))) ↔
      ∃ data next, data.length = (if name = [] then 0 else u32 number 0) ∧ rest = data ++ next ∧ ShortInt next := by
  constructor
  · intro hshort
    obtain ⟨attr', name', number', data, next, hattr', hname', hnumber', hdata, hrest, hshort⟩ := shortInt_file hshort
    obtain ⟨_, hrest⟩ := append_zero_inj hattr hattr' hrest
    obtain ⟨hsame, hrest⟩ := append_zero_inj hname hname' hrest
    obtain ⟨hsame', hrest⟩ := List.append_inj hrest (hnumber.trans hnumber'.symm)
    rw [← hsame, ← hsame'] at hdata
    exact ⟨data, next, hdata, hrest, hshort⟩
  · rintro ⟨data, next, hdata, rfl, hshort⟩
    by_cases hkeep : name = []
    · rw [if_pos hkeep, List.length_eq_zero_iff] at hdata
      simpa [hkeep, hdata] using (Entry.keep hattr hnumber).shortInt hshort
    · rw [if_neg hkeep] at hdata
      simpa using (Entry.file hattr hname hkeep hnumber hdata).shortInt hshort

def Continues (buf : Str) (pos : Nat) (P : ProbMessage × Nat × Nat → Prop) : Prop :=
  ∀ m next, pos < next → next ≤ buf.length → (P (m, next, buf.length - next) ↔ ¬ShortInt (buf.drop next))

theorem sat_loadString_iff (hn : buf.length < 4294967296) (hP : Continues buf pos P) :
    Sat (ProbMessage.loadString buf pos (buf.length - pos) m) P ↔ ¬ShortInt (83 :: buf.drop pos) := by
  unfold ProbMessage.loadString
  simp only [sat_bind, sat_requireTerms, sat_pure, zeros_rest, Nat.le_refl, implies_true, and_true]
  by_cases hterm : 2 ≤ terms buf pos
  · have hattr : 0 < terms buf pos := by omega
    obtain ⟨hend, hnext⟩ := terms_next hattr
    have hvalue : 0 < terms buf (pos + ((cstr buf pos).length + 1)) := by omega
    obtain ⟨hend₁, _⟩ := terms_next hvalue
    rw [drop_eq_cstr ((terms_pos_iff _ _).mp hattr), drop_eq_cstr ((terms_pos_iff _ _).mp hvalue),
      shortInt_string_iff (zero_notMem_cstr _ _) (zero_notMem_cstr _ _)]
    simp only [hterm, true_implies, sat_cstrAt_of_terms hattr, sat_cstrAt_of_terms hvalue]
    rw [sub32_rest hn (by omega), show ∀ a b : Nat, pos + (a + b + 2) = pos + (a + 1) + (b + 1) by omega]
    exact hP _ _ (by omega) hend₁
  · simp only [hterm, false_implies, true_iff]
    intro hshort
    obtain ⟨attr, value, next, _, _, hrest, _⟩ := shortInt_string hshort
    have hcount : terms buf pos = (attr ++ 0 :: (value ++ 0 :: next)).count 0 := by rw [terms, hrest]
    simp only [List.count_append, List.count_cons_self] at hcount
    omega

/-- With fewer than four bytes left the size wraps, so the scan and the number both run past the end. -/
theorem not_sat_loadInt (hsize : buf.length - pos < 4) : ¬Sat (ProbMessage.loadInt buf pos (buf.length - pos) m) P := by
  unfold ProbMessage.loadInt
  simp only [sat_bind, sat_requireTerms, sat_pure, sat_i32At]
  have hwrap : buf.length - pos < sub32 (buf.length - pos) 4 := by
    unfold sub32
    omega
  rintro ⟨hread, hscan⟩
  by_cases hterm : 1 ≤ zeros buf pos (sub32 (buf.length - pos) 4)
  · have hread := hread hterm
    rw [(cstrAt_ok hterm).1, sat_ok] at hread
    omega
  · exact absurd (hscan (by omega)) (by omega)

theorem sat_loadInt_iff (hn : buf.length < 4294967296) (hP : Continues buf pos P) :
    Sat (ProbMessage.loadInt buf pos (buf.length - pos) m) P ↔ ¬ShortInt (73 :: buf.drop pos) := by
  by_cases hsize : buf.length - pos < 4
  · have hshort : ShortInt (73 :: buf.drop pos) := ⟨_, .refl _, by simpa using hsize⟩
    exact iff_of_false (not_sat_loadInt hsize) (not_not_intro hshort)
  unfold ProbMessage.loadInt
  simp only [sat_bind, sat_requireTerms, sat_pure, sat_i32At]
  rw [sub32_of_le (by omega) (by omega)]
  by_cases hterm : 1 ≤ zeros buf pos (buf.length - pos - 4)
  · obtain ⟨hread, hlt, _, _⟩ := cstrAt_ok hterm
    have hattr : 0 < terms buf pos := Nat.lt_of_lt_of_le hterm (zeros_le_terms _ _ _)
    have hfour : ((buf.drop (pos + ((cstr buf pos).length + 1))).take 4).length = 4 := by
      rw [List.length_take, List.length_drop]
      omega
    rw [drop_eq_cstr ((terms_pos_iff _ _).mp hattr),
      ← List.take_append_drop 4 (buf.drop (pos + ((cstr buf pos).length + 1))),
      shortInt_int_iff (zero_notMem_cstr _ _) hfour, List.drop_drop]
    simp only [hterm, true_implies, hread, sat_ok]
    rw [sub32_rest hn (by omega), show ∀ a : Nat, pos + (a + 4) = pos + a + 4 by omega, hP _ _ (by omega) (by omega)]
    exact ⟨fun h => h.1.2, fun h => ⟨⟨by omega, h⟩, fun _ => by omega⟩⟩
  · simp only [hterm, false_implies, true_and]
    refine ⟨fun _ hshort => hterm ?_, fun _ _ => by omega⟩
    obtain hshort | ⟨attr, number, next, _, hnumber, hrest, _⟩ := shortInt_int hshort
    · rw [List.length_drop] at hshort
      omega
    · have hlen := congrArg List.length hrest
      simp only [List.length_drop, List.length_append, List.length_cons] at hlen
      rw [List.append_cons] at hrest
      have hcount := count_le_zeros (buf.length - pos - 4) hrest
        (by rw [List.length_append, List.length_singleton]; omega)
      rw [List.count_append, List.count_singleton_self] at hcount
      omega

theorem zeros_of_shortInt_file (h : ShortInt (70 :: buf.drop pos)) :
    4 < buf.length - pos ∧ 2 ≤ zeros buf pos (buf.length - pos - 4) := by
  obtain ⟨attr, name, number, data, next, _, _, hnumber, _, hrest, _⟩ := shortInt_file h
  have hlen := congrArg List.length hrest
  simp only [List.length_drop, List.length_append, List.length_cons] at hlen
  rw [show attr ++ 0 :: (name ++ 0 :: (number ++ (data ++ next))) =
    (attr ++ 0 :: (name ++ [0])) ++ (number ++ (data ++ next)) by simp] at hrest
  have hcount := count_le_zeros (buf.length - pos - 4) hrest
    (by simp only [List.length_append, List.length_cons, List.length_nil]; omega)
  simp only [List.count_append, List.count_cons_self] at hcount
  omega

theorem sat_loadFile_iff (hn : buf.length < 4294967296) (hP : Continues buf pos P) :
    Sat (ProbMessage.loadFile buf pos (buf.length - pos) m) P ↔ ¬ShortInt (70 :: buf.drop pos) := by
  unfold ProbMessage.loadFile
  simp only [sat_ite, sat_bind, sat_reject, sat_requireTerms, sat_pure, sat_u32At, sat_bytesAt, implies_true, true_and]
  by_cases hterm : 4 < buf.length - pos ∧ 2 ≤ zeros buf pos (buf.length - pos - 4)
  · obtain ⟨hsize, hterm⟩ := hterm
    rw [sub32_of_le (by omega) (by omega)]
    have hzeros₀ : 0 < zeros buf pos (buf.length - pos - 4) := by omega
    obtain ⟨hread, hlt, _, hzeros⟩ := cstrAt_ok hzeros₀
    have hattr : 0 < terms buf pos := Nat.lt_of_lt_of_le hzeros₀ (zeros_le_terms buf pos _)
    rw [drop_eq_cstr ((terms_pos_iff _ _).mp hattr)]
    simp only [hterm, Nat.not_le.mpr hsize, not_false_eq_true, true_implies, hread, sat_ok]
    generalize hq : pos + ((cstr buf pos).length + 1) = q at *
    have hzeros₁ : 0 < zeros buf q (buf.length - pos - 4 - ((cstr buf pos).length + 1)) := by omega
    obtain ⟨hread₁, hlt₁, _, _⟩ := cstrAt_ok hzeros₁
    have hname : 0 < terms buf q := Nat.lt_of_lt_of_le hzeros₁ (zeros_le_terms buf q _)
    rw [drop_eq_cstr ((terms_pos_iff _ _).mp hname)]
    simp only [hread₁, sat_ok]
    generalize hr : q + ((cstr buf q).length + 1) = r at *
    have hfour : ((buf.drop r).take 4).length = 4 := by
      rw [List.length_take, List.length_drop]
      omega
    have hu32 : u32 buf r = u32 ((buf.drop r).take 4) 0 := by
      rw [u32_eq_drop, ← List.take_append_drop 4 (buf.drop r), u32_append hfour, List.take_append_drop]
    rw [← List.take_append_drop 4 (buf.drop r),
      shortInt_file_iff (zero_notMem_cstr _ _) (zero_notMem_cstr _ _) hfour, ← hu32, List.drop_drop,
      sub32_rest hn (by omega), show pos + ((cstr buf pos).length + (cstr buf q).length + 2 + 4) = r + 4 by omega]
    by_cases hkeep : cstr buf q = []
    · simp only [hkeep, if_true, not_true_eq_false, false_implies, true_implies, and_true, List.length_eq_zero_iff,
        exists_and_left, exists_eq_left, List.nil_append]
      rw [hP _ (r + 4) (by omega) (by omega)]
      constructor
      · rintro ⟨⟨_, hno⟩, _⟩ ⟨next, hrest, hshort⟩
        exact hno (hrest ▸ hshort)
      · intro hno
        exact ⟨⟨by omega, fun hshort => hno ⟨_, rfl, hshort⟩⟩, fun _ => by omega⟩
    · simp only [hkeep, if_false, not_false_eq_true, false_implies, true_implies, true_and]
      constructor
      · rintro ⟨⟨_, hdata⟩, _⟩ ⟨data, next, hlen, hrest, hshort⟩
        have hfits := congrArg List.length hrest
        rw [List.length_drop, List.length_append] at hfits
        obtain ⟨_, hcont⟩ := hdata (by omega)
        rw [sub32_rest hn (by omega), hP _ _ (by omega) (by omega), ← hlen, ← List.drop_drop (i := data.length), hrest,
          List.drop_left] at hcont
        exact hcont hshort
      · intro hno
        refine ⟨⟨by omega, fun hdata => ⟨by omega, ?_⟩⟩, fun _ => by omega⟩
        rw [sub32_rest hn (by omega), hP _ _ (by omega) (by omega)]
        intro hshort
        refine hno ⟨(buf.drop (r + 4)).take (u32 buf r), _, ?_, ?_, hshort⟩
        · rw [List.length_take, List.length_drop]
          omega
        · rw [← List.drop_drop (i := u32 buf r), List.take_append_drop]
  · have hno : ¬ShortInt (70 :: buf.drop pos) := fun hshort => hterm (zeros_of_shortInt_file hshort)
    simp only [hno, not_false_eq_true, iff_true]
    intro hsize
    rw [sub32_of_le (by omega) (by omega)]
    exact ⟨fun h => absurd ⟨by omega, h⟩ hterm, fun _ => by omega⟩

theorem sat_loadAttrib_iff {tag : UInt8} (hn : buf.length < 4294967296) (hP : Continues buf pos P) :
    Sat (ProbMessage.loadAttrib buf tag pos (buf.length - pos) m) P ↔ ¬ShortInt (tag :: buf.drop pos) := by
  unfold ProbMessage.loadAttrib
  split
  · next htag => rw [htag, sat_loadString_iff hn hP]
  split
  · next htag => rw [htag, sat_loadInt_iff hn hP]
  split
  · next htag => rw [htag, sat_loadFile_iff hn hP]
  · next hS hI hF => simp [not_shortInt_of_tag hS hI hF]

/-- The loop over the attributes leaves the buffer exactly at a short integer. -/
theorem sat_loadAttribs_iff (hn : buf.length < 4294967296) (rounds pos : Nat) (m : ProbMessage)
    (hpos : pos ≤ buf.length) (hrounds : buf.length - pos < rounds) :
    (Sat (ProbMessage.loadAttribs buf rounds pos (buf.length - pos) m) fun a => wrap32 a.2 ≤ buf.length) ↔
      ¬ShortInt (buf.drop pos) := by
  induction rounds generalizing pos m with
  | zero => omega
  | succ rounds ih =>
    unfold ProbMessage.loadAttribs
    simp only [sat_ite, sat_bind, sat_pure, sat_byteAt]
    by_cases hend : buf.length - pos = 0
    · rw [List.drop_eq_nil_of_le (by omega)]
      simp [hend, hpos, not_shortInt_nil, wrap32_of_le hpos hn]
    · have hlt : pos < buf.length := by omega
      have hcont : Continues buf (pos + 1) fun a =>
          Sat (ProbMessage.loadAttribs buf rounds a.2.1 a.2.2 a.1) fun a => wrap32 a.2 ≤ buf.length :=
        fun m next hnext hle => ih next m hle (by omega)
      rw [List.drop_eq_getElem_cons hlt, ← sat_loadAttrib_iff (m := m) hn hcont, sub32_rest hn hlt]
      simp only [hend, false_implies, true_and, not_false_eq_true, true_implies, hlt, exists_true_left]

theorem loadDeps_ok (pos : Nat) {count : Nat} (h : pos + 4 * count ≤ buf.length) :
    ∃ deps, ProbMessage.loadDeps buf pos count = .ok deps := by
  induction count generalizing pos with
  | zero => exact ⟨[], rfl⟩
  | succ count ih =>
    obtain ⟨deps, hdeps⟩ := ih (pos + 4) (by omega)
    refine ⟨u32 buf pos :: deps, ?_⟩
    rw [ProbMessage.loadDeps, u32At_ok (by omega), hdeps]
    rfl

theorem not_sat_loadDeps {count : Nat} {P : List Nat → Prop} (hpos : pos ≤ buf.length)
    (h : buf.length < pos + 4 * count) : ¬Sat (ProbMessage.loadDeps buf pos count) P := by
  induction count generalizing pos P with
  | zero => omega
  | succ count ih =>
    rw [ProbMessage.loadDeps, sat_bind, sat_u32At]
    rintro ⟨hfits, hrest⟩
    rw [sat_bind] at hrest
    exact ih hfits (by omega) hrest

/-- The dependency list lies inside the buffer, and no short integer follows the type. -/
def ProbFits (buf : Str) : Prop :=
  buf.length < 8 ∨
    12 + 4 * u32 buf 8 ≤ buf.length ∧
      ∀ type rest, 0 ∉ type → buf.drop (12 + 4 * u32 buf 8) = type ++ 0 :: rest → ¬ShortInt rest

theorem prob_within_iff (hn : buf.length < 4294967296) : Within buf.length (ProbMessage.load buf) ↔ ProbFits buf := by
  unfold Within ProbMessage.load ProbFits
  simp only [sat_ite, sat_bind, sat_reject, sat_u32At, sat_requireTerms, sat_pure, implies_true, true_and]
  by_cases hlen : buf.length < 8
  · simp [hlen]
  by_cases hdeps : 12 + 4 * u32 buf 8 ≤ buf.length
  · obtain ⟨deps, hread⟩ := loadDeps_ok 12 hdeps
    have hsize : sub32 (sub32 buf.length 8) (wrap32 (1 + u32 buf 8) * 4) = buf.length - (12 + 4 * u32 buf 8) := by
      rw [wrap32_of_le (m := buf.length) (by omega) hn, sub32_of_le hn (by omega), sub32_rest hn (by omega)]
      omega
    rw [hread, hsize]
    simp only [sat_ok, hlen, hdeps, false_or, true_and, not_false_eq_true, true_implies, zeros_rest, Nat.le_refl,
      implies_true, and_true]
    generalize hq : 12 + 4 * u32 buf 8 = q at *
    constructor
    · rintro ⟨_, _, _, hloop⟩ type rest htype hrest hshort
      have hterm : 0 < terms buf q := (terms_pos_iff _ _).mpr (by simp [hrest])
      obtain ⟨hend, _⟩ := terms_next hterm
      have hloop := hloop hterm
      rw [sat_cstrAt_of_terms hterm, sub32_rest hn hend] at hloop
      rw [drop_eq_cstr ((terms_pos_iff _ _).mp hterm)] at hrest
      obtain ⟨_, rfl⟩ := append_zero_inj (zero_notMem_cstr _ _) htype hrest
      exact (sat_loadAttribs_iff hn _ _ _ hend (by omega)).mp hloop hshort
    · intro hno
      refine ⟨by omega, by omega, by omega, fun hterm => ?_⟩
      obtain ⟨hend, _⟩ := terms_next hterm
      rw [sat_cstrAt_of_terms hterm, sub32_rest hn hend]
      have hsafe := hno _ _ (zero_notMem_cstr _ _) (drop_eq_cstr ((terms_pos_iff _ _).mp hterm))
      exact (sat_loadAttribs_iff hn _ _ _ hend (by omega)).mpr hsafe
  · simp only [hlen, hdeps, false_and, or_false, iff_false, not_false_eq_true, true_implies]
    rintro ⟨_, _, hpos, hread⟩
    exact not_sat_loadDeps hpos (by omega) hread

/-- The buffers that the decoder of each class stays inside. -/
def Fits : MessageClass → Str → Prop
  | .submission, buf => SubmissionFits buf
  | .prob, buf => ProbFits buf
  | _, _ => True

/-- Every decoder stays inside its buffer and consumes no more, or rejects it, exactly if the buffer fits its class. -/
theorem load_within_iff_fits (c : MessageClass) (buf : Str) (hn : buf.length < 4294967296) :
    Within buf.length (load c buf) ↔ Fits c buf := by
  cases c with
  | createServer => exact iff_of_true ((within_mapMessage _ _ _).mpr (createServer_within hn)) trivial
  | createUser => exact iff_of_true ((within_mapMessage _ _ _).mpr (createUser_within hn)) trivial
  | createGroup => exact iff_of_true ((within_mapMessage _ _ _).mpr (createGroup_within hn)) trivial
  | passwd => exact iff_of_true ((within_mapMessage _ _ _).mpr (passwd_within hn)) trivial
  | prob => exact (within_mapMessage _ _ _).trans (prob_within_iff hn)
  | submission => exact (within_mapMessage _ _ _).trans (submission_within_iff hn)
  | startStop => exact iff_of_true ((within_mapMessage _ _ _).mpr (startStop_within buf)) trivial
  | mark => exact iff_of_true ((within_mapMessage _ _ _).mpr (mark_within hn)) trivial
  | clarification => exact iff_of_true ((within_mapMessage _ _ _).mpr (clarification_within hn)) trivial
  | bonus => exact iff_of_true ((within_mapMessage _ _ _).mpr (bonus_within buf)) trivial

theorem load_within_of_terminator :
    (List.replicate 25 0 : Str).length < 4294967296 ∧ Within 25 (load .submission (List.replicate 25 0)) :=
  ⟨by decide, (load_within_iff_fits .submission (List.replicate 25 0) (by decide)).mpr (.inr (.inr (by decide)))⟩

/-- Twenty-four zero bytes: a submission of no content, whose language is looked for past the end. -/
theorem load_not_within_submission :
    ¬∀ (c : MessageClass) (buf : Str), buf.length < 4294967296 → Within buf.length (load c buf) := by
  intro hall
  exact hall .submission (List.replicate 24 0) (by decide)

end Abacus.Peer.ProbBounds
