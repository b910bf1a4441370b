import Abacus.Peer.Blob

/-! # Round trips

What `store` of a class writes, `load` reads back, if the strings have no zero byte. A reader takes the first of
the fields and stands before the others; for lists this goes by induction.
-/

namespace Abacus.Peer.RoundTrip

open Library Library.Bytes Library.Written Peer.Classes Peer.Load Peer.Store Peer.Blob

def Loads (m : Message) : Prop := load m.class (image (fields m)) = .ok (m, dataSize m)

variable {m : Message}

section

/-- From `pos` on, the buffer holds these fields and no more. -/
structure Ahead (buf : Str) (pos : Nat) (fs : List Field) : Prop where
  drop : buf.drop pos = image fs
  length : buf.length = pos + (fs.map Field.length).sum
  typed : ∀ f ∈ fs, TypedField f
  plain : ∀ f ∈ fs, PlainField f

variable {buf s : Str} {pos n : Nat} {f : Field} {fs : List Field} {α β : Type} {r : Read β}

namespace Ahead

theorem next (h : Ahead buf pos (f :: fs)) : Ahead buf (pos + f.length) fs where
  drop := by
    rw [← length_fieldImage]
    exact drop_written h.drop
  length := by rw [h.length, List.map_cons, List.sum_cons, Nat.add_assoc]
  typed := (List.forall_mem_cons.mp h.typed).2
  plain := (List.forall_mem_cons.mp h.plain).2

theorem word {g : Nat → Read β} (h : Ahead buf pos (.word n :: fs)) (hg : Ahead buf (pos + 4) fs → g n = r) :
    u32At buf pos >>= g = r := by
  rw [u32At_written (h.typed _ List.mem_cons_self) h.drop, bind_ok]
  exact hg h.next

theorem int {z : Int} {g : Int → Read β} (h : Ahead buf pos (.int z :: fs)) (hg : Ahead buf (pos + 4) fs → g z = r) :
    i32At buf pos >>= g = r := by
  have hz := h.typed _ List.mem_cons_self
  rw [i32At_written hz.1 hz.2 h.drop, bind_ok]
  exact hg h.next

variable {g : Str → Read β}

theorem bytes (h : Ahead buf pos (.bytes s :: fs)) (hg : Ahead buf (pos + s.length) fs → g s = r) :
    bytesAt buf pos s.length >>= g = r := by
  have hread : bytesAt buf pos s.length = .ok s := bytesAt_written h.drop
  rw [hread, bind_ok]
  exact hg h.next

theorem byte {b : UInt8} (h : Ahead buf pos (.bytes [b] :: fs)) : byteAt buf pos = .ok b := byteAt_written h.drop

theorem string (h : Ahead buf pos (.string s :: fs))
    (hg : Ahead buf (pos + (s.length + 1)) fs → g s = r) : cstrAt buf pos >>= g = r := by
  have hdrop : buf.drop pos = s ++ 0 :: image fs := by
    rw [h.drop, List.append_cons]
    rfl
  rw [cstrAt_written (h.plain _ List.mem_cons_self) hdrop, bind_ok]
  exact hg h.next

theorem packed (h : Ahead buf pos (.packed s :: fs))
    (hg : Ahead buf (pos + (s.length + 1)) fs → g s = r) : cstrAt buf pos >>= g = r :=
  string ⟨h.drop, h.length, List.forall_mem_cons.mpr ⟨trivial, h.next.typed⟩,
    List.forall_mem_cons.mpr ⟨h.plain (.packed s) List.mem_cons_self, h.next.plain⟩⟩ hg

theorem check {g : Bool → Read β} {size : Nat} (first : List Field) (h : Ahead buf pos (first ++ fs))
    (hsize : (first.map Field.length).sum ≤ size) (hn : n ≤ (image first).count 0) (hg : g true = r) :
    checkStringTerms buf pos size n >>= g = r := by
  have hdrop : buf.drop pos = image first ++ image fs := by rw [h.drop, image, List.flatMap_append, image, image]
  rw [checkStringTerms, termsAt_written hdrop (by rwa [length_image]) hn]
  exact hg

theorem terms {g : Unit → Read β} {size : Nat} (first : List Field) (h : Ahead buf pos (first ++ fs))
    (hsize : (first.map Field.length).sum ≤ size) (hn : n ≤ (image first).count 0) (hg : g () = r) :
    requireTerms buf pos size n >>= g = r := by
  have hok : requireTerms buf pos size n = .ok () := h.check first hsize hn rfl
  rw [hok]
  exact hg

theorem zeros (h : Ahead buf pos fs) : zerosAt buf pos (buf.length - pos) = .ok ((image fs).count 0) := by
  rw [zerosAt_ok le_rfl, zeros_rest, Bytes.terms, h.drop]

theorem ends (h : Ahead buf pos []) (hbuf : buf.length < 4294967296) (a : α) :
    (pure (a, wrap32 pos) : Read (α × Nat)) = .ok (a, buf.length) := by
  have hend : buf.length = pos := h.length
  rw [← hend, wrap32_of_le le_rfl hbuf]
  rfl

end Ahead

theorem Loads.of_ahead (htyped : Typed m) (hplain : Plain m) (hsize : dataSize m < 4294967296)
    (h : ∀ buf, buf.length < 4294967296 → Ahead buf 0 (fields m) → load m.class buf = .ok (m, buf.length)) :
    Loads m := by
  have hlength : (image (fields m)).length = dataSize m := length_image _
  rw [Loads, ← hlength]
  exact h _ (hlength.trans_lt hsize) ⟨rfl, hlength.trans (Nat.zero_add _).symm, htyped, hplain⟩

theorem mapMessage_ok {inj : α → Message} {r : Read (α × Nat)} {a : α} (h : r = .ok (a, n)) :
    mapMessage inj r = .ok (inj a, n) := by
  rw [h]
  rfl

end

theorem loads_bonus {m : BonusMessage} (htyped : Typed (.bonus m)) (hplain : Plain (.bonus m)) : Loads (.bonus m) := by
  refine .of_ahead htyped hplain (by change 12 < _; decide) fun buf hbuf h => mapMessage_ok ?_
  have hlength : buf.length = 12 := h.length
  rw [BonusMessage.load, if_neg (by omega), hlength]
  exact h.word fun h => h.int fun h => h.int fun _ => rfl

theorem loads_startStop {m : MsgStartStop} (htyped : Typed (.startStop m)) (hplain : Plain (.startStop m)) :
    Loads (.startStop m) := by
  refine .of_ahead htyped hplain (by change 12 < _; decide) fun buf hbuf h => mapMessage_ok ?_
  have hlength : buf.length = 12 := h.length
  rw [MsgStartStop.load, if_neg (by omega), hlength]
  exact h.word fun h => h.word fun h => h.word fun _ => rfl

theorem loads_clarification {m : ClarificationMessage} (htyped : Typed (.clarification m))
    (hplain : Plain (.clarification m)) (hsize : dataSize (.clarification m) < 4294967296) :
    Loads (.clarification m) := by
  refine .of_ahead htyped hplain hsize fun buf hbuf h => mapMessage_ok ?_
  have hlength := h.length
  simp only [fields, List.map_cons, List.map_nil, List.sum_cons, List.sum_nil, Field.length] at hlength
  rw [ClarificationMessage.load, if_neg (by omega), sub32_of_le hbuf (by omega)]
  refine h.word fun h => h.word fun h => h.word fun h => h.word fun h => h.word fun h => h.word fun h => h.word
    fun h => ?_
  refine h.terms [.string m.text] ?_ (by simp [image, fieldImage]) (h.string fun h => h.ends hbuf _)
  change m.text.length + 1 ≤ _
  omega

theorem loads_passwd {m : PasswdMessage} (htyped : Typed (.passwd m)) (hplain : Plain (.passwd m))
    (hsize : dataSize (.passwd m) < 4294967296) : Loads (.passwd m) := by
  refine .of_ahead htyped hplain hsize fun buf hbuf h => mapMessage_ok ?_
  have hlength := h.length
  simp only [fields, List.map_cons, List.map_nil, List.sum_cons, List.sum_nil, Field.length] at hlength
  obtain ⟨len, hlen, hend⟩ := strnlenAt_ok 4 (le_refl (buf.length - 4))
  have hne : len ≠ buf.length - 4 := by
    have hdrop : buf.drop 4 = image [.string m.newpass] := h.next.drop
    rw [Ne, hend, zeros_rest, terms, hdrop]
    simp [image, fieldImage]
  rw [PasswdMessage.load, if_neg (by omega), hlen, bind_ok, if_neg hne]
  exact h.word fun h => h.string fun h => h.ends hbuf _

theorem loads_createGroup {m : MessageCreateGroup} (htyped : Typed (.createGroup m)) (hplain : Plain (.createGroup m))
    (hsize : dataSize (.createGroup m) < 4294967296) : Loads (.createGroup m) := by
  refine .of_ahead htyped hplain hsize fun buf hbuf h => mapMessage_ok ?_
  have hzeros : zerosAt buf 4 (buf.length - 4) = .ok _ := h.next.zeros
  rw [MessageCreateGroup.load, hzeros, bind_ok, if_neg (by simp [image, fieldImage])]
  exact h.word fun h => h.string fun h => h.ends hbuf _

theorem loads_createUser {m : MessageCreateUser} (htyped : Typed (.createUser m)) (hplain : Plain (.createUser m))
    (hsize : dataSize (.createUser m) < 4294967296) : Loads (.createUser m) := by
  refine .of_ahead htyped hplain hsize fun buf hbuf h => mapMessage_ok ?_
  have hzeros : zerosAt buf 16 (buf.length - 16) = .ok _ := h.next.next.next.next.zeros
  rw [MessageCreateUser.load, hzeros, bind_ok, if_neg (by simp [image, fieldImage]; omega)]
  refine h.word fun h => h.word fun h => h.word fun h => h.word fun h => ?_
  exact h.string fun h => h.string fun h => h.string fun h => h.ends hbuf _

theorem loads_submission {m : SubmissionMessage} (htyped : Typed (.submission m)) (hplain : Plain (.submission m))
    (hsize : dataSize (.submission m) < 4294967296) : Loads (.submission m) := by
  refine .of_ahead htyped hplain hsize fun buf hbuf h => mapMessage_ok ?_
  have hlength := h.length
  simp only [fields, List.map_cons, List.map_nil, List.sum_cons, List.sum_nil, Field.length] at hlength
  rw [SubmissionMessage.load, if_neg (by omega), sub32_of_le hbuf (by omega)]
  refine h.word fun h => h.word fun h => h.word fun h => h.word fun h => h.word fun h => h.word fun h => ?_
  -- the size in the variable is four too large, which does no harm here
  rw [if_neg (by omega), sub32_rest hbuf (by omega)]
  refine h.bytes fun h => h.terms [.string m.language] ?_ (by simp [image, fieldImage])
    (h.string fun h => h.ends hbuf _)
  change m.language.length + 1 ≤ _
  omega

section

variable {buf : Str} {pos : Nat}

theorem loadAttribs_ahead (pairs : List (Str × Str)) (attribs : StringMap Str)
    (h : Ahead buf pos (pairs.flatMap fun a => [.string a.1, .string a.2])) :
    MessageCreateServer.loadAttribs buf (2 * pairs.length) pos attribs =
      .ok (attribs.insertMany pairs, buf.length) := by
  induction pairs generalizing pos attribs with
  | nil =>
    have hend : buf.length = pos := h.length
    rw [List.length_nil, Nat.mul_zero, MessageCreateServer.loadAttribs, Std.ExtTreeMap.insertMany_nil, hend]
    · rfl
    · intro k hk
      cases hk
  | cons p pairs ih =>
    rw [List.length_cons, Nat.mul_succ, MessageCreateServer.loadAttribs, Std.ExtTreeMap.insertMany_cons]
    exact h.string fun h => h.string fun h => ih _ h

theorem count_pairs (pairs : List (Str × Str)) (hplain : ∀ p ∈ pairs, (0 : UInt8) ∉ p.1 ∧ (0 : UInt8) ∉ p.2) :
    (image (pairs.flatMap fun a => [.string a.1, .string a.2])).count 0 = 2 * pairs.length := by
  induction pairs with
  | nil => rfl
  | cons p pairs ih =>
    obtain ⟨⟨hname, hvalue⟩, hrest⟩ := List.forall_mem_cons.mp hplain
    have hcount := ih hrest
    simp only [image, fieldImage, List.flatMap_cons, List.flatMap_append, List.flatMap_nil, List.count_append,
      List.count_cons_self, List.count_nil, List.count_eq_zero_of_not_mem hname,
      List.count_eq_zero_of_not_mem hvalue, List.length_cons] at hcount ⊢
    omega

theorem loads_createServer {m : MessageCreateServer} (htyped : Typed (.createServer m))
    (hplain : Plain (.createServer m)) (hsize : dataSize (.createServer m) < 4294967296) : Loads (.createServer m) := by
  have hpairs : ∀ p ∈ m.attribs.toList, (0 : UInt8) ∉ p.1 ∧ (0 : UInt8) ∉ p.2 := by
    intro p hp
    have hmem {f : Field} (hf : f ∈ [Field.string p.1, Field.string p.2]) : f ∈ fields (.createServer m) :=
      List.mem_append_right _ (List.mem_flatMap.mpr ⟨p, hp, hf⟩)
    exact ⟨hplain (.string p.1) (hmem (by simp)), hplain (.string p.2) (hmem (by simp))⟩
  have hname : (0 : UInt8) ∉ m.name := hplain (.string m.name) (by simp [fields])
  refine .of_ahead htyped hplain hsize fun buf hbuf h => mapMessage_ok ?_
  have hzeros : zerosAt buf 4 (buf.length - 4) = .ok (2 * m.attribs.toList.length + 1) := by
    refine h.next.zeros.trans (congrArg _ ?_)
    change ((m.name ++ [0]) ++ image _).count 0 = _
    rw [List.count_append, List.count_append, List.count_eq_zero_of_not_mem hname]
    exact (congrArg _ (count_pairs _ hpairs)).trans (Nat.add_comm _ _)
  rw [MessageCreateServer.load, hzeros, bind_ok, if_neg (Nat.succ_ne_zero _)]
  refine h.word fun h => h.string fun h => ?_
  rw [Nat.add_sub_cancel, loadAttribs_ahead _ _ h, Table.insertMany_toList]
  simp only [bind_ok]
  rw [wrap32_of_le le_rfl hbuf]
  rfl

theorem length_le_sum {α : Type} (g : α → List Field) (hg : ∀ a, image (g a) ≠ []) (l : List α) :
    l.length ≤ ((l.flatMap g).map Field.length).sum := by
  rw [← length_image, image, List.flatMap_assoc]
  exact length_le_flatMap hg l

theorem loadFiles_ahead (files : List MarkFile) {rounds : Nat} (before : List MarkFile) (hbuf : buf.length < 4294967296)
    (hrounds : files.length < rounds) (h : Ahead buf pos (files.flatMap markFile)) :
    MarkMessage.loadFiles buf rounds pos (buf.length - pos) before = .ok (before ++ files, buf.length) := by
  induction files generalizing rounds pos before with
  | nil =>
    obtain ⟨rounds, rfl⟩ := Nat.exists_eq_add_one_of_ne_zero (Nat.ne_of_gt hrounds)
    have hend : buf.length = pos := h.length
    rw [MarkMessage.loadFiles, if_neg (by omega), List.append_nil, hend]
    rfl
  | cons f files ih =>
    obtain ⟨rounds, rfl⟩ := Nat.exists_eq_add_one_of_ne_zero (Nat.ne_of_gt (Nat.zero_lt_of_lt hrounds))
    have hlength := h.length
    simp only [List.flatMap_cons, markFile, List.cons_append, List.map_cons, List.sum_cons, Field.length] at hlength
    rw [MarkMessage.loadFiles, if_pos (by omega)]
    refine h.check [.packed f.name] ?_ (by simp [image, fieldImage]) ?_
    · rw [sub32_rest hbuf (by omega)]
      change f.name.length + 1 ≤ _
      omega
    · rw [if_pos rfl]
      refine h.packed fun h => ?_
      rw [sub32_rest hbuf (by omega)]
      refine h.word fun h => ?_
      rw [sub32_rest hbuf (by omega), if_neg (by omega), sub32_rest hbuf (by omega)]
      refine h.bytes fun h => ?_
      have hread := ih (before ++ [f]) (Nat.lt_of_succ_lt_succ hrounds) h
      rwa [List.append_assoc] at hread

theorem loads_mark {m : MarkMessage} (htyped : Typed (.mark m)) (hplain : Plain (.mark m))
    (hsize : dataSize (.mark m) < 4294967296) : Loads (.mark m) := by
  refine .of_ahead htyped hplain hsize fun buf hbuf h => mapMessage_ok ?_
  have hlength := h.length
  simp only [fields, List.cons_append, List.nil_append, List.map_cons, List.sum_cons, Field.length] at hlength
  rw [MarkMessage.load, if_neg (by omega), sub32_of_le hbuf (by omega)]
  refine h.word fun h => h.word fun h => h.word fun h => h.word fun h => h.word fun h => ?_
  refine h.terms [.packed m.comment] ?_ (by simp [image, fieldImage]) (h.packed fun h => ?_)
  · change m.comment.length + 1 ≤ _
    omega
  · have hcount := length_le_sum markFile (by simp [markFile, image, fieldImage]) m.files
    have hfiles : MarkMessage.loadFiles buf buf.length (20 + (m.comment.length + 1)) _ [] = _ :=
      loadFiles_ahead m.files [] hbuf (by omega) h
    rw [sub32_rest hbuf (by omega)]
    simp only [hfiles, bind_ok, List.nil_append]
    rw [wrap32_of_le le_rfl hbuf]
    rfl

end

section

inductive Entry
  | int (attr : Str) (value : Int)
  | string (attr value : Str)
  | file (attr : Str) (file : FileAttrib)

def Entry.fields : Entry → List Field
  | .int attr value => [.bytes [73], .string attr, .int value]
  | .string attr value => [.bytes [83], .string attr, .string value]
  | .file attr f => fileAttrib (attr, f)

def Entry.add (m : ProbMessage) : Entry → ProbMessage
  | .int attr value => ProbMessage.addIntAttrib m attr value
  | .string attr value => ProbMessage.addStringAttrib m attr value
  | .file attr f => ProbMessage.addFileAttrib m attr f.name f.data

def Entry.Kept : Entry → Prop
  | .file _ f => f.name = [] → f.data = []
  | _ => True

def entries (m : ProbMessage) : List Entry :=
  m.ints.toList.map (fun a => .int a.1 a.2) ++ m.strings.toList.map (fun a => .string a.1 a.2) ++
    m.files.toList.map fun a => .file a.1 a.2

variable {buf : Str} {pos : Nat} {fs : List Field} {attr : Str}

theorem loadString_ahead {value : Str} (h : Ahead buf pos (.string attr :: .string value :: fs))
    (hbuf : buf.length < 4294967296) (m : ProbMessage) :
    ∃ pos', ProbMessage.loadString buf pos (buf.length - pos) m =
      .ok (ProbMessage.addStringAttrib m attr value, pos', buf.length - pos') ∧ Ahead buf pos' fs := by
  have hlength := h.length
  simp only [List.map_cons, List.sum_cons, Field.length] at hlength
  refine ⟨pos + (attr.length + 1) + (value.length + 1), ?_, h.next.next⟩
  refine h.terms [.string attr, .string value] ?_ (by simp [image, fieldImage]; omega) ?_
  · change attr.length + 1 + (value.length + 1 + 0) ≤ _
    omega
  · have hleft : sub32 (buf.length - pos) (attr.length + value.length + 2) =
        buf.length - (pos + (attr.length + 1) + (value.length + 1)) := by
      rw [sub32_rest hbuf (by omega)]
      omega
    refine h.string fun h => h.string fun _ => ?_
    rw [hleft]
    rfl

theorem loadInt_ahead {value : Int} (h : Ahead buf pos (.string attr :: .int value :: fs))
    (hbuf : buf.length < 4294967296) (m : ProbMessage) :
    ∃ pos', ProbMessage.loadInt buf pos (buf.length - pos) m =
      .ok (ProbMessage.addIntAttrib m attr value, pos', buf.length - pos') ∧ Ahead buf pos' fs := by
  have hlength := h.length
  simp only [List.map_cons, List.sum_cons, Field.length] at hlength
  refine ⟨pos + (attr.length + 1 + 4), ?_, h.next.next⟩
  rw [ProbMessage.loadInt, sub32_rest hbuf (by omega)]
  refine h.terms [.string attr] ?_ (by simp [image, fieldImage]) (h.string fun h => h.int fun _ => ?_)
  · change attr.length + 1 ≤ _
    omega
  · rw [sub32_rest hbuf (by omega)]
    rfl

theorem loadFile_ahead {file : FileAttrib}
    (h : Ahead buf pos (.string attr :: .string file.name :: .word file.data.length :: .bytes file.data :: fs))
    (hkept : file.name = [] → file.data = []) (hbuf : buf.length < 4294967296) (m : ProbMessage) :
    ∃ pos', ProbMessage.loadFile buf pos (buf.length - pos) m =
      .ok (ProbMessage.addFileAttrib m attr file.name file.data, pos', buf.length - pos') ∧ Ahead buf pos' fs := by
  have hlength := h.length
  simp only [List.map_cons, List.sum_cons, Field.length] at hlength
  refine ⟨pos + (attr.length + 1) + (file.name.length + 1) + 4 + file.data.length, ?_, h.next.next.next.next⟩
  have hleft : sub32 (buf.length - pos) (attr.length + file.name.length + 2 + 4) =
      buf.length - (pos + (attr.length + 1) + (file.name.length + 1) + 4) := by
    rw [sub32_rest hbuf (by omega)]
    omega
  rw [ProbMessage.loadFile, if_neg (by omega), sub32_rest hbuf (by omega)]
  refine h.terms [.string attr, .string file.name] ?_ (by simp [image, fieldImage]; omega) ?_
  · change attr.length + 1 + (file.name.length + 1 + 0) ≤ _
    omega
  · refine h.string fun h => h.string fun h => h.word fun h => ?_
    by_cases hempty : file.name = []
    · rw [if_pos hempty, hleft, hkept hempty, hempty]
      rfl
    · rw [if_neg hempty, hleft, if_neg (by omega), sub32_rest hbuf (by omega)]
      exact h.bytes fun _ => rfl

theorem loadAttrib_ahead {e : Entry} (h : Ahead buf pos (e.fields ++ fs)) (he : e.Kept) (hbuf : buf.length < 4294967296)
    (m : ProbMessage) : ∃ tag pos', byteAt buf pos = .ok tag ∧ ProbMessage.loadAttrib buf tag (pos + 1)
      (buf.length - (pos + 1)) m = .ok (e.add m, pos', buf.length - pos') ∧ Ahead buf pos' fs := by
  cases e with
  | int attr value => exact ⟨73, _, h.byte, (loadInt_ahead h.next hbuf m).choose_spec⟩
  | string attr value => exact ⟨83, _, h.byte, (loadString_ahead h.next hbuf m).choose_spec⟩
  | file attr file => exact ⟨70, _, h.byte, (loadFile_ahead h.next he hbuf m).choose_spec⟩

theorem loadAttribs_entries (es : List Entry) {rounds : Nat} (m : ProbMessage) (hes : ∀ e ∈ es, e.Kept)
    (hbuf : buf.length < 4294967296) (hrounds : es.length < rounds) (h : Ahead buf pos (es.flatMap Entry.fields)) :
    ProbMessage.loadAttribs buf rounds pos (buf.length - pos) m = .ok (es.foldl Entry.add m, buf.length) := by
  induction es generalizing rounds pos m with
  | nil =>
    obtain ⟨rounds, rfl⟩ := Nat.exists_eq_add_one_of_ne_zero (Nat.ne_of_gt hrounds)
    have hend : buf.length = pos := h.length
    rw [ProbMessage.loadAttribs, if_pos (by omega), hend]
    rfl
  | cons e es ih =>
    obtain ⟨rounds, rfl⟩ := Nat.exists_eq_add_one_of_ne_zero (Nat.ne_of_gt (Nat.zero_lt_of_lt hrounds))
    obtain ⟨he, hes⟩ := List.forall_mem_cons.mp hes
    have hlength : pos < buf.length := by
      rw [h.length]
      cases e <;> exact Nat.lt_add_of_pos_right (Nat.lt_add_right _ Nat.one_pos)
    obtain ⟨tag, pos', htag, hload, h⟩ := loadAttrib_ahead h he hbuf m
    rw [ProbMessage.loadAttribs, if_neg (by omega), htag, sub32_rest hbuf (by omega)]
    simp only [bind_ok, hload]
    exact ih _ hes (Nat.lt_of_succ_lt_succ hrounds) h

theorem loadDeps_ahead (deps : List Nat) (h : Ahead buf pos (deps.map .word ++ fs)) :
    ProbMessage.loadDeps buf pos deps.length = .ok deps ∧ Ahead buf (pos + 4 * deps.length) fs := by
  induction deps generalizing pos with
  | nil => exact ⟨rfl, h⟩
  | cons d deps ih =>
    obtain ⟨hreads, hrest⟩ := ih h.next
    constructor
    · refine h.word fun _ => ?_
      exact congrArg (· >>= _) hreads
    · rw [List.length_cons, Nat.mul_succ, Nat.add_comm (4 * deps.length), ← Nat.add_assoc]
      exact hrest

theorem foldl_add {β : Type} (entry : Str × β → Entry) (set : StringMap β → ProbMessage)
    (hadd : ∀ t a, (entry a).add (set t) = set (t.insert a.1 a.2)) (t : StringMap β) :
    (t.toList.map entry).foldl Entry.add (set ∅) = set t := by
  have hfold (l : List (Str × β)) (t : StringMap β) : (l.map entry).foldl Entry.add (set t) = set (t.insertMany l) := by
    induction l generalizing t with
    | nil => rfl
    | cons a l ih => rw [List.map_cons, List.foldl_cons, hadd, ih, Std.ExtTreeMap.insertMany_cons]
  rw [hfold, Table.insertMany_toList]

theorem foldl_entries (m : ProbMessage) :
    (entries m).foldl Entry.add { m with files := ∅, strings := ∅, ints := ∅ } = m := by
  have hints := foldl_add (fun a => .int a.1 a.2) (fun ints => { m with files := ∅, strings := ∅, ints })
    (fun _ _ => rfl) m.ints
  have hstrings := foldl_add (fun a => .string a.1 a.2) (fun strings => { m with files := ∅, strings }) (fun _ _ => rfl)
    m.strings
  rw [entries, List.foldl_append, List.foldl_append, hints, hstrings]
  exact foldl_add _ (fun files => { m with files }) (fun _ _ => rfl) m.files

theorem fields_prob (m : ProbMessage) :
    fields (.prob m) = .word m.probId :: .word m.updateTime :: .word m.deps.length :: (m.deps.map .word ++
      .string m.type :: (entries m).flatMap Entry.fields) := by
  simp [fields, entries, Entry.fields, List.flatMap_map]

theorem kept_entries {m : ProbMessage} (hfiles : FilesNamed (.prob m)) : ∀ e ∈ entries m, e.Kept := by
  intro e he
  simp only [entries, List.mem_append, List.mem_map] at he
  obtain (⟨a, -, rfl⟩ | ⟨a, -, rfl⟩) | ⟨a, ha, rfl⟩ := he
  · trivial
  · trivial
  · exact hfiles a.1 a.2 (Std.ExtTreeMap.mem_toList_iff_getElem?_eq_some.mp ha)

theorem loads_prob {m : ProbMessage} (htyped : Typed (.prob m)) (hplain : Plain (.prob m))
    (hfiles : FilesNamed (.prob m)) (hsize : dataSize (.prob m) < 4294967296) : Loads (.prob m) := by
  refine .of_ahead htyped hplain hsize fun buf hbuf h => mapMessage_ok ?_
  rw [fields_prob] at h
  have hcount : m.deps.length < 4294967296 := h.next.next.typed _ List.mem_cons_self
  have hentries :=
    length_le_sum Entry.fields (fun e => by cases e <;> simp [Entry.fields, fileAttrib, image, fieldImage])
    (entries m)
  have hlength := h.length
  have hdeps : ((m.deps.map Field.word).map Field.length).sum = 4 * m.deps.length := by
    simp [Function.comp_def, Field.length, Nat.mul_comm]
  simp only [List.map_cons, List.map_append, List.sum_cons, List.sum_append, hdeps, Field.length] at hlength
  have hrest : sub32 (sub32 buf.length 8) (wrap32 (1 + m.deps.length) * 4) = buf.length - (12 + 4 * m.deps.length) := by
    rw [wrap32, Nat.mod_eq_of_lt (by omega), sub32_of_le hbuf (by omega), sub32_rest hbuf (by omega)]
    omega
  rw [ProbMessage.load, if_neg (by omega)]
  refine h.word fun h => h.word fun h => h.word fun h => ?_
  obtain ⟨hread : ProbMessage.loadDeps buf 12 _ = _, h⟩ := loadDeps_ahead m.deps h
  rw [hread, bind_ok, hrest]
  refine h.terms [.string m.type] ?_ (by simp [image, fieldImage]) (h.string fun h => ?_)
  · change m.type.length + 1 ≤ _
    omega
  · have hattribs : ProbMessage.loadAttribs buf _ (12 + 4 * m.deps.length + (m.type.length + 1)) _ _ = _ :=
      loadAttribs_entries (entries m) { m with files := ∅, strings := ∅, ints := ∅ } (kept_entries hfiles) hbuf
        (show (entries m).length < buf.length + 1 by omega) h
    rw [sub32_rest hbuf (by omega)]
    simp only [hattribs, bind_ok, foldl_entries]
    rw [wrap32_of_le le_rfl hbuf]
    rfl

end

/-- What `store` writes, `load` of the same class reads back. -/
theorem loads_of_plain (htyped : Typed m) (hplain : Plain m) (hfiles : FilesNamed m)
    (hsize : dataSize m < 4294967296) : Loads m := by
  cases m with
  | createServer m => exact loads_createServer htyped hplain hsize
  | createUser m => exact loads_createUser htyped hplain hsize
  | createGroup m => exact loads_createGroup htyped hplain hsize
  | passwd m => exact loads_passwd htyped hplain hsize
  | prob m => exact loads_prob htyped hplain hfiles hsize
  | submission m => exact loads_submission htyped hplain hsize
  | startStop m => exact loads_startStop htyped hplain
  | mark m => exact loads_mark htyped hplain hsize
  | clarification m => exact loads_clarification htyped hplain hsize
  | bonus m => exact loads_bonus htyped hplain

section

variable (functors : Functors) (h : Header) (fresh : Fresh)

/-- As many bytes are written as `storageRequired` says, and the block gives the message back. -/
structure RoundTrips (m : Message) : Prop where
  size : storageRequired m = some (written m)
  rebuilt : ∃ blob, makeBlob h m.class.messageTypeId (store fresh m (written m)) = .ok blob ∧
    buildMessage functors blob = .ok (h, m)

variable {functors h}

theorem rebuilds_of_plain (hfunctor : functors m.class.messageTypeId = some m.class) (htyped : Typed m)
    (hplain : Plain m) (hfiles : FilesNamed m) (hsize : blobHeader + dataSize m < 4294967296) :
    ∃ blob, makeBlob h m.class.messageTypeId (store fresh m (dataSize m)) = .ok blob ∧
      buildMessage functors blob = .ok (h, m) := by
  have hlength : (image (fields m)).length = dataSize m := length_image _
  have hblob : makeBlob h m.class.messageTypeId (image (fields m)) = .ok _ := if_pos (by omega)
  have hload : Loads m := loads_of_plain htyped hplain hfiles (by omega)
  rw [store_eq_image fresh htyped hplain]
  refine ⟨_, hblob, buildMessage_makeBlob_of_load hblob hfunctor hload (image_ne_nil m) ?_⟩
  unfold blobHeader at hsize
  omega

variable (functors h)

theorem roundTrips_of_plain (hfunctor : functors m.class.messageTypeId = some m.class) (htyped : Typed m)
    (hplain : Plain m) (hfiles : FilesNamed m) (hsize : blobHeader + dataSize m < 4294967296)
    (hproper : proper m = true) : RoundTrips functors h fresh m := by
  constructor
  · rw [written_eq_dataSize hplain]
    exact storageRequired_eq hproper hsize
  · rw [written_eq_dataSize hplain]
    exact rebuilds_of_plain fresh hfunctor htyped hplain hfiles hsize

def header : Header where
  serverId := 1
  messageId := 7
  time := 100
  signature := List.replicate 128 0
  serverId_lt := one_lt_word
  messageId_lt := by decide
  time_lt := by decide
  length_signature := rfl

def problem (probId : Nat) : ProbMessage where
  probId
  updateTime := 100
  deps := [1, 2]
  type := str "tcprob"
  files := (∅ : StringMap FileAttrib).insert (str "checker") { name := [], data := [] }
  strings := (∅ : StringMap Str).insert (str "shortname") (str "A")
  ints := (∅ : StringMap Int).insert (str "time_limit") (-1)

theorem filesNamed_problem (probId : Nat) : FilesNamed (.prob (problem probId)) := by
  intro attr file hfile _
  rw [problem, Table.getElem?_insert_row] at hfile
  split at hfile
  · cases hfile
    rfl
  · simp at hfile

theorem roundTrips_problem : RoundTrips classOfTypeId header (fun _ => 0) (.prob (problem 17)) :=
  roundTrips_of_plain classOfTypeId header _ rfl (by decide) (by decide) (filesNamed_problem 17) (by decide) (by decide)

/-- There was no number for a new problem. -/
theorem not_roundTrips_improper :
    ¬∀ functors h fresh m, functors m.class.messageTypeId = some m.class → Typed m → Plain m → FilesNamed m →
      blobHeader + dataSize m < 4294967296 → RoundTrips functors h fresh m := by
  intro hall
  have htrip := hall classOfTypeId header (fun _ => 0) (.prob (problem 4294967295)) rfl (by decide) (by decide)
    (filesNamed_problem _) (by decide)
  have hnone : storageRequired (.prob (problem 4294967295)) = none := by decide
  cases hnone.symm.trans htrip.size

end

end Abacus.Peer.RoundTrip
