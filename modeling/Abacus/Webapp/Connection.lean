import Abacus.Library.Keyed
import Abacus.Library.Utf8
import Abacus.Misc

/-! # Message blocks of the web application

The web application reads the bytes of a line up to the newline and decodes them to text. It does not keep the header
with the length, and writes the headers in the order of its map.
-/

namespace Abacus.Webapp.Connection

open Library Library.Bytes Library.Utf8

def digits (n : Nat) : Text := (Misc.decimal n).map fun b => Char.ofNat b.toNat

def contentLengthKey : Text := "content-length".toList

/-- What the codec uses of the Java library: the decoding of text and `Integer.valueOf`. -/
structure JavaLibrary where
  decode : Str → Text
  decode_utf8 : ∀ text, decode (utf8 text) = text
  valueOf : Text → Option Int
  valueOf_digits : ∀ n < 2147483648, valueOf (digits n) = some (n : Int)

inductive Failure where
  | io (msg : String)
  | numberFormat
  | illegalArgument (msg : String)
  deriving DecidableEq

/-- The headers are in the order of the map. -/
structure MessageBlock where
  name : Text
  headers : List (Text × Text)
  content : Option Str
  deriving DecidableEq

def MessageBlock.setHeader (mb : MessageBlock) (key value : Text) : Except Failure MessageBlock :=
  if key = contentLengthKey then .error (.illegalArgument "content-length is a reserved header")
  else .ok { mb with headers := Keyed.put Prod.fst mb.headers (key, value) }

section

variable (mb : MessageBlock) (java : JavaLibrary)

def headerText (header : Text × Text) : Text := header.1 ++ ':' :: header.2

/-- The order of the entries is up to the map. -/
def sendHeader (entries : List (Text × Text)) : Text :=
  mb.name ++ ['\n'] ++ entries.flatMap (fun entry => headerText entry ++ ['\n']) ++
    (match mb.content with
    | some content => headerText (contentLengthKey, digits content.length) ++ ['\n']
    | none => []) ++ ['\n']

def sendContent : Str := mb.content.getD []

def sendMessageBlock (entries : List (Text × Text)) : Str := utf8 (sendHeader mb entries) ++ sendContent mb

def readUntil (terminator : UInt8) (input : Str) : Option (Text × Str) :=
  match input.dropWhile (· ≠ terminator) with
  | [] => none
  | _ :: rest => some (java.decode (input.takeWhile (· ≠ terminator)), rest)

def addHeader (mb : MessageBlock) (contentLength : Int) (keyValue : Text) : Except Failure (MessageBlock × Int) :=
  match keyValue.dropWhile (· ≠ ':') with
  | [] => .error (.io "Malformed header line (no colon)")
  | _ :: value =>
    let key := keyValue.takeWhile (· ≠ ':')
    if key = contentLengthKey then
      match java.valueOf value with
      | none => .error .numberFormat
      | some length => .ok (mb, if length ≤ 0 then contentLength else length)
    else (mb.setHeader key value).map fun mb => (mb, contentLength)

def readHeaders : Nat → Str → MessageBlock → Int → Except Failure (MessageBlock × Int × Str)
  | 0, _, _, _ => .error (.io "Unexpected end of stream while reading header")
  | lines + 1, input, mb, contentLength =>
    match readUntil java 10 input with
    | none => .error (.io "Unexpected end of stream while reading header")
    | some (keyValue, rest) =>
      if keyValue = [] then .ok (mb, contentLength, rest)
      else match addHeader java mb contentLength keyValue with
        | .error failure => .error failure
        | .ok (mb, contentLength) => readHeaders lines rest mb contentLength

def receiveMessageBlock (input : Str) : Except Failure (MessageBlock × Str) :=
  match readUntil java 10 input with
  | none => .error (.io "Unexpected end of stream while reading action")
  | some (action, input) =>
    match readHeaders java (input.length + 1) input ⟨action, [], none⟩ 0 with
    | .error failure => .error failure
    | .ok (mb, contentLength, input) =>
      if 0 < contentLength then
        if input.length < contentLength.toNat then .error (.io "Unexpected end of stream while reading content")
        else .ok ({ mb with content := some (input.take contentLength.toNat) }, input.drop contentLength.toNat)
      else .ok (mb, input)

end

section

variable {java : JavaLibrary} {mb : MessageBlock} {text : Text} {header : Text × Text} {rest : Str}
variable {headers : List (Text × Text)}

theorem newline_notMem_utf8 (h : '\n' ∉ text) : ∀ b ∈ utf8 text, b ≠ 10 := by
  rintro b hb rfl
  exact h ((mem_utf8 (by decide)).mp hb)

theorem colon_notMem_utf8 (h : ':' ∉ text) : ∀ b ∈ utf8 text, b ≠ 58 := by
  rintro b hb rfl
  exact h ((mem_utf8 (by decide)).mp hb)

theorem readUntil_line (h : '\n' ∉ text) (rest : Str) :
    readUntil java 10 (utf8 text ++ 10 :: rest) = some (text, rest) := by
  have hpos : ∀ b ∈ utf8 text, decide (b ≠ 10) = true := fun b hb => decide_eq_true (newline_notMem_utf8 h b hb)
  rw [readUntil, List.dropWhile_append_of_pos hpos, List.takeWhile_append_of_pos hpos]
  simp [java.decode_utf8]

/-- A line of a header that both codecs can tell apart from the others. -/
structure Plain (header : Text × Text) : Prop where
  name : ':' ∉ header.1 ∧ '\n' ∉ header.1
  value : '\n' ∉ header.2

theorem Plain.newline_notMem (h : Plain header) : '\n' ∉ headerText header := by
  simp [headerText, h.name.2, h.value]

theorem split_headerText (h : ':' ∉ header.1) :
    (headerText header).takeWhile (· ≠ ':') = header.1 ∧ (headerText header).dropWhile (· ≠ ':') = ':' :: header.2 := by
  have hpos : ∀ c ∈ header.1, decide (c ≠ ':') = true := by
    intro c hc
    refine decide_eq_true ?_
    rintro rfl
    exact h hc
  rw [headerText, List.takeWhile_append_of_pos hpos, List.dropWhile_append_of_pos hpos]
  simp

theorem addHeader_plain (h : Plain header) (hname : header.1 ≠ contentLengthKey) (contentLength : Int) :
    addHeader java mb contentLength (headerText header) =
      .ok ({ mb with headers := Keyed.put Prod.fst mb.headers header }, contentLength) := by
  obtain ⟨htake, hdrop⟩ := split_headerText h.name.1
  simp only [addHeader, htake, hdrop, if_neg hname, MessageBlock.setHeader]
  rfl

theorem addHeader_length {n : Nat} (hpos : 0 < n) (hn : n < 2147483648) (contentLength : Int) :
    addHeader java mb contentLength (headerText (contentLengthKey, digits n)) = .ok (mb, (n : Int)) := by
  have hcolon : ':' ∉ contentLengthKey := by decide
  obtain ⟨htake, hdrop⟩ : (headerText (contentLengthKey, digits n)).takeWhile (· ≠ ':') = contentLengthKey ∧
      (headerText (contentLengthKey, digits n)).dropWhile (· ≠ ':') = ':' :: digits n := split_headerText hcolon
  have hlength : ¬(n : Int) ≤ 0 := by omega
  simp only [addHeader, htake, hdrop, if_true, java.valueOf_digits n hn, if_neg hlength]

def lines (headers : List (Text × Text)) : Str := headers.flatMap fun header => utf8 (headerText header) ++ [10]

def Announces (n : Nat) (header : Text × Text) : Prop :=
  Plain header ∧ (header.1 = contentLengthKey → header.2 = digits n ∧ 0 < n ∧ n < 2147483648)

theorem readHeaders_lines {n : Nat} (hheaders : ∀ header ∈ headers, Announces n header)
    {bound : Nat} (hbound : headers.length < bound) (mb : MessageBlock) (contentLength : Int) (rest : Str) :
    readHeaders java bound (lines headers ++ 10 :: rest) mb contentLength =
      .ok ({ mb with headers := (headers.filter (·.1 ≠ contentLengthKey)).foldl (Keyed.put Prod.fst) mb.headers },
        if contentLengthKey ∈ headers.map Prod.fst then (n : Int) else contentLength, rest) := by
  induction headers generalizing bound mb contentLength with
  | nil =>
    obtain ⟨bound, rfl⟩ := Nat.exists_eq_succ_of_ne_zero (Nat.ne_of_gt hbound)
    have hline : readUntil java 10 (utf8 [] ++ 10 :: rest) = some ([], rest) := readUntil_line List.not_mem_nil rest
    simp only [utf8_nil, List.nil_append] at hline
    simp [readHeaders, lines, hline]
  | cons header headers ih =>
    obtain ⟨bound, rfl⟩ := Nat.exists_eq_succ_of_ne_zero (Nat.ne_of_gt (Nat.lt_of_le_of_lt (Nat.zero_le _) hbound))
    obtain ⟨⟨hplain, hannounced⟩, htail⟩ := List.forall_mem_cons.mp hheaders
    have hsplit : lines (header :: headers) ++ 10 :: rest =
        utf8 (headerText header) ++ 10 :: (lines headers ++ 10 :: rest) := by
      simp [lines]
    have hne : headerText header ≠ [] := by simp [headerText]
    rw [hsplit, readHeaders, readUntil_line hplain.newline_notMem]
    dsimp only
    rw [if_neg hne]
    rw [List.length_cons] at hbound
    by_cases hname : header.1 = contentLengthKey
    · obtain ⟨hvalue, hpos, hn⟩ := hannounced hname
      obtain rfl : header = (contentLengthKey, digits n) := Prod.ext hname hvalue
      rw [addHeader_length hpos hn]
      dsimp only
      rw [ih htail (Nat.lt_of_succ_lt_succ hbound)]
      simp
    · rw [addHeader_plain hplain hname]
      dsimp only
      rw [ih htail (Nat.lt_of_succ_lt_succ hbound)]
      have hmem : contentLengthKey ∈ (header :: headers).map Prod.fst ↔ contentLengthKey ∈ headers.map Prod.fst := by
        rw [List.map_cons, List.mem_cons]
        exact or_iff_right (Ne.symm hname)
      have hfilter : (header :: headers).filter (·.1 ≠ contentLengthKey) =
          header :: headers.filter (·.1 ≠ contentLengthKey) := List.filter_cons_of_pos (by simpa using hname)
      rw [if_congr hmem rfl rfl, hfilter]
      rfl

theorem length_le_lines (headers : List (Text × Text)) : headers.length ≤ (lines headers).length := by
  induction headers with
  | nil => exact Nat.le_refl _
  | cons header headers ih =>
    simp only [lines, List.flatMap_cons, List.length_append, List.length_cons, List.length_nil] at ih ⊢
    omega

theorem receiveMessageBlock_lines {action : Text} (haction : '\n' ∉ action) {n : Nat}
    (hheaders : ∀ header ∈ headers, Announces n header) {content : Str}
    (hcontent : content.length = if contentLengthKey ∈ headers.map Prod.fst then n else 0) (rest : Str) :
    receiveMessageBlock java (utf8 action ++ 10 :: (lines headers ++ 10 :: (content ++ rest))) =
      .ok (⟨action, (headers.filter (·.1 ≠ contentLengthKey)).foldl (Keyed.put Prod.fst) [],
        if content = [] then none else some content⟩, rest) := by
  have hbound : headers.length < (lines headers ++ 10 :: (content ++ rest)).length + 1 := by
    have hle := length_le_lines headers
    rw [List.length_append]
    omega
  rw [receiveMessageBlock, readUntil_line haction]
  dsimp only
  rw [readHeaders_lines hheaders hbound]
  dsimp only
  by_cases hmem : contentLengthKey ∈ headers.map Prod.fst
  · rw [if_pos hmem] at hcontent ⊢
    obtain ⟨header, hheader, hname⟩ := List.mem_map.mp hmem
    obtain ⟨-, hpos, -⟩ := (hheaders header hheader).2 hname
    have hne : content ≠ [] := by
      rintro rfl
      exact absurd hcontent (Nat.ne_of_lt hpos)
    rw [if_pos (by omega), Int.toNat_natCast, ← hcontent, if_neg (by simp), List.take_left, List.drop_left, if_neg hne]
  · rw [if_neg hmem] at hcontent ⊢
    obtain rfl := List.length_eq_zero_iff.mp hcontent
    rw [if_neg (by decide), if_pos rfl]
    rfl

end

end Abacus.Webapp.Connection
