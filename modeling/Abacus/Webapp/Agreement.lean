import Abacus.Client.Transfer
import Abacus.Webapp.Connection

/-! # The two codecs

What the server writes of a message the web application reads back, and the other way round, as long as the server can
count the bytes of every line. Only the server leaves out the length of empty content.
-/

namespace Abacus.Webapp.Agreement

open Library Library.Bytes Library.Utf8 Misc Peer.Classes Client.Wire Client.Transfer Connection

structure Message where
  action : Text
  headers : List (Text × Text)
  content : Option Str
  action_ne : action ≠ []
  action_word : ' ' ∉ action ∧ '\n' ∉ action
  distinct : Keyed.Distinct Prod.fst headers
  plain : ∀ header ∈ headers, Plain header ∧ header.1 ≠ contentLengthKey
  size : (content.getD []).length < 2147483648

def encoded (header : Text × Text) : Str × Str := (utf8 header.1, utf8 header.2)

def headerMap (headers : List (Text × Text)) : StringMap Str := (∅ : StringMap Str).insertMany (headers.map encoded)

namespace Message

variable (m : Message)

def bytes : Str := m.content.getD []

def serverBlock : Client.Block.MessageBlock :=
  Client.Block.MessageBlock.setContent
    { Client.Block.MessageBlock.ofAction (utf8 m.action) with headers := headerMap m.headers } m.bytes

def webBlock : MessageBlock := ⟨m.action, m.headers, m.content⟩

def serverLength : Option Nat := if m.bytes = [] then none else some m.bytes.length

def webLength : Option Nat := m.content.map List.length

/-- The web application reads the block of the server, and nothing behind it. -/
def ReadByWeb (java : JavaLibrary) : Prop :=
  ∀ rest, ∃ mb, receiveMessageBlock java (getRaw m.serverBlock ++ rest) = .ok (mb, rest) ∧ mb.name = m.action ∧
    mb.headers.Perm m.headers ∧ mb.content.getD [] = m.bytes

structure Held (d : Decoder) : Prop where
  message : d.message = utf8 m.action
  messageId : d.messageId = []
  headers : d.headers.erase (str "content-length") = headerMap m.headers
  contentLength : d.contentLength = m.bytes.length
  content : d.content = m.bytes

/-- The server reads the block of the web application, in whatever order its map gives the headers. -/
def ReadByServer : Prop :=
  ∀ entries, entries.Perm m.headers → Delivered (sendMessageBlock m.webBlock entries) m.Held

/-- The server can count the bytes of every line. -/
def ShortLines : Prop :=
  (utf8 m.action).length < 2147483648 ∧ ∀ header ∈ m.headers, (utf8 (headerText header)).length < 2147483648

end Message

section

variable {m : Message} {header : Text × Text} {headers entries : List (Text × Text)} {length : Option Nat}

theorem utf8_digits (n : Nat) : utf8 (digits n) = decimal n := by
  apply utf8_map_ofNat
  intro b hb
  have hdigit := List.all_eq_true.mp (all_isDigit_decimalDigits n n) b hb
  simp only [isDigit, Bool.and_eq_true, decide_eq_true_eq, UInt8.le_iff_toNat_le] at hdigit
  exact Nat.lt_of_le_of_lt hdigit.2 (by decide)

theorem encoded_length (n : Nat) : encoded (contentLengthKey, digits n) = (str "content-length", decimal n) := by
  have hkey : utf8 contentLengthKey = str "content-length" := by decide +kernel
  rw [encoded, hkey, utf8_digits]

theorem headerLine_encoded (header : Text × Text) : headerLine (encoded header) = utf8 (headerText header) := by
  have hcolon : utf8 (':' :: header.2) = 58 :: utf8 header.2 := rfl
  rw [headerText, utf8_append, hcolon]
  rfl

theorem headerLines_encoded (headers : List (Text × Text)) : headerLines (headers.map encoded) = lines headers := by
  rw [headerLines, lines, List.flatMap_map]
  simp only [headerLine_encoded]

theorem plain_length (n : Nat) : Plain (contentLengthKey, digits n) := by
  have hkey : ':' ∉ contentLengthKey ∧ '\n' ∉ contentLengthKey := by decide
  refine ⟨hkey, fun hmem => ?_⟩
  have hbyte : UInt8.ofNat '\n'.toNat ∈ utf8 (digits n) := (mem_utf8 (by decide)).mpr hmem
  rw [utf8_digits] at hbyte
  exact newline_notMem_decimal n _ hbyte rfl

def withLength (headers : List (Text × Text)) (length : Option Nat) : List (Text × Text) :=
  headers ++ (length.map fun n => (contentLengthKey, digits n)).toList

theorem mem_withLength : header ∈ withLength headers length ↔
    header ∈ headers ∨ ∃ n, length = some n ∧ header = (contentLengthKey, digits n) := by
  simp [withLength, eq_comm]

theorem distinct_withLength (h : entries.Perm m.headers) : Keyed.Distinct Prod.fst (withLength entries length) := by
  have hentries : Keyed.Distinct Prod.fst entries := (h.map Prod.fst).nodup_iff.mpr m.distinct
  cases length with
  | none =>
    rw [withLength, Option.map_none, Option.toList_none, List.append_nil]
    exact hentries
  | some n =>
    rw [Keyed.Distinct, withLength, List.map_append]
    refine List.nodup_append.mpr ⟨hentries, List.nodup_singleton _, ?_⟩
    intro name hname other hother
    obtain ⟨header, hheader, rfl⟩ := List.mem_map.mp hname
    obtain rfl : other = contentLengthKey := List.mem_singleton.mp hother
    exact (m.plain header (h.mem_iff.mp hheader)).2

theorem nodup_names (h : Keyed.Distinct Prod.fst headers) : ((headers.map encoded).map Prod.fst).Nodup := by
  have hnames : (headers.map encoded).map Prod.fst = (headers.map Prod.fst).map utf8 := by
    rw [List.map_map, List.map_map]
    rfl
  rw [hnames]
  exact h.map fun _ _ => utf8_inj

theorem getElem?_headerMap (h : Keyed.Distinct Prod.fst headers) {name value : Str} :
    (headerMap headers)[name]? = some value ↔ (name, value) ∈ headers.map encoded :=
  Table.getElem?_insertMany_iff (nodup_names h)

end

section

variable {m : Message} {java : JavaLibrary} {header : Text × Text} {order : List (Text × Text)}

theorem serverBlock_headers (m : Message) :
    m.serverBlock.headers = headerMap (withLength m.headers m.serverLength) := by
  rw [Message.serverBlock, Client.Block.MessageBlock.headers_setContent, Message.serverLength, withLength]
  split
  · simp
  · rw [headerMap, headerMap, List.map_append, Std.ExtTreeMap.insertMany_append, Option.map_some, Option.toList_some,
      List.map_singleton, encoded_length, Std.ExtTreeMap.insertMany_list_singleton]

theorem getRaw_serverBlock (m : Message) : getRaw m.serverBlock =
    utf8 m.action ++ 10 :: (headerLines m.serverBlock.headers.toList ++ 10 :: m.bytes) := by
  have hid : m.serverBlock.messageId = [] := Client.Block.MessageBlock.messageId_setContent _ _
  have haction : m.serverBlock.action = utf8 m.action := Client.Block.MessageBlock.action_setContent _ _
  have hcontent : m.serverBlock.content = m.bytes := Client.Block.MessageBlock.content_setContent _ _
  rw [getRaw, rawWith, idPart, if_neg (not_not_intro hid), haction, hcontent, List.append_nil]

theorem exists_order {rows : List (Str × Str)} {headers : List (Text × Text)} (h : rows.Perm (headers.map encoded)) :
    ∃ order : List (Text × Text), order.Perm headers ∧ order.map encoded = rows := by
  have hsame : List.Forall₂ (fun row header => row = encoded header) (headers.map encoded) headers := by
    rw [List.forall₂_map_left_iff]
    exact List.forall₂_same.mpr fun _ _ => rfl
  obtain ⟨order, hrows, hperm⟩ := List.perm_comp_forall₂ h hsame
  refine ⟨order, hperm, ?_⟩
  rw [← List.forall₂_map_right_iff, List.forall₂_eq_eq_eq] at hrows
  exact hrows.symm

theorem announces_of_mem (h : header ∈ withLength m.headers m.serverLength) : Announces m.bytes.length header := by
  obtain hheader | ⟨n, hn, rfl⟩ := mem_withLength.mp h
  · obtain ⟨hplain, hname⟩ := m.plain header hheader
    exact ⟨hplain, fun heq => absurd heq hname⟩
  · refine ⟨plain_length n, fun _ => ?_⟩
    unfold Message.serverLength at hn
    split at hn
    · cases hn
    · next hne =>
      cases hn
      exact ⟨rfl, List.length_pos_iff.mpr hne, m.size⟩

theorem length_bytes (horder : order.Perm (withLength m.headers m.serverLength)) :
    m.bytes.length = if contentLengthKey ∈ order.map Prod.fst then m.bytes.length else 0 := by
  split
  · rfl
  · next hkey =>
    by_contra hlength
    have hne : m.bytes ≠ [] := List.length_pos_iff.mp (Nat.pos_of_ne_zero hlength)
    have hmem : (contentLengthKey, digits m.bytes.length) ∈ order :=
      horder.mem_iff.mpr (mem_withLength.mpr (.inr ⟨_, if_neg hne, rfl⟩))
    exact hkey (List.mem_map_of_mem hmem)

theorem filter_withLength (m : Message) (length : Option Nat) :
    (withLength m.headers length).filter (·.1 ≠ contentLengthKey) = m.headers := by
  rw [withLength, List.filter_append,
    List.filter_eq_self.mpr fun header hheader => by simpa using (m.plain header hheader).2]
  cases length with
  | none | some n => simp

theorem readByWeb (java : JavaLibrary) (m : Message) : m.ReadByWeb java := by
  intro rest
  have hdistinct : Keyed.Distinct Prod.fst (withLength m.headers m.serverLength) := distinct_withLength (.refl _)
  have hrows : m.serverBlock.headers.toList.Perm ((withLength m.headers m.serverLength).map encoded) := by
    rw [serverBlock_headers]
    exact Table.toList_insertMany_perm (nodup_names hdistinct)
  obtain ⟨order, horder, hmap⟩ := exists_order hrows
  have hread : receiveMessageBlock java (utf8 m.action ++ 10 :: (lines order ++ 10 :: (m.bytes ++ rest))) = _ :=
    receiveMessageBlock_lines m.action_word.2 (fun header hheader => announces_of_mem (horder.mem_iff.mp hheader))
      (length_bytes horder) rest
  have hraw : getRaw m.serverBlock ++ rest = utf8 m.action ++ 10 :: (lines order ++ 10 :: (m.bytes ++ rest)) := by
    rw [getRaw_serverBlock, ← hmap, headerLines_encoded]
    simp
  have hfilter := horder.filter (·.1 ≠ contentLengthKey)
  rw [filter_withLength] at hfilter
  have hput : Keyed.Distinct Prod.fst (order.filter (·.1 ≠ contentLengthKey)) :=
    (hfilter.map Prod.fst).nodup_iff.mpr m.distinct
  rw [hraw]
  refine ⟨_, hread, rfl, (Keyed.foldl_put_perm hput).trans hfilter, ?_⟩
  dsimp only
  split
  · next hnil => rw [hnil, Option.getD_none]
  · rfl

end

section

variable {m : Message} {entries : List (Text × Text)} {header : Text × Text} {length : Option Nat}

def sentBlock (m : Message) (entries : List (Text × Text)) : Client.Block.MessageBlock where
  action := utf8 m.action
  messageId := []
  headers := headerMap (withLength entries m.webLength)
  contentSize := m.bytes.length
  content := m.bytes
  contentMatches := (Int.toNat_natCast _).symm

theorem utf8_headerTexts (headers : List (Text × Text)) :
    utf8 (headers.flatMap fun header => headerText header ++ ['\n']) = lines headers := by
  have hline : ∀ header : Text × Text, utf8 (headerText header ++ ['\n']) = utf8 (headerText header) ++ [10] :=
    fun header => utf8_append _ _
  rw [utf8, List.flatMap_assoc]
  exact List.flatMap_congr fun header _ => hline header

theorem sendMessageBlock_eq (m : Message) (entries : List (Text × Text)) : sendMessageBlock m.webBlock entries =
    rawWith (sentBlock m entries) ((withLength entries m.webLength).map encoded) := by
  have htexts : sendHeader m.webBlock entries = m.action ++ '\n' ::
      ((withLength entries m.webLength).flatMap (fun header => headerText header ++ ['\n']) ++ ['\n']) := by
    unfold sendHeader withLength Message.webLength Message.webBlock
    cases m.content with
    | none | some content => simp
  have hnewline : ∀ text : Text, utf8 ('\n' :: text) = 10 :: utf8 text := fun _ => rfl
  rw [sendMessageBlock, htexts, utf8_append, hnewline, utf8_append, utf8_headerTexts, hnewline, rawWith,
    headerLines_encoded]
  simp [sentBlock, idPart, sendContent, Message.webBlock, Message.bytes]

theorem mem_headerMap (h : entries.Perm m.headers) {name value : Str} :
    (headerMap (withLength entries length))[name]? = some value ↔
      (∃ header ∈ m.headers, encoded header = (name, value)) ∨
        ∃ n, length = some n ∧ (str "content-length", decimal n) = (name, value) := by
  rw [getElem?_headerMap (distinct_withLength h), List.mem_map]
  simp only [mem_withLength, h.mem_iff, or_and_right, exists_or]
  refine or_congr_right ⟨?_, ?_⟩
  · rintro ⟨_, ⟨n, hn, rfl⟩, heq⟩
    exact ⟨n, hn, (encoded_length n).symm.trans heq⟩
  · rintro ⟨n, hn, heq⟩
    exact ⟨_, ⟨n, hn, rfl⟩, (encoded_length n).trans heq⟩

theorem name_ne (hheader : header ∈ m.headers) : (encoded header).1 ≠ str "content-length" := by
  have hkey : utf8 contentLengthKey = str "content-length" := congrArg Prod.fst (encoded_length 0)
  intro heq
  exact (m.plain header hheader).2 (utf8_inj (heq.trans hkey.symm))

theorem erase_headerMap (h : entries.Perm m.headers) :
    (headerMap (withLength entries length)).erase (str "content-length") = headerMap m.headers := by
  have hplain : headerMap m.headers = headerMap (withLength m.headers none) := by simp [withLength]
  apply Std.ExtTreeMap.ext_getElem?
  intro name
  apply Option.ext
  intro value
  rw [Table.getElem?_erase_row, hplain, mem_headerMap (.refl _)]
  split
  · next hname =>
    refine ⟨fun hnone => absurd hnone (by simp), ?_⟩
    rintro (⟨header, hheader, heq⟩ | ⟨n, hn, -⟩)
    · exact absurd (congrArg Prod.fst heq) (hname ▸ name_ne hheader)
    · cases hn
  · next hname =>
    rw [mem_headerMap h]
    refine or_congr_right ⟨?_, ?_⟩
    · rintro ⟨n, -, heq⟩
      exact absurd (congrArg Prod.fst heq) hname
    · rintro ⟨n, hn, -⟩
      cases hn

theorem announced_headerMap (h : entries.Perm m.headers) :
    announced (headerMap (withLength entries m.webLength)) = m.bytes.length := by
  cases hcontent : m.content with
  | none =>
    have hnone : (headerMap (withLength entries m.webLength))[str "content-length"]? = none := by
      rw [Option.eq_none_iff_forall_ne_some]
      intro value hvalue
      obtain ⟨header, hheader, heq⟩ | ⟨n, hn, -⟩ := (mem_headerMap h).mp hvalue
      · exact name_ne hheader (congrArg Prod.fst heq)
      · rw [Message.webLength, hcontent] at hn
        cases hn
    rw [announced, hnone, Message.bytes, hcontent]
    rfl
  | some content =>
    have hsome : (headerMap (withLength entries m.webLength))[str "content-length"]? =
        some (decimal m.bytes.length) := by
      refine (mem_headerMap h).mpr (.inr ⟨m.bytes.length, ?_, rfl⟩)
      rw [Message.webLength, Message.bytes, hcontent]
      rfl
    exact announced_decimal m.size hsome

theorem listed_sentBlock (h : entries.Perm m.headers) :
    Listed (sentBlock m entries) ((withLength entries m.webLength).map encoded) := by
  refine ⟨fun hnil => m.action_ne (utf8_eq_nil hnil), fun b hb => ⟨?_, newline_notMem_utf8 m.action_word.2 b hb⟩,
    List.forall_mem_nil _, fun row hrow => ?_, rfl, announced_headerMap h⟩
  · rintro rfl
    exact m.action_word.1 ((mem_utf8 (by decide)).mp hb)
  · obtain ⟨header, hheader, rfl⟩ := List.mem_map.mp hrow
    have hplain : Plain header := by
      obtain hheader | ⟨n, -, rfl⟩ := mem_withLength.mp hheader
      · exact (m.plain header (h.mem_iff.mp hheader)).1
      · exact plain_length n
    exact ⟨fun b hb => ⟨colon_notMem_utf8 hplain.name.1 b hb, newline_notMem_utf8 hplain.name.2 b hb⟩,
      newline_notMem_utf8 hplain.value⟩

theorem length_lengthLine {n : Nat} (h : n < 2147483648) :
    (headerLine (encoded (contentLengthKey, digits n))).length ≤ 25 := by
  have hdigits : (decimal n).length ≤ 9 + 1 := length_decimalDigits_le (by omega)
  have hkey : (str "content-length").length = 14 := by decide +kernel
  rw [encoded_length, headerLine, List.length_append, List.length_cons, hkey]
  dsimp only
  omega

theorem shortList_iff (h : entries.Perm m.headers) :
    ShortList (sentBlock m entries) ((withLength entries m.webLength).map encoded) ↔ m.ShortLines := by
  have haction : (sentBlock m entries).action ++ idPart (sentBlock m entries) = utf8 m.action := List.append_nil _
  rw [ShortList, haction, List.forall_mem_map]
  refine and_congr_right fun _ => ⟨fun hall header hheader => ?_, fun hall header hheader => ?_⟩
  · rw [← headerLine_encoded]
    exact hall header (mem_withLength.mpr (.inl (h.mem_iff.mpr hheader)))
  · obtain hheader | ⟨n, hn, rfl⟩ := mem_withLength.mp hheader
    · rw [headerLine_encoded]
      exact hall header (h.mem_iff.mp hheader)
    · obtain ⟨content, hcontent, rfl⟩ := Option.map_eq_some_iff.mp hn
      have hsize := m.size
      rw [hcontent] at hsize
      exact Nat.lt_of_le_of_lt (length_lengthLine hsize) (by decide)

theorem held_of_decoded (h : entries.Perm m.headers) {d : Decoder} (hd : Decoded (sentBlock m entries) d) :
    m.Held d where
  message := hd.message
  messageId := hd.messageId
  headers := by
    rw [hd.headers]
    exact erase_headerMap h
  contentLength := hd.contentLength
  content := hd.content

theorem readByServer_iff (m : Message) : m.ReadByServer ↔ m.ShortLines := by
  constructor
  · intro hread
    have hdelivered := hread m.headers (.refl _)
    rw [sendMessageBlock_eq] at hdelivered
    exact (shortList_iff (.refl _)).mp (short_of_delivered (listed_sentBlock (.refl _)) hdelivered)
  · intro hshort entries hentries
    rw [sendMessageBlock_eq]
    exact (delivered_of_short (listed_sentBlock hentries) ((shortList_iff hentries).mpr hshort)).mono
      fun _ => held_of_decoded hentries

end

theorem getD_decode?_utf8 (text : Text) : (decode? (utf8 text)).getD [] = text := by
  rw [decode?_utf8, Option.getD_some]

def parseInt (text : Text) : Option Int := fromString (-2147483648) 2147483647 (utf8 text)

theorem parseInt_digits (n : Nat) (hn : n < 2147483648) : parseInt (digits n) = some (n : Int) := by
  rw [parseInt, utf8_digits, fromString_decimal (by omega) (by omega) (by omega)]

def strictLibrary : JavaLibrary where
  decode bytes := (decode? bytes).getD []
  decode_utf8 := getD_decode?_utf8
  valueOf := parseInt
  valueOf_digits := parseInt_digits

theorem action_oneHeader : ' ' ∉ ['a'] ∧ '\n' ∉ ['a'] := by decide

theorem plain_oneHeader {value : Text} (h : '\n' ∉ value) :
    ∀ header ∈ [(['b'], value)], Plain header ∧ header.1 ≠ contentLengthKey := by
  have hname : (':' ∉ ['b'] ∧ '\n' ∉ ['b']) ∧ ['b'] ≠ contentLengthKey := by decide
  exact List.forall_mem_singleton.mpr ⟨⟨hname.1, h⟩, hname.2⟩

theorem size_oneHeader : ((some [120, 121] : Option Str).getD []).length < 2147483648 := by decide

def oneHeader (value : Text) (h : '\n' ∉ value) : Message where
  action := ['a']
  headers := [(['b'], value)]
  content := some [120, 121]
  action_ne := List.cons_ne_nil _ _
  action_word := action_oneHeader
  distinct := List.nodup_singleton _
  plain := plain_oneHeader h
  size := size_oneHeader

theorem newline_notMem_replicate (n : Nat) : '\n' ∉ List.replicate n 'é' := by
  intro hmem
  exact absurd (List.eq_of_mem_replicate hmem) (by decide)

theorem two_mul_lt_of_short {n : Nat} (h : (oneHeader _ (newline_notMem_replicate n)).ShortLines) :
    2 * n < 2147483648 := by
  have hwide : (String.utf8EncodeChar 'é').length = 2 := by decide +kernel
  have hvalue : (utf8 (List.replicate n 'é')).length = n * 2 := by
    rw [utf8, List.flatMap_replicate, List.length_flatten, List.map_replicate, List.sum_replicate_nat, hwide]
  have hline := List.forall_mem_singleton.mp h.2
  rw [← headerLine_encoded, headerLine, List.length_append, List.length_cons, encoded, hvalue] at hline
  omega

theorem agree_iff_short (java : JavaLibrary) (m : Message) : m.ReadByWeb java ∧ m.ReadByServer ↔ m.ShortLines := by
  rw [readByServer_iff]
  exact and_iff_right (readByWeb java m)

theorem agree_oneHeader : (oneHeader ['é'] (newline_notMem_replicate 1)).ReadByWeb strictLibrary ∧
    (oneHeader ['é'] (newline_notMem_replicate 1)).ReadByServer := by
  refine (agree_iff_short strictLibrary _).mpr ⟨by decide +kernel, List.forall_mem_singleton.mpr ?_⟩
  decide +kernel

/-- The bytes of the value are twice as many as its characters, and more than the server counts. -/
theorem not_agree_wideHeader : ∃ m : Message, ∀ java : JavaLibrary, ¬(m.ReadByWeb java ∧ m.ReadByServer) := by
  refine ⟨oneHeader _ (newline_notMem_replicate 1073741824), fun java hread => ?_⟩
  have hlength := two_mul_lt_of_short ((readByServer_iff _).mp hread.2)
  exact absurd hlength (by decide)

end Abacus.Webapp.Agreement
