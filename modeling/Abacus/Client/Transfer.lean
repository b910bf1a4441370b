import Abacus.Client.Wire
import Abacus.Library.Table

/-! # Blocks on the wire

A block that is written with `getRaw` is read back by `addBytes`, in whatever chunks it arrives. The
content that is read has the size in the header only if the variable can hold that number.
-/

namespace Abacus.Client.Transfer

open Library Library.Bytes Misc Peer.Classes Client.Block Client.Wire

variable {bytes : Str}

section

def feedChunks : Decoder → List Str → Option Decoder
  | d, [] => some d
  | d, chunk :: chunks =>
    match addBytes d chunk with
    | some (d', 0) => feedChunks d' chunks
    | _ => none

variable {d d' : Decoder} {chunks : List Str}

theorem reads_of_code (h : code 0 (framer.feed d bytes) = (d', 0)) : framer.Reads d bytes d' := by
  obtain ⟨-, hmore, hpos⟩ := Framer.feed_bounds (F := framer) d bytes
  unfold Framer.Reads
  rcases hfeed : framer.feed d bytes with ⟨e, signal, n⟩
  rw [hfeed] at h hmore hpos
  cases signal with
  | more =>
    obtain rfl : n = bytes.length := hmore rfl
    obtain rfl : e = d' := (Prod.mk.inj h).1
    rfl
  | complete =>
    have hn : 0 < n := hpos nofun
    have hzero : (0 : Int) + n = 0 := (Prod.mk.inj h).2
    omega
  | reject => cases (Prod.mk.inj h).2

theorem code_of_reads (h : framer.Reads d bytes d') : code 0 (framer.feed d bytes) = (d', 0) := by
  rw [h]
  rfl

theorem reads_of_feedChunks (hvalid : Valid d) (h : feedChunks d chunks = some d') :
    framer.Reads d chunks.flatten d' := by
  induction chunks generalizing d with
  | nil =>
    cases h
    exact Framer.reads_nil _
  | cons chunk chunks ih =>
    rw [feedChunks] at h
    split at h
    · next m hm =>
      have hreads := reads_of_code (addBytes_sound hvalid hm).symm
      exact Framer.reads_append.mpr ⟨m, hreads, ih (hvalid.reads hreads) h⟩
    · cases h

theorem feedChunks_of_reads (hvalid : Valid d) (hfits : Fits d chunks.flatten) (h : framer.Reads d chunks.flatten d') :
    feedChunks d chunks = some d' := by
  induction chunks generalizing d with
  | nil =>
    obtain rfl : d = d' := (Prod.mk.inj h).1
    rfl
  | cons chunk chunks ih =>
    rw [List.flatten_cons] at h hfits
    obtain ⟨m, hchunk, hrest⟩ := Framer.reads_append.mp h
    have hadd : addBytes d chunk = some (m, 0) := by
      rw [addBytes_eq hvalid (hfits.front (List.prefix_append _ _)), code_of_reads hchunk]
    rw [feedChunks, hadd]
    exact ih (hvalid.reads hchunk) (hfits.after hchunk) hrest

end

variable {line : Str}

section

def HeaderSection (head : Str) : Prop :=
  ∃ front d, head = front ++ [10] ∧ framer.Reads .fresh front d ∧ d.collecting = false ∧ d.message ≠ [] ∧ d.content = []

/-- What the header of the content says, without regard to the types that hold it. -/
def declared (headers : StringMap Str) : Int :=
  match headers[str "content-length"]? with
  | none => 0
  | some value => integerValue value

/-- The size is that of the content, which follows the headers, and is what the header says. -/
structure WellFormed (d : Decoder) (consumed : Str) : Prop where
  nonneg : 0 ≤ d.contentLength
  stored : d.contentLength = d.content.length
  followed : ∃ head, HeaderSection head ∧ consumed = head ++ d.content
  declared : d.contentLength = declared d.headers

variable {d d' : Decoder} {b : UInt8}

theorem endLine_empty (hd : d.collecting = false) {signal : Signal} (h : endLine d.cleared line = (d', signal))
    (hend : d'.collecting = true ∨ signal = .complete) :
    d.message ≠ [] ∧ line = [] ∧ d'.content = [] ∧ d'.headers = d.headers ∧ d'.contentLength = announced d.headers ∧
      (signal = .complete → announced d.headers ≤ 0) := by
  unfold endLine at h
  split at h
  · obtain ⟨rfl, rfl⟩ := Prod.mk.inj h
    have hcollecting : (firstLine d.cleared line).collecting = false := by
      unfold firstLine
      split <;> exact hd
    rw [hcollecting] at hend
    obtain hend | hend := hend <;> cases hend
  · next hmessage =>
    split at h
    · next hline =>
      dsimp only at h
      split at h
      · obtain ⟨rfl, rfl⟩ := Prod.mk.inj h
        exact ⟨hmessage, hline, rfl, rfl, rfl, nofun⟩
      · next hle =>
        obtain ⟨rfl, rfl⟩ := Prod.mk.inj h
        exact ⟨hmessage, hline, rfl, rfl, rfl, fun _ => not_lt.mp hle⟩
    · split at h
      · next c hheader =>
        obtain ⟨rfl, rfl⟩ := Prod.mk.inj h
        unfold addHeader at hheader
        split at hheader
        · cases hheader
        · cases hheader
          have hcollecting : d.cleared.collecting = true := hend.resolve_right nofun
          exact absurd (hd.symm.trans hcollecting) nofun
      · obtain ⟨rfl, rfl⟩ := Prod.mk.inj h
        have hcollecting : d.cleared.collecting = true := hend.resolve_right nofun
        exact absurd (hd.symm.trans hcollecting) nofun

theorem push_cases {signal : Signal} (h : push d b = (d', signal)) :
    (d.collecting = true ∧ d' = d.took [b] ∧
      (signal = .more ↔ ((d.took [b]).content.length : Int) < d.contentLength)) ∨
    (d.collecting = false ∧ b = 10 ∧ endLine d.cleared d.content = (d', signal)) ∨
    (d.collecting = false ∧ b ≠ 10 ∧ d' = d.buffer [b] ∧ signal = .more) := by
  unfold push at h
  split at h
  · next hcollecting =>
    obtain ⟨rfl, rfl⟩ := Prod.mk.inj h
    refine .inl ⟨hcollecting, rfl, ?_⟩
    split <;> simp [*]
  · next hline =>
    have hd := Bool.eq_false_iff.mpr hline
    split at h
    · next hb => exact .inr (.inl ⟨hd, hb, h⟩)
    · next hb =>
      obtain ⟨rfl, rfl⟩ := Prod.mk.inj h
      exact .inr (.inr ⟨hd, hb, rfl, rfl⟩)

theorem collecting_of_reads (h : framer.Reads .fresh bytes d) (hd : d.collecting = true) :
    (∃ head, HeaderSection head ∧ bytes = head ++ d.content) ∧ d.contentLength = announced d.headers := by
  induction bytes using List.reverseRecOn generalizing d with
  | nil =>
    obtain rfl : Decoder.fresh = d := (Prod.mk.inj h).1
    cases hd
  | append_singleton bytes b ih =>
    obtain ⟨e, hreads, hpush⟩ := Framer.reads_concat.mp h
    obtain ⟨hcollecting, rfl, -⟩ | ⟨hline, rfl, hend⟩ | ⟨hline, -, rfl, -⟩ := push_cases hpush
    · obtain ⟨⟨head, hhead, rfl⟩, hlength⟩ := ih hreads hcollecting
      exact ⟨⟨head, hhead, List.append_assoc _ _ _⟩, hlength⟩
    · obtain ⟨hmessage, hempty, hcontent, hheaders, hlength, -⟩ := endLine_empty hline hend (.inl hd)
      refine ⟨⟨bytes ++ [10], ⟨bytes, e, rfl, hreads, hline, hmessage, hempty⟩, ?_⟩, hheaders ▸ hlength⟩
      rw [hcontent, List.append_nil]
    · exact absurd (hline.symm.trans hd) nofun

theorem complete_of_push (h : framer.Reads .fresh bytes d) (hpush : push d b = (d', .complete)) :
    (∃ head, HeaderSection head ∧ bytes ++ [b] = head ++ d'.content) ∧ d'.contentLength = announced d'.headers ∧
      d'.content.length = d'.contentLength.toNat := by
  obtain ⟨hcollecting, rfl, hsignal⟩ | ⟨hline, rfl, hend⟩ | ⟨-, -, -, hsignal⟩ := push_cases hpush
  · obtain ⟨⟨head, hhead, rfl⟩, hlength⟩ := collecting_of_reads h hcollecting
    refine ⟨⟨head, hhead, List.append_assoc _ _ _⟩, hlength, ?_⟩
    have hvalid := (valid_iff_of_collecting hcollecting).mp (valid_fresh.reads h)
    have hfull : ¬((d.took [b]).content.length : Int) < d.contentLength := fun hlt => nomatch hsignal.mpr hlt
    have hlength : (d.took [b]).contentLength = d.contentLength := rfl
    have htook : (d.took [b]).content.length = d.content.length + 1 := List.length_append
    omega
  · obtain ⟨hmessage, hempty, hcontent, hheaders, hlength, hle⟩ := endLine_empty hline hend (.inr rfl)
    refine ⟨⟨bytes ++ [10], ⟨bytes, d, rfl, h, hline, hmessage, hempty⟩, ?_⟩, hheaders ▸ hlength, ?_⟩
    · rw [hcontent, List.append_nil]
    · rw [hcontent, hlength, Int.toNat_of_nonpos (hle rfl)]
      rfl
  · cases hsignal

theorem announced_eq_declared_iff (headers : StringMap Str) :
    0 ≤ announced headers ∧ announced headers = declared headers ↔
    ∀ value,
      headers[str "content-length"]? = some value → 0 ≤ integerValue value ∧ integerValue value < 2147483648 := by
  unfold announced declared
  cases headers[str "content-length"]? with
  | none => exact iff_of_true ⟨le_refl 0, rfl⟩ nofun
  | some value =>
    simp only [Option.some.injEq, forall_eq']
    rw [strtol_eq, Int.bmod_def]
    omega

end

theorem wellFormed_iff_declared (chunks : List Str) (chunk : Str) (d d' : Decoder) (n : Int)
    (hchunks : feedChunks .fresh chunks = some d) (hadd : addBytes d chunk = some (d', n)) (hcomplete : 0 < n) :
    WellFormed d' (chunks.flatten ++ chunk.take n.toNat) ↔
      ∀ value, d'.headers[str "content-length"]? = some value →
        0 ≤ integerValue value ∧ integerValue value < 2147483648 := by
  have hreads := reads_of_feedChunks valid_fresh hchunks
  have hcode := addBytes_sound (valid_fresh.reads hreads) hadd
  rcases hfeed : framer.feed d chunk with ⟨e, signal, k⟩
  rw [hfeed] at hcode
  cases signal with
  | more =>
    obtain ⟨-, rfl⟩ := Prod.mk.inj hcode
    exact absurd hcomplete (lt_irrefl 0)
  | reject =>
    obtain ⟨-, rfl⟩ := Prod.mk.inj hcode
    exact absurd hcomplete (by decide)
  | complete =>
    obtain ⟨rfl, hn⟩ := Prod.mk.inj hcode
    have hk : n.toNat = k := by omega
    obtain ⟨front, m, b, htake, hfront, hpush⟩ := Framer.feed_last hfeed nofun
    obtain ⟨hfollowed, hannounced, hstored⟩ :=
      complete_of_push (Framer.reads_append.mpr ⟨d, hreads, hfront⟩) hpush
    rw [← announced_eq_declared_iff, hk, htake, ← List.append_assoc]
    constructor
    · intro h
      exact ⟨hannounced ▸ h.nonneg, hannounced ▸ h.declared⟩
    · rintro ⟨hnonneg, hdeclared⟩
      rw [← hannounced] at hnonneg hdeclared
      exact ⟨hnonneg, by omega, hfollowed, hdeclared⟩

/-- Two bytes of content, of which the second comes with another message. -/
theorem wellFormed_twoBytes : ∃ d d', feedChunks .fresh [str "a\ncontent-length:2\n\nx"] = some d ∧
    addBytes d (str "yb\n") = some (d', 1) ∧ WellFormed d' (str "a\ncontent-length:2\n\nxy") := by
  have hrun : ∃ d, feedChunks .fresh [str "a\ncontent-length:2\n\nx"] = some d ∧ ∃ r, addBytes d (str "yb\n") = some r ∧
      r.2 = 1 ∧ r.1.headers[str "content-length"]? = some (str "2") := by decide +kernel
  obtain ⟨d, hchunks, ⟨d', n⟩, hadd, rfl, hheader⟩ := hrun
  have hiff := wellFormed_iff_declared [str "a\ncontent-length:2\n\nx"] (str "yb\n") d d' 1 hchunks hadd (by decide)
  refine ⟨d, d', hchunks, hadd, hiff.mpr fun value hvalue => ?_⟩
  obtain rfl := Option.some.inj (hheader.symm.trans hvalue)
  decide

/-- A negative number in the header, and one that is too large for the size. -/
theorem not_wellFormed_negative : ∃ d d', addBytes .fresh (str "a\ncontent-length:-5\n\n") = some (d, 21) ∧
    d.contentLength = -5 ∧ ¬WellFormed d (str "a\ncontent-length:-5\n\n") ∧
    addBytes .fresh (str "a\ncontent-length:4294967298\n\nxy") = some (d', 31) ∧ d'.contentLength = 2 ∧
    ¬WellFormed d' (str "a\ncontent-length:4294967298\n\nxy") := by
  have hnegative : ∃ r,
      addBytes .fresh (str "a\ncontent-length:-5\n\n") = some r ∧ r.2 = 21 ∧ r.1.contentLength = -5 := by
    decide +kernel
  have hlarge : ∃ r, addBytes .fresh (str "a\ncontent-length:4294967298\n\nxy") = some r ∧ r.2 = 31 ∧
      r.1.contentLength = 2 ∧ declared r.1.headers = 4294967298 := by decide +kernel
  obtain ⟨⟨d, n⟩, hadd, rfl, hlength⟩ := hnegative
  obtain ⟨⟨d', n⟩, hadd', rfl, hlength', hdeclared⟩ := hlarge
  refine ⟨d, d', hadd, hlength, fun h => ?_, hadd', hlength', fun h => ?_⟩
  · have hnonneg := h.nonneg
    rw [hlength] at hnonneg
    exact absurd hnonneg (by decide)
  · have hsame := h.declared
    rw [hlength', hdeclared] at hsame
    exact absurd hsame (by decide)

/-- In whatever chunks these bytes arrive, the chunk with the last of them completes the block. -/
def Delivered (raw : Str) (P : Decoder → Prop) : Prop :=
  ∀ (rest : Str) (chunks : List Str), (∀ chunk ∈ chunks, chunk ≠ [] ∧ chunk.length < 2147483648) →
    chunks.flatten = raw ++ rest →
    ∃ before chunk after d d', chunks = before ++ chunk :: after ∧
      before.flatten.length < raw.length ∧ raw.length ≤ (before.flatten ++ chunk).length ∧
      feedChunks .fresh before = some d ∧
      addBytes d chunk = some (d', ((raw.length - before.flatten.length : Nat) : Int)) ∧ P d'

theorem Delivered.mono {raw : Str} {P Q : Decoder → Prop} (h : Delivered raw P) (hPQ : ∀ d, P d → Q d) :
    Delivered raw Q := by
  intro rest chunks hsizes hchunks
  obtain ⟨before, chunk, after, d, d', hsplit, hbefore, hchunk, hfeed, hadd, hd'⟩ := h rest chunks hsizes hchunks
  exact ⟨before, chunk, after, d, d', hsplit, hbefore, hchunk, hfeed, hadd, hPQ d' hd'⟩

section

variable (mb : MessageBlock)

def idPart : Str := if mb.messageId ≠ [] then 32 :: mb.messageId else []

def headerLine (header : Str × Str) : Str := header.1 ++ 58 :: header.2

def headerLines (headers : List (Str × Str)) : Str := headers.flatMap fun header => headerLine header ++ [10]

def rawWith (headers : List (Str × Str)) : Str :=
  mb.action ++ idPart mb ++ 10 :: (headerLines headers ++ 10 :: mb.content)

def getRaw : Str := rawWith mb mb.headers.toList

/-- A block that no content has been set for, and whose parts can be told apart. -/
structure Encodable : Prop where
  action_ne : mb.action ≠ []
  action : ∀ b ∈ mb.action, b ≠ 32 ∧ b ≠ 10
  messageId : ∀ b ∈ mb.messageId, b ≠ 10
  names : ∀ name ∈ mb.headers, name ≠ str "content-length" ∧ ∀ b ∈ name, b ≠ 58 ∧ b ≠ 10
  values : ∀ (name value : Str), mb.headers[name]? = some value → ∀ b ∈ value, b ≠ 10
  empty : mb.contentSize = 0

structure Decoded (d : Decoder) : Prop where
  message : d.message = mb.action
  messageId : d.messageId = mb.messageId
  headers : d.headers = mb.headers
  contentLength : d.contentLength = mb.contentSize
  content : d.content = mb.content

def RoundTrip : Prop := Delivered (getRaw mb) (Decoded mb)

def ShortList (headers : List (Str × Str)) : Prop :=
  (mb.action ++ idPart mb).length < 2147483648 ∧ ∀ header ∈ headers, (headerLine header).length < 2147483648

def ShortLines : Prop := ShortList mb mb.headers.toList

end

section

variable {d d' : Decoder} {mb : MessageBlock}

theorem reads_line (hd : d.collecting = false) (hline : ∀ b ∈ line, b ≠ 10)
    (hend : endLine d.cleared (d.content ++ line) = (d', .more)) : framer.Reads d (line ++ [10]) d' :=
  Framer.reads_concat.mpr ⟨_, reads_buffer hd hline, (push_newline hd line).trans hend⟩

structure Listed (mb : MessageBlock) (headers : List (Str × Str)) : Prop where
  action_ne : mb.action ≠ []
  action : ∀ b ∈ mb.action, b ≠ 32 ∧ b ≠ 10
  messageId : ∀ b ∈ mb.messageId, b ≠ 10
  lines : ∀ header ∈ headers, (∀ b ∈ header.1, b ≠ 58 ∧ b ≠ 10) ∧ ∀ b ∈ header.2, b ≠ 10
  collected : (∅ : StringMap Str).insertMany headers = mb.headers
  announced : announced mb.headers = mb.contentSize

variable {headers : List (Str × Str)}

def started (mb : MessageBlock) : Decoder := { Decoder.fresh with message := mb.action, messageId := mb.messageId }

theorem endLine_first (h : Listed mb headers) : endLine .fresh (mb.action ++ idPart mb) = (started mb, .more) := by
  have hspace : ∀ b ∈ mb.action, decide (b ≠ 32) = true := fun b hb => decide_eq_true (h.action b hb).1
  have hfresh : Decoder.fresh.message = [] := rfl
  rw [endLine, if_pos hfresh, firstLine, List.dropWhile_append_of_pos hspace, List.takeWhile_append_of_pos hspace]
  by_cases hid : mb.messageId = []
  · have hpart : idPart mb = [] := by simp [idPart, hid]
    simp [hpart, started, hid, Decoder.fresh]
  · have hpart : idPart mb = 32 :: mb.messageId := if_pos hid
    simp [hpart, started]

theorem newline_notMem_first (h : Listed mb headers) : ∀ b ∈ mb.action ++ idPart mb, b ≠ 10 := by
  refine List.forall_mem_append.mpr ⟨fun b hb => (h.action b hb).2, ?_⟩
  unfold idPart
  split
  · exact List.forall_mem_cons.mpr ⟨by decide, h.messageId⟩
  · exact nofun

structure Between (d : Decoder) : Prop where
  collecting : d.collecting = false
  content : d.content = []
  length : d.contentLength = 0
  message : d.message ≠ []

theorem cleared_of_between (h : Between d) : d.cleared = d := by
  obtain ⟨message, messageId, headers, contentLength, content, collecting⟩ := d
  obtain ⟨-, rfl, rfl, -⟩ := h
  rfl

theorem reads_between (h : Between d) (hline : ∀ b ∈ line, b ≠ 10) (hend : endLine d line = (d', .more)) :
    framer.Reads d (line ++ [10]) d' := by
  refine reads_line h.collecting hline ?_
  rwa [cleared_of_between h, h.content, List.nil_append]

theorem endLine_header (h : Between d) {header : Str × Str} (hname : ∀ b ∈ header.1, b ≠ 58 ∧ b ≠ 10) :
    endLine d (headerLine header) = ({ d with headers := d.headers.insert header.1 header.2 }, .more) := by
  have hcolon : ∀ b ∈ header.1, decide (b ≠ 58) = true := fun b hb => decide_eq_true (hname b hb).1
  have hne : headerLine header ≠ [] := by simp [headerLine]
  have hadd : addHeader d (headerLine header) = some { d with headers := d.headers.insert header.1 header.2 } := by
    rw [addHeader, headerLine, List.dropWhile_append_of_pos hcolon, List.takeWhile_append_of_pos hcolon]
    simp
  rw [endLine, if_neg h.message, if_neg hne, hadd]

theorem newline_notMem_headerLine {header : Str × Str} (hname : ∀ b ∈ header.1, b ≠ 58 ∧ b ≠ 10)
    (hvalue : ∀ b ∈ header.2, b ≠ 10) : ∀ b ∈ headerLine header, b ≠ 10 :=
  List.forall_mem_append.mpr ⟨fun b hb => (hname b hb).2, List.forall_mem_cons.mpr ⟨by decide, hvalue⟩⟩

theorem reads_headerLines (h : Between d) {headers : List (Str × Str)}
    (hheaders : ∀ header ∈ headers, (∀ b ∈ header.1, b ≠ 58 ∧ b ≠ 10) ∧ ∀ b ∈ header.2, b ≠ 10) :
    framer.Reads d (headerLines headers) { d with headers := d.headers.insertMany headers } := by
  induction headers generalizing d with
  | nil =>
    rw [Std.ExtTreeMap.insertMany_nil]
    exact Framer.reads_nil d
  | cons header headers ih =>
    obtain ⟨⟨hname, hvalue⟩, hheaders⟩ := List.forall_mem_cons.mp hheaders
    have hfirst := reads_between h (newline_notMem_headerLine hname hvalue) (endLine_header h hname)
    have hrest := ih (d := { d with headers := d.headers.insert header.1 header.2 })
      ⟨h.collecting, h.content, h.length, h.message⟩ hheaders
    rw [← Std.ExtTreeMap.insertMany_cons] at hrest
    exact Framer.reads_append.mpr ⟨_, hfirst, hrest⟩

def headed (mb : MessageBlock) : Decoder := { started mb with headers := mb.headers }

theorem between_started (h : Listed mb headers) : Between (started mb) := ⟨rfl, rfl, rfl, h.action_ne⟩

theorem between_headed (h : Listed mb headers) : Between (headed mb) := ⟨rfl, rfl, rfl, h.action_ne⟩

theorem insertMany_headers (h : Listed mb headers) :
    { started mb with headers := (started mb).headers.insertMany headers } = headed mb := by
  have hheaders : (started mb).headers.insertMany headers = mb.headers := h.collected
  rw [hheaders]
  rfl

theorem reads_headed (h : Listed mb headers) :
    framer.Reads .fresh (mb.action ++ idPart mb ++ 10 :: headerLines headers) (headed mb) := by
  have hfirst := reads_line (d := .fresh) rfl (newline_notMem_first h) (endLine_first h)
  have hheaders := reads_headerLines (between_started h) h.lines
  rw [insertMany_headers h] at hheaders
  have hall := Framer.reads_append.mpr ⟨_, hfirst, hheaders⟩
  rwa [List.append_assoc] at hall

theorem endLine_headed (h : Listed mb headers) : endLine (headed mb).cleared [] =
    if 0 < mb.contentSize then ({ headed mb with contentLength := mb.contentSize, collecting := true }, .more)
    else ({ headed mb with contentLength := mb.contentSize }, .complete) := by
  have hannounced : announced (headed mb).headers = mb.contentSize := h.announced
  rw [cleared_of_between (between_headed h), endLine_nil (between_headed h).message, hannounced]

theorem newline_notMem_nil : ∀ b ∈ ([] : Str), b ≠ 10 := fun _ hb => absurd hb List.not_mem_nil

theorem feed_content (h : Listed mb headers) (rest : Str) : ∃ d,
    framer.feed (headed mb) (10 :: (mb.content ++ rest)) = (d, .complete, 1 + mb.content.length) ∧ Decoded mb d := by
  have hmatches := mb.contentMatches
  have hline : framer.feed (headed mb) ([] ++ 10 :: (mb.content ++ rest)) = _ :=
    feed_line rfl newline_notMem_nil (mb.content ++ rest)
  rw [(between_headed h).content, List.append_nil, endLine_headed h, List.nil_append] at hline
  by_cases hpos : 0 < mb.contentSize
  · rw [if_pos hpos] at hline
    have hleft : ({ headed mb with contentLength := mb.contentSize, collecting := true } : Decoder).contentLength =
        ((headed mb).content.length : Int) + mb.content.length := by
      have hsize : mb.contentSize = mb.content.length := by omega
      rw [(between_headed h).content]
      simp [hsize]
    have hcollect :=
      feed_collecting (d := { headed mb with contentLength := mb.contentSize, collecting := true }) rfl hleft
      (by omega) (mb.content ++ rest)
    rw [if_neg (by simp), List.take_left] at hcollect
    dsimp only at hline
    rw [hcollect] at hline
    exact ⟨_, hline, rfl, rfl, rfl, rfl, rfl⟩
  · rw [if_neg hpos] at hline
    have hcontent : mb.content = [] := List.length_eq_zero_iff.mp (by omega)
    refine ⟨{ headed mb with contentLength := mb.contentSize }, ?_, rfl, rfl, rfl, rfl, hcontent.symm⟩
    rw [hline, hcontent]
    rfl

theorem feed_rawWith (h : Listed mb headers) (rest : Str) : ∃ d,
    framer.feed .fresh (rawWith mb headers ++ rest) = (d, .complete, (rawWith mb headers).length) ∧ Decoded mb d := by
  obtain ⟨d, hfeed, hdecoded⟩ := feed_content h rest
  refine ⟨d, ?_, hdecoded⟩
  have hall := (reads_headed h).feed_append (10 :: (mb.content ++ rest))
  rw [hfeed] at hall
  have hraw : rawWith mb headers ++ rest =
      mb.action ++ idPart mb ++ 10 :: headerLines headers ++ 10 :: (mb.content ++ rest) := by simp [rawWith]
  rw [hraw, hall]
  simp only [rawWith, List.length_append, List.length_cons, Prod.mk.injEq, true_and]
  omega

theorem announced_decimal {headers : StringMap Str} {n : Nat} (hn : n < 2147483648)
    (h : headers[str "content-length"]? = some (decimal n)) : announced headers = n := by
  rw [announced, h]
  dsimp only
  rw [strtol_decimal (by omega), Int.bmod_def]
  omega

theorem newline_notMem_decimal (n : Nat) : ∀ b ∈ decimal n, b ≠ 10 := by
  rintro _ hb rfl
  exact absurd (List.all_eq_true.mp (all_isDigit_decimalDigits n n) 10 hb) (by decide)

theorem listed_setContent (h : Encodable mb) {data : Str} (hdata : data.length < 2147483648) :
    Listed (mb.setContent data) (mb.setContent data).headers.toList := by
  have hnames : ∀ header ∈ mb.headers.toList, (∀ b ∈ header.1, b ≠ 58 ∧ b ≠ 10) ∧ ∀ b ∈ header.2, b ≠ 10 := by
    intro header hheader
    have hrow := Std.ExtTreeMap.mem_toList_iff_getElem?_eq_some.mp hheader
    exact ⟨(h.names header.1 (Table.mem_iff_exists_row.mpr ⟨header.2, hrow⟩)).2, h.values header.1 header.2 hrow⟩
  refine ⟨?_, ?_, ?_, fun header hheader => ?_, Table.insertMany_toList _, ?_⟩
  · rw [MessageBlock.action_setContent]
    exact h.action_ne
  · rw [MessageBlock.action_setContent]
    exact h.action
  · rw [MessageBlock.messageId_setContent]
    exact h.messageId
  · rw [MessageBlock.headers_setContent] at hheader
    split at hheader
    · exact hnames header hheader
    · have hrow := Std.ExtTreeMap.mem_toList_iff_getElem?_eq_some.mp hheader
      rw [Table.getElem?_insert_row] at hrow
      split at hrow
      · next hname =>
        rw [← hname, ← Option.some.inj hrow]
        exact ⟨by decide +kernel, fun b hb => newline_notMem_decimal _ b hb⟩
      · exact hnames header (Std.ExtTreeMap.mem_toList_iff_getElem?_eq_some.mpr hrow)
  · rw [MessageBlock.headers_setContent, MessageBlock.contentSize_setContent]
    split
    · next hnil =>
      have hnone : mb.headers[str "content-length"]? = none :=
        Std.ExtTreeMap.getElem?_eq_none fun hmem => (h.names _ hmem).1 rfl
      rw [announced, hnone, hnil]
      rfl
    · exact announced_decimal hdata Std.ExtTreeMap.getElem?_insert_self

end

section

variable {d d' : Decoder} {mb : MessageBlock} {headers : List (Str × Str)}

theorem line_or_past {front head rest : Str} (h : front <+: head ++ 10 :: rest) :
    front <+: head ∨ ∃ more, front = head ++ [10] ++ more ∧ more <+: rest := by
  have hhead : head ++ [10] <+: head ++ 10 :: rest := (List.prefix_append_right_inj head).mpr (by simp)
  obtain hlong | hshort := Nat.lt_or_ge head.length front.length
  · have hle : (head ++ [10]).length ≤ front.length := by
      rw [List.length_append]
      exact hlong
    obtain ⟨more, rfl⟩ := List.prefix_of_prefix_length_le hhead h hle
    have hrest : head ++ [10] ++ more <+: head ++ [10] ++ rest := by simpa using h
    exact .inr ⟨more, rfl, (List.prefix_append_right_inj _).mp hrest⟩
  · exact .inl (List.prefix_of_prefix_length_le h (List.prefix_append head _) hshort)

theorem fits_line_iff {rest : Str} (hd : d.collecting = false) (hcontent : d.content = [])
    (hline : ∀ b ∈ line, b ≠ 10) :
    Fits d (line ++ 10 :: rest) ↔
      line.length < 2147483648 ∧ ∀ d', endLine d.cleared line = (d', .more) → Fits d' rest := by
  have hbuffer : (d.buffer line).content = line := by rw [Decoder.buffer, hcontent, List.nil_append]
  constructor
  · intro h
    refine ⟨?_, fun d' hend => ?_⟩
    · have hshort := h line (List.prefix_append _ _) _ (reads_buffer hd hline) hd
      rwa [hbuffer] at hshort
    · refine Fits.after ?_ (reads_line hd hline (by rwa [hcontent, List.nil_append]))
      simpa using h
  · rintro ⟨hshort, hrest⟩ front hfront d' hreads hd'
    obtain hhead | ⟨more, rfl, hmore⟩ := line_or_past hfront
    · obtain rfl := (reads_buffer hd fun b hb => hline b (hhead.subset hb)).eq hreads
      have hlength : (d.buffer front).content.length = front.length := by rw [Decoder.buffer, hcontent, List.nil_append]
      rw [hlength]
      exact lt_of_le_of_lt hhead.length_le hshort
    · obtain ⟨m, hm, hreads⟩ := Framer.reads_append.mp hreads
      obtain ⟨e, he, hpush⟩ := Framer.reads_concat.mp hm
      obtain rfl := (reads_buffer hd hline).eq he
      have hend := (push_newline hd line).symm.trans hpush
      rw [hcontent, List.nil_append] at hend
      exact hrest m hend more hmore d' hreads hd'

theorem collecting_reads (hd : d.collecting = true) (h : framer.Reads d bytes d') : d'.collecting = true := by
  induction bytes generalizing d with
  | nil =>
    obtain rfl : d = d' := (Prod.mk.inj h).1
    exact hd
  | cons b bytes ih =>
    obtain ⟨m, hpush, hrest⟩ := Framer.reads_cons.mp h
    obtain ⟨-, rfl, -⟩ | ⟨hline, -⟩ | ⟨hline, -⟩ := push_cases hpush
    · exact ih (d := d.took [b]) hd hrest
    · exact absurd (hline.symm.trans hd) nofun
    · exact absurd (hline.symm.trans hd) nofun

theorem fits_of_collecting (hd : d.collecting = true) : Fits d bytes :=
  fun _ _ _ hreads hd' => absurd (hd'.symm.trans (collecting_reads hd hreads)) nofun

theorem fits_headerLines_iff (h : Between d) {headers : List (Str × Str)} (rest : Str)
    (hheaders : ∀ header ∈ headers, (∀ b ∈ header.1, b ≠ 58 ∧ b ≠ 10) ∧ ∀ b ∈ header.2, b ≠ 10) :
    Fits d (headerLines headers ++ rest) ↔ (∀ header ∈ headers, (headerLine header).length < 2147483648) ∧
      Fits { d with headers := d.headers.insertMany headers } rest := by
  induction headers generalizing d with
  | nil =>
    rw [Std.ExtTreeMap.insertMany_nil]
    exact (and_iff_right nofun).symm
  | cons header headers ih =>
    obtain ⟨⟨hname, hvalue⟩, hheaders⟩ := List.forall_mem_cons.mp hheaders
    have hsplit : headerLines (header :: headers) ++ rest =
        headerLine header ++ 10 :: (headerLines headers ++ rest) := by
      simp [headerLines]
    rw [hsplit, fits_line_iff h.collecting h.content (newline_notMem_headerLine hname hvalue), cleared_of_between h,
      endLine_header h hname, List.forall_mem_cons, and_assoc, Std.ExtTreeMap.insertMany_cons]
    refine and_congr_right fun _ => ?_
    have hrest := ih (d := { d with headers := d.headers.insert header.1 header.2 })
      ⟨h.collecting, h.content, h.length, h.message⟩ hheaders
    constructor
    · exact fun hall => hrest.mp (hall _ rfl)
    · rintro hshort d' hd'
      obtain ⟨rfl, -⟩ := Prod.mk.inj hd'
      exact hrest.mpr hshort

theorem fits_rawWith_iff (h : Listed mb headers) (rest : Str) :
    Fits .fresh (rawWith mb headers ++ rest) ↔ ShortList mb headers := by
  have hraw : rawWith mb headers ++ rest = (mb.action ++ idPart mb) ++
      10 :: (headerLines headers ++ ([] ++ 10 :: (mb.content ++ rest))) := by simp [rawWith]
  have hfresh : endLine Decoder.fresh.cleared (mb.action ++ idPart mb) = (started mb, .more) := endLine_first h
  have hheaders := fits_headerLines_iff (between_started h) ([] ++ 10 :: (mb.content ++ rest)) h.lines
  have hlast : Fits (headed mb) ([] ++ 10 :: (mb.content ++ rest)) := by
    refine (fits_line_iff rfl rfl newline_notMem_nil).mpr ⟨by decide, fun d' hend => fits_of_collecting ?_⟩
    rw [endLine_headed h] at hend
    split at hend
    · obtain ⟨rfl, -⟩ := Prod.mk.inj hend
      rfl
    · cases (Prod.mk.inj hend).2
  rw [insertMany_headers h, and_iff_left hlast] at hheaders
  rw [hraw, fits_line_iff rfl rfl (newline_notMem_first h), hfresh, ShortList, ← hheaders]
  refine and_congr_right fun _ => ⟨fun hall => hall _ rfl, ?_⟩
  rintro hfits d' hd'
  obtain ⟨rfl, -⟩ := Prod.mk.inj hd'
  exact hfits

theorem exists_chunk {chunks : List Str} {n : Nat} (hpos : 0 < n) (hn : n ≤ chunks.flatten.length) :
    ∃ before chunk after, chunks = before ++ chunk :: after ∧ before.flatten.length < n ∧
      n ≤ (before.flatten ++ chunk).length := by
  induction chunks generalizing n with
  | nil => exact absurd hn (Nat.not_le.mpr hpos)
  | cons first chunks ih =>
    obtain hlater | hfirst := Nat.lt_or_ge first.length n
    · rw [List.flatten_cons, List.length_append] at hn
      obtain ⟨before, chunk, after, rfl, hbefore, hchunk⟩ :=
        ih (n := n - first.length) (Nat.sub_pos_of_lt hlater) (Nat.sub_le_iff_le_add'.mpr hn)
      refine ⟨first :: before, chunk, after, rfl, ?_, ?_⟩
      · rw [List.flatten_cons, List.length_append]
        exact Nat.add_lt_of_lt_sub' hbefore
      · rw [List.flatten_cons, List.append_assoc, List.length_append]
        exact Nat.sub_le_iff_le_add'.mp hchunk
    · exact ⟨[], first, chunks, rfl, hpos, hfirst⟩

theorem newline_mem_rawWith : 10 ∈ rawWith mb headers := by simp [rawWith]

theorem delivered_of_short (h : Listed mb headers) (hshort : ShortList mb headers) :
    Delivered (rawWith mb headers) (Decoded mb) := by
  intro rest chunks _ hchunks
  have hpos : 0 < (rawWith mb headers).length := List.length_pos_of_mem newline_mem_rawWith
  have hle : (rawWith mb headers).length ≤ chunks.flatten.length := by simp [hchunks]
  obtain ⟨before, chunk, after, rfl, hbefore, hchunk⟩ := exists_chunk hpos hle
  have hsplit : before.flatten ++ (chunk ++ after.flatten) = rawWith mb headers ++ rest := by simpa using hchunks
  obtain ⟨d', hfeed, hdecoded⟩ := feed_rawWith h rest
  have hfits := (fits_rawWith_iff h rest).mpr hshort
  rw [← hsplit] at hfeed hfits
  obtain ⟨d, hreads, hlast⟩ := Framer.feed_split hfeed hbefore
  have hwithin := Framer.feed_within hlast nofun (Nat.sub_le_iff_le_add'.mpr (List.length_append ▸ hchunk))
  refine ⟨before, chunk, after, d, d', rfl, hbefore, hchunk, ?_, ?_, hdecoded⟩
  · exact feedChunks_of_reads valid_fresh (hfits.front (List.prefix_append _ _)) hreads
  · rw [addBytes_eq (valid_fresh.reads hreads) ((hfits.after hreads).front (List.prefix_append _ _)), hwithin, code,
      zero_add]

/-- One byte at a time, no line can outgrow the buffer unnoticed. -/
theorem short_of_addBytes {b : UInt8} (hvalid : Valid d) (hadd : addBytes d [b] = some (d', 0))
    (hd' : d'.collecting = false) : d'.content.length < 2147483648 := by
  have hpush := Framer.reads_singleton.mp (reads_of_code (addBytes_sound hvalid hadd).symm)
  obtain ⟨hcollecting, rfl, -⟩ | ⟨hline, -, hend⟩ | ⟨hline, hb, rfl, -⟩ := push_cases hpush
  · exact absurd (hd'.symm.trans hcollecting) (by simp)
  · rw [(endLine_more hline hend).1]
    decide
  · by_contra hlong
    have hfull : 2147483648 ≤ d.content.length + 1 := by simpa [Decoder.buffer] using hlong
    exact absurd ((addBytes_overflow hline hvalid hb hfull).symm.trans hadd) (by simp)

theorem fits_of_singles (hvalid : Valid d) (hshort : d.collecting = false → d.content.length < 2147483648)
    (h : feedChunks d (bytes.map fun b => [b]) = some d') : Fits d bytes := by
  induction bytes generalizing d with
  | nil =>
    intro front hfront m hreads hm
    obtain rfl := List.prefix_nil.mp hfront
    obtain rfl : d = m := (Prod.mk.inj hreads).1
    exact hshort hm
  | cons b bytes ih =>
    rw [List.map_cons, feedChunks] at h
    split at h
    · next m hadd =>
      have hpush := Framer.reads_singleton.mp (reads_of_code (addBytes_sound hvalid hadd).symm)
      intro front hfront m' hreads hm'
      obtain rfl | ⟨more, rfl, hmore⟩ := List.prefix_cons_iff.mp hfront
      · obtain rfl : d = m' := (Prod.mk.inj hreads).1
        exact hshort hm'
      · obtain ⟨m'', hpush', hrest⟩ := Framer.reads_cons.mp hreads
        obtain rfl := (Prod.mk.inj (hpush.symm.trans hpush')).1
        exact ih (hvalid.push hpush) (short_of_addBytes hvalid hadd) h more hmore m' hrest hm'
    · cases h

theorem short_of_delivered (h : Listed mb headers) {P : Decoder → Prop} (htrip : Delivered (rawWith mb headers) P) :
    ShortList mb headers := by
  have hflatten : ∀ bytes : Str, (bytes.map fun b => [b]).flatten = bytes := List.flatMap_singleton'
  obtain ⟨before, chunk, after, d, d', hchunks, hbefore, hchunk, hfeed, -⟩ :=
    htrip [] ((rawWith mb headers).map fun b => [b]) (by simp) (by rw [hflatten, List.append_nil])
  obtain ⟨front, tail, hraw, rfl, htail⟩ := List.map_eq_append_iff.mp hchunks
  obtain ⟨b, rest, rfl, rfl, rfl⟩ := List.map_eq_cons_iff.mp htail
  rw [List.length_append, hflatten] at hchunk
  obtain rfl : rest = [] := by
    rw [hraw, List.length_append, List.length_cons, List.length_singleton] at hchunk
    exact List.length_eq_zero_iff.mp (by omega)
  have hfits : Fits .fresh front := fits_of_singles valid_fresh (fun _ => by decide) hfeed
  refine (fits_rawWith_iff h []).mp fun start hstart m hreads hm => ?_
  obtain ⟨d, hcomplete, -⟩ := feed_rawWith h []
  rw [List.append_nil] at hstart hcomplete
  rw [hraw] at hstart
  obtain rfl | hfront := List.prefix_concat_iff.mp hstart
  · rw [← hraw] at hreads
    exact absurd (hreads.symm.trans hcomplete) nofun
  · exact hfits start hfront m hreads hm

end

theorem roundTrip_iff_short (mb : MessageBlock) (h : Encodable mb) (data : Str) (hdata : data.length < 2147483648) :
    RoundTrip (mb.setContent data) ↔ ShortLines (mb.setContent data) := by
  have hlisted := listed_setContent h hdata
  constructor
  · exact short_of_delivered hlisted
  · exact delivered_of_short hlisted

def oneHeader (value : Str) : MessageBlock :=
  ((MessageBlock.ofAction (str "a")).setMessageId (str "7")).set (str "b") value

theorem encodable_oneHeader {value : Str} (hvalue : ∀ b ∈ value, b ≠ 10) : Encodable (oneHeader value) := by
  have hrow : ∀ name text : Str, (oneHeader value).headers[name]? = some text → name = str "b" ∧ text = value := by
    intro name text h
    change (Std.ExtTreeMap.insert ∅ (str "b") value)[name]? = some text at h
    rw [Table.getElem?_insert_row] at h
    split at h
    · next hname => exact ⟨hname.symm, (Option.some.inj h).symm⟩
    · exact absurd h (by simp)
  have haction : ∀ b ∈ str "a", b ≠ 32 ∧ b ≠ 10 := by decide +kernel
  have hid : ∀ b ∈ str "7", b ≠ 10 := by decide +kernel
  refine ⟨nofun, haction, hid, fun name hname => ?_, fun name text h => ?_, rfl⟩
  · obtain ⟨text, htext⟩ := Table.mem_iff_exists_row.mp hname
    obtain ⟨rfl, -⟩ := hrow name text htext
    decide +kernel
  · obtain ⟨-, rfl⟩ := hrow name text h
    exact hvalue

theorem length_of_shortLines {value : Str} (h : ShortLines ((oneHeader value).setContent [])) :
    value.length < 2147483648 := by
  have hshort : (str "b" ++ 58 :: value).length < 2147483648 :=
    h.2 (str "b", value) (Std.ExtTreeMap.mem_toList_iff_getElem?_eq_some.mpr Std.ExtTreeMap.getElem?_insert_self)
  rw [List.length_append, List.length_cons] at hshort
  omega

theorem roundTrip_oneHeader : RoundTrip ((oneHeader (str "c")).setContent (str "xy")) := by
  refine (roundTrip_iff_short _ (encodable_oneHeader (by decide +kernel)) (str "xy") (by decide)).mpr ?_
  rw [ShortLines, ShortList]
  decide +kernel

/-- The value of the header is longer than the buffer for a line can be. -/
theorem not_roundTrip_longHeader :
    ∃ mb data, Encodable mb ∧ data.length < 2147483648 ∧ ¬RoundTrip (mb.setContent data) := by
  have hdata : ([] : Str).length < 2147483648 := by decide
  have hbytes : ∀ b ∈ List.replicate 2147483648 (97 : UInt8), b ≠ 10 := by
    intro b hb
    rw [List.eq_of_mem_replicate hb]
    decide
  refine ⟨_, [], encodable_oneHeader hbytes, hdata, fun htrip => ?_⟩
  have hlong := length_of_shortLines (short_of_delivered (listed_setContent (encodable_oneHeader hbytes) hdata) htrip)
  rw [List.length_replicate] at hlong
  omega

end Abacus.Client.Transfer
