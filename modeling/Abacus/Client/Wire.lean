import Abacus.Client.Block
import Abacus.Library.Framer

/-! # Decoding of client messages

`addBytes` keeps an unfinished line in the buffer that later holds the content, and its size in a signed
word. Up to that size it does what a framer does that takes one byte at a time.
-/

namespace Abacus.Client.Wire

open Library Library.Bytes Misc Peer.Classes

structure Decoder where
  message : Str
  messageId : Str
  headers : StringMap Str
  contentLength : Int
  /-- The unfinished line, or the content that has come in. -/
  content : Str
  /-- Whether `_content_pos` is set. -/
  collecting : Bool
  deriving DecidableEq

def Decoder.fresh : Decoder where
  message := []
  messageId := []
  headers := ∅
  contentLength := 0
  content := []
  collecting := false

section

variable (d : Decoder) (line : Str)

def firstLine : Decoder :=
  match line.dropWhile (· ≠ 32) with
  | [] => { d with message := line }
  | _ :: id => { d with message := line.takeWhile (· ≠ 32), messageId := id }

def addHeader : Option Decoder :=
  match line.dropWhile (· ≠ 58) with
  | [] => none
  | _ :: value => some { d with headers := d.headers.insert (line.takeWhile (· ≠ 58)) value }

/-- `atol` of the header, in an `int`. -/
def announced (headers : StringMap Str) : Int :=
  match headers[str "content-length"]? with
  | none => 0
  | some value => (strtol value).bmod 4294967296

def endLine : Decoder × Signal :=
  if d.message = [] then (firstLine d line, .more)
  else if line = [] then
    let length := announced d.headers
    if 0 < length then ({ d with contentLength := length, collecting := true }, .more)
    else ({ d with contentLength := length }, .complete)
  else match addHeader d line with
    | some d => (d, .more)
    | none => (d, .reject)

/-- The position of the colon of a header is kept in an `int`. -/
def colonFits : Bool :=
  d.message = [] || line.dropWhile (· ≠ 58) = [] || (line.takeWhile (· ≠ 58)).length < 2147483648

end

theorem endLine_nil {d : Decoder} (h : d.message ≠ []) : endLine d [] =
    if 0 < announced d.headers then ({ d with contentLength := announced d.headers, collecting := true }, .more)
    else ({ d with contentLength := announced d.headers }, .complete) := by
  rw [endLine, if_neg h, if_pos rfl]

def Decoder.took (d : Decoder) (bytes : Str) : Decoder := { d with content := d.content ++ bytes }

def collect (d : Decoder) (bytes : Str) : Decoder × Int :=
  let bytesleft := d.contentLength - d.content.length
  (d.took (bytes.take bytesleft.toNat), if (bytes.length : Int) < bytesleft then 0 else bytesleft)

def Decoder.cleared (d : Decoder) : Decoder := { d with content := [], contentLength := 0 }

def Decoder.buffer (d : Decoder) (bytes : Str) : Decoder :=
  { d with content := d.content ++ bytes, contentLength := d.contentLength + bytes.length }

/-- The loop of `addBytes` over the lines in the bytes. There is no result where an `int` overflows. -/
def addLines : Nat → Decoder → Str → Int → Option (Decoder × Int)
  | 0, d, _, _ => some (d, 0)
  | fuel + 1, d, bytes, chowed =>
    if bytes = [] then some (d, 0)
    else
      let head := bytes.takeWhile (· ≠ 10)
      match bytes.dropWhile (· ≠ 10) with
      | [] => if d.contentLength + head.length < 2147483648 then some (d.buffer head, 0) else none
      | _ :: rest =>
        let line := d.content ++ head
        let chowed := chowed + (head.length + 1 : Nat)
        if !colonFits d line then none
        else match endLine d.cleared line with
          | (d, .more) =>
            if d.collecting then
              let (d, res) := collect d rest
              some (d, if res ≤ 0 then res else chowed + res)
            else addLines fuel d rest chowed
          | (d, .complete) => some (d, chowed)
          | (d, .reject) => some (d, -1)

/-- -1 for an error, 0 if more bytes are needed, or the number of bytes that complete the block. -/
def addBytes (d : Decoder) (bytes : Str) : Option (Decoder × Int) :=
  if d.collecting then some (collect d bytes) else addLines bytes.length d bytes 0

/-- The same, one byte at a time and without overflow. -/
def push (d : Decoder) (b : UInt8) : Decoder × Signal :=
  if d.collecting then
    (d.took [b], if ((d.took [b]).content.length : Int) < d.contentLength then .more else .complete)
  else if b = 10 then endLine d.cleared d.content
  else (d.buffer [b], .more)

def framer : Framer Decoder UInt8 where
  fresh := .fresh
  push

def code (chowed : Int) : Decoder × Signal × Nat → Decoder × Int
  | (d, .more, _) => (d, 0)
  | (d, .complete, n) => (d, chowed + n)
  | (d, .reject, _) => (d, -1)

section

/-- The size of the buffer is known, or there is room left in it for content. -/
def Valid (d : Decoder) : Prop :=
  if d.collecting then (d.content.length : Int) < d.contentLength else d.contentLength = d.content.length

theorem valid_fresh : Valid .fresh := rfl

variable {d d' : Decoder}

theorem valid_iff_of_line (h : d.collecting = false) : Valid d ↔ d.contentLength = d.content.length := by
  simp [Valid, h]

theorem valid_iff_of_collecting (h : d.collecting = true) : Valid d ↔ (d.content.length : Int) < d.contentLength := by
  simp [Valid, h]

theorem endLine_more {line : Str} (hd : d.collecting = false) (h : endLine d.cleared line = (d', .more)) :
    d'.content = [] ∧ (d'.collecting = false ∧ d'.contentLength = 0 ∨ d'.collecting = true ∧ 0 < d'.contentLength) := by
  unfold endLine at h
  split at h
  · obtain ⟨rfl, -⟩ := Prod.mk.inj h
    unfold firstLine
    split
    · exact ⟨rfl, .inl ⟨hd, rfl⟩⟩
    · exact ⟨rfl, .inl ⟨hd, rfl⟩⟩
  · split at h
    · dsimp only at h
      split at h
      · next hpos =>
        obtain ⟨rfl, -⟩ := Prod.mk.inj h
        exact ⟨rfl, .inr ⟨rfl, hpos⟩⟩
      · cases (Prod.mk.inj h).2
    · split at h
      · next c hheader =>
        obtain ⟨rfl, -⟩ := Prod.mk.inj h
        unfold addHeader at hheader
        split at hheader
        · cases hheader
        · cases hheader
          exact ⟨rfl, .inl ⟨hd, rfl⟩⟩
      · cases (Prod.mk.inj h).2

theorem valid_endLine {line : Str} (hd : d.collecting = false) (h : endLine d.cleared line = (d', .more)) :
    Valid d' := by
  obtain ⟨hcontent, ⟨hcollecting, hzero⟩ | ⟨hcollecting, hpos⟩⟩ := endLine_more hd h
  · rw [valid_iff_of_line hcollecting, hcontent, hzero]
    rfl
  · rw [valid_iff_of_collecting hcollecting, hcontent]
    exact hpos

theorem valid_buffer {bytes : Str} (hd : d.collecting = false) (h : Valid d) : Valid (d.buffer bytes) := by
  have hbuffer : (d.buffer bytes).collecting = false := hd
  rw [valid_iff_of_line hd] at h
  rw [valid_iff_of_line hbuffer]
  change d.contentLength + bytes.length = ((d.content ++ bytes).length : Nat)
  rw [h, List.length_append, Nat.cast_add]

theorem Valid.push {b : UInt8} (h : Valid d) (hpush : push d b = (d', .more)) : Valid d' := by
  unfold Wire.push at hpush
  split at hpush
  · next hcollecting =>
    have htook : (d.took [b]).collecting = true := hcollecting
    obtain ⟨rfl, hsignal⟩ := Prod.mk.inj hpush
    rw [valid_iff_of_collecting htook]
    by_contra hfull
    have hcomplete : ¬((d.took [b]).content.length : Int) < d.contentLength := hfull
    rw [if_neg hcomplete] at hsignal
    cases hsignal
  · next hline =>
    have hd := Bool.eq_false_iff.mpr hline
    split at hpush
    · exact valid_endLine hd hpush
    · obtain ⟨rfl, -⟩ := Prod.mk.inj hpush
      exact valid_buffer hd h

theorem Valid.reads {bytes : Str} (h : Valid d) (hreads : framer.Reads d bytes d') : Valid d' := by
  induction bytes generalizing d with
  | nil =>
    obtain rfl : d = d' := (Prod.mk.inj hreads).1
    exact h
  | cons b bytes ih =>
    obtain ⟨m, hpush, hrest⟩ := Framer.reads_cons.mp hreads
    exact ih (h.push hpush) hrest

end

section

variable {d : Decoder} {bytes : Str}

theorem push_line {b : UInt8} (hd : d.collecting = false) (hb : b ≠ 10) : push d b = (d.buffer [b], .more) := by
  rw [push, if_neg (Bool.eq_false_iff.mp hd), if_neg hb]

theorem buffer_buffer (d : Decoder) (a b : Str) : (d.buffer a).buffer b = d.buffer (a ++ b) := by
  simp [Decoder.buffer, add_assoc]

theorem buffer_nil (d : Decoder) : d.buffer [] = d := by simp [Decoder.buffer]

theorem reads_buffer (hd : d.collecting = false) (hbytes : ∀ b ∈ bytes, b ≠ 10) :
    framer.Reads d bytes (d.buffer bytes) := by
  induction bytes generalizing d with
  | nil =>
    rw [buffer_nil]
    exact Framer.reads_nil d
  | cons b bytes ih =>
    obtain ⟨hb, hbytes⟩ := List.forall_mem_cons.mp hbytes
    refine Framer.reads_cons.mpr ⟨d.buffer [b], push_line hd hb, ?_⟩
    have hrest := ih (d := d.buffer [b]) hd hbytes
    rwa [buffer_buffer] at hrest

theorem push_newline (hd : d.collecting = false) (head : Str) :
    push (d.buffer head) 10 = endLine d.cleared (d.content ++ head) := by
  have hbuffer : (d.buffer head).collecting = false := hd
  rw [push, if_neg (Bool.eq_false_iff.mp hbuffer), if_pos rfl]
  rfl

theorem feed_line {head : Str} (hd : d.collecting = false) (hhead : ∀ b ∈ head, b ≠ 10) (rest : Str) :
    framer.feed d (head ++ 10 :: rest) =
      match endLine d.cleared (d.content ++ head) with
      | (d', .more) => ((framer.feed d' rest).1, (framer.feed d' rest).2.1, head.length + 1 + (framer.feed d' rest).2.2)
      | (d', signal) => (d', signal, head.length + 1) := by
  rw [(reads_buffer hd hhead).feed_append]
  have hpush := push_newline hd head
  rcases hline : endLine d.cleared (d.content ++ head) with ⟨d', signal⟩
  rw [hline] at hpush
  cases signal with
  | more =>
    have hfeed : framer.feed (d.buffer head) (10 :: rest) = _ := Framer.feed_cons_more hpush
    rw [hfeed]
    dsimp only
    rw [Nat.add_comm (framer.feed d' rest).2.2 1, ← Nat.add_assoc]
  | complete | reject =>
    have hfeed : framer.feed (d.buffer head) (10 :: rest) = _ := Framer.feed_cons_of_ne hpush nofun
    rw [hfeed]

theorem took_took (d : Decoder) (a b : Str) : (d.took a).took b = d.took (a ++ b) := by simp [Decoder.took]

theorem feed_collecting {left : Nat} (hd : d.collecting = true) (hleft : d.contentLength = d.content.length + left)
    (hpos : 0 < left) (bytes : Str) :
    framer.feed d bytes =
      if bytes.length < left then (d.took bytes, .more, bytes.length)
        else (d.took (bytes.take left), .complete, left) := by
  induction bytes generalizing d left with
  | nil =>
    have hlt : ([] : Str).length < left := hpos
    rw [if_pos hlt]
    simp [Framer.feed, Decoder.took]
  | cons b bytes ih =>
    have hpush : framer.push d b = (d.took [b], if 1 < left then .more else .complete) := by
      change push d b = _
      have hlength : ((d.took [b]).content.length : Int) = d.content.length + 1 := by simp [Decoder.took]
      have hiff : ((d.content.length : Int) + 1 < d.contentLength) ↔ 1 < left := by omega
      rw [push, if_pos hd, hlength]
      simp only [hiff]
    by_cases hone : 1 < left
    · rw [if_pos hone] at hpush
      obtain ⟨left, rfl⟩ : ∃ k, left = k + 1 := ⟨left - 1, by omega⟩
      have htook : (d.took [b]).contentLength = (d.took [b]).content.length + left := by
        simp only [Decoder.took, List.length_append, List.length_singleton]
        omega
      rw [Framer.feed_cons_more hpush, ih (d := d.took [b]) hd htook (by omega), took_took, took_took]
      simp only [List.length_cons, Nat.add_lt_add_iff_right, List.singleton_append, List.take_succ_cons]
      split <;> rfl
    · obtain rfl : left = 1 := by omega
      rw [if_neg hone] at hpush
      rw [Framer.feed_cons_of_ne hpush (by simp), if_neg (by simp), List.take_succ_cons, List.take_zero]

theorem collect_eq (hd : d.collecting = true) (hvalid : Valid d) (bytes : Str) :
    collect d bytes = code 0 (framer.feed d bytes) ∧ (framer.feed d bytes).2.1 ≠ .reject := by
  have hlt := (valid_iff_of_collecting hd).mp hvalid
  obtain ⟨left, hleft⟩ : ∃ left : Nat, d.contentLength = d.content.length + left :=
    ⟨(d.contentLength - d.content.length).toNat, by omega⟩
  have hrest : d.contentLength - d.content.length = (left : Int) := by omega
  rw [feed_collecting hd hleft (by omega), collect, hrest]
  simp only [Int.toNat_natCast, Nat.cast_lt]
  split
  · next hshort =>
    rw [List.take_of_length_le hshort.le]
    exact ⟨rfl, nofun⟩
  · refine ⟨?_, nofun⟩
    simp [code]

theorem code_add (chowed : Int) (k : Nat) (r : Decoder × Signal × Nat) :
    code (chowed + k) r = code chowed (r.1, r.2.1, k + r.2.2) := by
  obtain ⟨d, signal, n⟩ := r
  cases signal with
  | more => rfl
  | complete => simp [code, add_assoc]
  | reject => rfl

theorem code_collect (hd : d.collecting = true) (hvalid : Valid d) (bytes : Str) (chowed : Int) :
    ((collect d bytes).1, if (collect d bytes).2 ≤ 0 then (collect d bytes).2 else chowed + (collect d bytes).2) =
      code chowed (framer.feed d bytes) := by
  obtain ⟨hcollect, hreject⟩ := collect_eq hd hvalid bytes
  have hpos := (Framer.feed_bounds (F := framer) d bytes).2.2
  rw [hcollect]
  rcases hfeed : framer.feed d bytes with ⟨d', signal, n⟩
  rw [hfeed] at hpos hreject
  cases signal with
  | more => rfl
  | complete =>
    have hn : 0 < n := hpos nofun
    simp [code, hn.ne']
  | reject => exact absurd rfl hreject

theorem split_line (bytes : Str) : (∀ b ∈ bytes.takeWhile (· ≠ 10), b ≠ 10) ∧
    (bytes.dropWhile (· ≠ 10) = [] ∧ bytes.takeWhile (· ≠ 10) = bytes ∨
      ∃ rest, bytes.dropWhile (· ≠ 10) = 10 :: rest ∧ bytes = bytes.takeWhile (· ≠ 10) ++ 10 :: rest) := by
  have happend := List.takeWhile_append_dropWhile (p := (· ≠ 10)) (l := bytes)
  refine ⟨fun b hb => ?_, ?_⟩
  · have hne := List.mem_takeWhile_imp hb
    exact of_decide_eq_true hne
  cases hdrop : bytes.dropWhile (· ≠ 10) with
  | nil =>
    rw [hdrop, List.append_nil] at happend
    exact .inl ⟨rfl, happend⟩
  | cons c rest =>
    have hc : c = 10 := by
      have hne : bytes.dropWhile (· ≠ 10) ≠ [] := hdrop ▸ List.cons_ne_nil c rest
      have hnot := List.head_dropWhile_not (fun x : UInt8 => decide (x ≠ 10)) hne
      simp only [hdrop, List.head_cons] at hnot
      simpa using hnot
    rw [hdrop, hc] at happend
    exact .inr ⟨rest, by rw [hc], happend.symm⟩

/-- Wherever `addBytes` has a result, it is that of the framer. -/
theorem addLines_sound {fuel : Nat} {chowed : Int} {r : Decoder × Int} (hd : d.collecting = false)
    (hvalid : Valid d) (hfuel : bytes.length ≤ fuel) (h : addLines fuel d bytes chowed = some r) :
    r = code chowed (framer.feed d bytes) := by
  induction fuel generalizing d bytes chowed with
  | zero =>
    obtain rfl := List.length_eq_zero_iff.mp (Nat.le_zero.mp hfuel)
    cases h
    rfl
  | succ fuel ih =>
    rw [addLines] at h
    split at h
    · next hempty =>
      cases h
      rw [hempty]
      rfl
    · obtain ⟨hhead, ⟨hdrop, htake⟩ | ⟨rest, hdrop, hbytes⟩⟩ := split_line bytes
      · rw [hdrop] at h
        dsimp only at h
        split at h
        · cases h
          rw [htake, reads_buffer hd (htake ▸ hhead)]
          rfl
        · cases h
      · rw [hdrop] at h
        dsimp only at h
        generalize bytes.takeWhile (· ≠ 10) = head at h hhead hbytes
        subst hbytes
        rw [feed_line hd hhead]
        split at h
        · cases h
        · rcases hline : endLine d.cleared (d.content ++ head) with ⟨d', signal⟩
          rw [hline] at h
          cases signal with
          | more =>
            have hvalid' := valid_endLine hd hline
            dsimp only at h ⊢
            rw [← code_add chowed (head.length + 1)]
            split at h
            · next hcollecting =>
              cases h
              exact code_collect hcollecting hvalid' rest _
            · next hnot =>
              refine ih (Bool.eq_false_iff.mpr hnot) hvalid' ?_ h
              rw [List.length_append, List.length_cons] at hfuel
              omega
          | complete | reject =>
            cases h
            rfl

theorem addBytes_sound {r : Decoder × Int} (hvalid : Valid d) (h : addBytes d bytes = some r) :
    r = code 0 (framer.feed d bytes) := by
  unfold addBytes at h
  split at h
  · next hcollecting =>
    cases h
    exact (collect_eq hcollecting hvalid bytes).1
  · next hline => exact addLines_sound (Bool.eq_false_iff.mpr hline) hvalid (le_refl _) h

/-- No unfinished line exceeds the buffer while these bytes come in. -/
def Fits (d : Decoder) (bytes : Str) : Prop :=
  ∀ front, front <+: bytes → ∀ d', framer.Reads d front d' → d'.collecting = false → d'.content.length < 2147483648

theorem Fits.after {front rest : Str} {d' : Decoder} (h : Fits d (front ++ rest)) (hreads : framer.Reads d front d') :
    Fits d' rest := fun more hmore d'' hd'' =>
  h (front ++ more) ((List.prefix_append_right_inj front).mpr hmore) d'' (Framer.reads_append.mpr ⟨d', hreads, hd''⟩)

theorem Fits.front {front : Str} (h : Fits d bytes) (hfront : front <+: bytes) : Fits d front :=
  fun start hstart => h start (hstart.trans hfront)

theorem addLines_total {fuel : Nat} {chowed : Int} (hd : d.collecting = false) (hvalid : Valid d)
    (hfits : Fits d bytes) : ∃ r, addLines fuel d bytes chowed = some r := by
  induction fuel generalizing d bytes chowed with
  | zero => exact ⟨_, rfl⟩
  | succ fuel ih =>
    rw [addLines]
    split
    · exact ⟨_, rfl⟩
    · obtain ⟨hhead, ⟨hdrop, htake⟩ | ⟨rest, hdrop, hbytes⟩⟩ := split_line bytes
      · rw [hdrop]
        have hshort := hfits bytes (List.prefix_refl bytes) _ (reads_buffer hd (htake ▸ hhead)) hd
        have hlength := (valid_iff_of_line hd).mp hvalid
        have hlt : d.contentLength + (bytes.takeWhile (· ≠ 10)).length < 2147483648 := by
          rw [htake, hlength]
          simp only [Decoder.buffer, List.length_append] at hshort
          omega
        dsimp only
        rw [if_pos hlt]
        exact ⟨_, rfl⟩
      · rw [hdrop]
        dsimp only
        generalize bytes.takeWhile (· ≠ 10) = head at hhead hbytes
        subst hbytes
        have hbuffer := reads_buffer hd hhead
        have hshort := hfits head (List.prefix_append _ _) _ hbuffer hd
        have hcolon : colonFits d (d.content ++ head) = true := by
          have hlt := lt_of_le_of_lt (List.takeWhile_prefix (· ≠ 58)).length_le hshort
          exact Bool.or_eq_true_iff.mpr (.inr (decide_eq_true hlt))
        rw [hcolon, if_neg (by decide)]
        have hpush := push_newline hd head
        rcases hline : endLine d.cleared (d.content ++ head) with ⟨d', signal⟩
        rw [hline] at hpush
        cases signal with
        | more =>
          dsimp only
          have hreads : framer.Reads d (head ++ [10]) d' := Framer.reads_concat.mpr ⟨_, hbuffer, hpush⟩
          split
          · exact ⟨_, rfl⟩
          · next hnot =>
            refine ih (Bool.eq_false_iff.mpr hnot) (valid_endLine hd hline) (Fits.after ?_ hreads)
            rwa [List.append_assoc]
        | complete | reject => exact ⟨_, rfl⟩

theorem addBytes_total (hvalid : Valid d) (hfits : Fits d bytes) : ∃ r, addBytes d bytes = some r := by
  unfold addBytes
  split
  · exact ⟨_, rfl⟩
  · next hline => exact addLines_total (Bool.eq_false_iff.mpr hline) hvalid hfits

theorem addBytes_eq (hvalid : Valid d) (hfits : Fits d bytes) :
    addBytes d bytes = some (code 0 (framer.feed d bytes)) := by
  obtain ⟨r, hr⟩ := addBytes_total hvalid hfits
  rw [hr, addBytes_sound hvalid hr]

theorem addBytes_overflow {b : UInt8} (hd : d.collecting = false) (hvalid : Valid d) (hb : b ≠ 10)
    (hfull : 2147483648 ≤ d.content.length + 1) : addBytes d [b] = none := by
  have hlength := (valid_iff_of_line hd).mp hvalid
  have htake : [b].takeWhile (· ≠ 10) = [b] := by simp [hb]
  have hdrop : [b].dropWhile (· ≠ 10) = [] := by simp [hb]
  have hlt : ¬d.contentLength + ([b].takeWhile (· ≠ 10)).length < 2147483648 := by
    rw [htake, hlength, List.length_singleton]
    omega
  rw [addBytes, if_neg (Bool.eq_false_iff.mp hd), List.length_singleton, addLines, if_neg (List.cons_ne_nil b [])]
  dsimp only
  rw [hdrop]
  dsimp only
  rw [if_neg hlt]

theorem addBytes_firstLine {tail : Str} (hd : d.collecting = false) (hmessage : d.message = [])
    (htail : ∀ b ∈ tail, b ≠ 10) : addBytes d (tail ++ [10]) = some (firstLine d.cleared (d.content ++ tail), 0) := by
  have hnewline : ∀ b ∈ tail, decide (b ≠ 10) = true := fun b hb => decide_eq_true (htail b hb)
  have htake : (tail ++ [10]).takeWhile (· ≠ 10) = tail := by
    rw [List.takeWhile_append_of_pos hnewline]
    exact List.append_nil tail
  have hdrop : (tail ++ [10]).dropWhile (· ≠ 10) = [10] := by
    rw [List.dropWhile_append_of_pos hnewline]
    rfl
  have hcolon : colonFits d (d.content ++ tail) = true := by simp [colonFits, hmessage]
  have hend : endLine d.cleared (d.content ++ tail) = (firstLine d.cleared (d.content ++ tail), .more) :=
    if_pos hmessage
  have hcollecting : (firstLine d.cleared (d.content ++ tail)).collecting = false := by
    unfold firstLine
    split <;> exact hd
  rw [addBytes, if_neg (Bool.eq_false_iff.mp hd), List.length_append, List.length_singleton, addLines, if_neg (by simp)]
  dsimp only
  rw [hdrop]
  dsimp only
  rw [htake, hcolon, hend]
  dsimp only
  rw [if_neg (by decide), if_neg (Bool.eq_false_iff.mp hcollecting)]
  cases tail.length with
  | zero => rfl
  | succ n => rw [addLines, if_pos rfl]

end

end Abacus.Client.Wire
