import Abacus.Client.Wire

/-! # The receive loop of the client library

When a header line has no colon, `receive_thread` throws the block away and tries the same bytes again
with a new one, so bytes that no new block takes are tried forever.
-/

namespace Abacus.Client.Receive

open Library Library.Bytes Client.Wire

def bfrSize : Nat := 16 * 1024

/-- The inner loop of `receive_thread`, with a bound on the rounds. No result where `addBytes` has none. -/
def receiveLoop : Nat → Session Decoder → Str → Option (Session Decoder)
  | 0, _, _ => none
  | rounds + 1, s, bytes =>
    if bytes = [] then some s
    else match addBytes (s.state framer) bytes with
      | none => none
      | some (mb, bytesUsed) =>
        if bytesUsed < 0 then receiveLoop rounds { s with current := none } bytes
        else if bytesUsed = 0 then some (s.after mb .more)
        else receiveLoop rounds (s.after mb .complete) (bytes.drop bytesUsed.toNat)

def Finishes (s : Session Decoder) (bytes : Str) : Prop := ∃ rounds, (receiveLoop rounds s bytes).isSome = true

/-- The complete lines. -/
def lines (bytes : Str) : List Str := (bytes.splitOn 10).dropLast

theorem line_induction {P : Str → Prop} (unfinished : ∀ bytes, (∀ b ∈ bytes, b ≠ 10) → P bytes)
    (line : ∀ head rest, (∀ b ∈ head, b ≠ 10) → P rest → P (head ++ 10 :: rest)) (bytes : Str) : P bytes := by
  induction hlength : bytes.length using Nat.strong_induction_on generalizing bytes with
  | _ n ih =>
    obtain ⟨hhead, ⟨-, htake⟩ | ⟨rest, -, hbytes⟩⟩ := split_line bytes
    · exact unfinished bytes (htake ▸ hhead)
    · rw [hbytes]
      refine line _ rest hhead (ih rest.length ?_ rest rfl)
      rw [hbytes, List.length_append, List.length_cons] at hlength
      omega

theorem lines_of_notMem {bytes : Str} (h : ∀ b ∈ bytes, b ≠ 10) : lines bytes = [] := by
  rw [lines, List.splitOn_eq_singleton fun hmem => h 10 hmem rfl]
  rfl

theorem lines_append {head : Str} (h : ∀ b ∈ head, b ≠ 10) (rest : Str) :
    lines (head ++ 10 :: rest) = head :: lines rest := by
  have hsplit : (head ++ 10 :: rest).splitOn 10 = head :: rest.splitOn 10 :=
    List.splitOnP_append_cons_of_forall_mem (fun b hb => beq_eq_false_iff_ne.mpr (h b hb)) 10 rfl rest
  rw [lines, hsplit, List.dropLast_cons_of_ne_nil (List.splitOn_ne_nil 10 rest)]
  rfl

def actionOf (line : Str) : Str := line.takeWhile (· ≠ 32)

/-- The complete header lines of a block that starts with these bytes. Lines without an action are skipped. -/
def headerLines (bytes : Str) : List Str :=
  (((lines bytes).dropWhile fun line => actionOf line = []).drop 1).takeWhile (· ≠ [])

/-- A header line of the block has no colon. -/
def Malformed (bytes : Str) : Prop := ∃ line ∈ headerLines bytes, 58 ∉ line

section

variable {d d' : Decoder} {bytes : Str}

theorem firstLine_message (d : Decoder) (line : Str) : (firstLine d line).message = actionOf line := by
  unfold firstLine
  split
  · next hnone =>
    have happend := List.takeWhile_append_dropWhile (p := (· ≠ 32)) (l := line)
    rw [hnone, List.append_nil] at happend
    exact happend.symm
  · rfl

theorem addHeader_eq_none_iff (d : Decoder) (line : Str) : addHeader d line = none ↔ 58 ∉ line := by
  unfold addHeader
  split
  · next hnone =>
    refine iff_of_true rfl fun hmem => ?_
    have hall := List.dropWhile_eq_nil_iff.mp hnone 58 hmem
    exact of_decide_eq_true hall rfl
  · next c value hsome =>
    refine iff_of_false (by simp) fun hmem => ?_
    have hnil : line.dropWhile (· ≠ 58) = [] :=
      List.dropWhile_eq_nil_iff.mpr fun b hb => decide_eq_true fun heq => hmem (heq ▸ hb)
    rw [hnil] at hsome
    cases hsome

theorem endLine_header {line : Str} (hmessage : d.message ≠ []) (hline : line ≠ []) (hcolon : 58 ∈ line) :
    ∃ d', endLine d.cleared line = (d', .more) ∧ d'.collecting = d.collecting ∧ d'.content = [] ∧
      d'.message = d.message := by
  have hheader : addHeader d.cleared line ≠ none := fun hnone => (addHeader_eq_none_iff _ _).mp hnone hcolon
  have hmessage : d.cleared.message ≠ [] := hmessage
  rw [endLine, if_neg hmessage, if_neg hline]
  unfold addHeader at hheader ⊢
  split
  · next d' heq =>
    split at heq
    · cases heq
    · cases heq
      exact ⟨_, rfl, rfl, rfl, rfl⟩
  · next heq => exact absurd heq hheader

theorem not_reject_of_empty (hd : d.collecting = false) (hmessage : d.message ≠ []) (hcontent : d.content = [])
    (rest : Str) : (framer.feed d (10 :: rest)).2.1 ≠ .reject := by
  have hfeed : framer.feed d ([] ++ 10 :: rest) = _ := feed_line hd (List.forall_mem_nil _) rest
  have hline := endLine_nil (d := d.cleared) hmessage
  rw [List.nil_append, hcontent, List.append_nil] at hfeed
  rw [hfeed]
  split at hline
  · rw [hline]
    exact (collect_eq rfl (valid_endLine hd hline) rest).2
  · rw [hline]
    simp

theorem feed_reject_iff_of_message (hd : d.collecting = false) (hcontent : d.content = []) (hmessage : d.message ≠ [])
    (bytes : Str) : (framer.feed d bytes).2.1 = .reject ↔ ∃ line ∈ (lines bytes).takeWhile (· ≠ []), 58 ∉ line := by
  induction bytes using line_induction generalizing d with
  | unfinished bytes hbytes =>
    rw [reads_buffer hd hbytes, lines_of_notMem hbytes]
    simp
  | line head rest hhead ih =>
    rw [lines_append hhead]
    by_cases hempty : head = []
    · subst hempty
      refine iff_of_false (not_reject_of_empty hd hmessage hcontent rest) ?_
      simp
    · rw [List.takeWhile_cons_of_pos (by simpa using hempty), List.exists_mem_cons_iff]
      rw [feed_line hd hhead, hcontent, List.nil_append]
      by_cases hcolon : 58 ∈ head
      · obtain ⟨d', hline, hcollecting, hcontent', hmessage'⟩ := endLine_header hmessage hempty hcolon
        rw [hline, or_iff_right (not_not_intro hcolon)]
        exact ih (hcollecting.trans hd) hcontent' (hmessage' ▸ hmessage)
      · have hnone : addHeader d.cleared head = none := (addHeader_eq_none_iff _ _).mpr hcolon
        have hmessage : d.cleared.message ≠ [] := hmessage
        rw [endLine, if_neg hmessage, if_neg hempty, hnone]
        exact iff_of_true rfl (.inl hcolon)

theorem feed_reject_iff (hd : d.collecting = false) (hcontent : d.content = []) (hmessage : d.message = [])
    (bytes : Str) : (framer.feed d bytes).2.1 = .reject ↔ Malformed bytes := by
  unfold Malformed headerLines
  induction bytes using line_induction generalizing d with
  | unfinished bytes hbytes =>
    rw [reads_buffer hd hbytes, lines_of_notMem hbytes]
    simp
  | line head rest hhead ih =>
    have hfirst : endLine d.cleared head = (firstLine d.cleared head, .more) := if_pos hmessage
    have hcollecting : (firstLine d.cleared head).collecting = false := by
      unfold firstLine
      split <;> exact hd
    have hclear : (firstLine d.cleared head).content = [] := by
      unfold firstLine
      split <;> rfl
    have hname := firstLine_message d.cleared head
    rw [lines_append hhead, feed_line hd hhead, hcontent, List.nil_append, hfirst]
    by_cases hskip : actionOf head = []
    · rw [List.dropWhile_cons_of_pos (by simpa using hskip)]
      exact ih hcollecting hclear (hname.trans hskip)
    · rw [List.dropWhile_cons_of_neg (by simpa using hskip), List.drop_one, List.tail_cons]
      exact feed_reject_iff_of_message hcollecting hclear (hname ▸ hskip) rest

theorem length_content_push {b : UInt8} (h : framer.push d b = (d', .more)) (hline : d'.collecting = false) :
    d.collecting = false ∧ d'.content.length ≤ d.content.length + 1 := by
  change push d b = (d', .more) at h
  cases hd : d.collecting with
  | true =>
    rw [push, if_pos hd] at h
    obtain ⟨rfl, -⟩ := Prod.mk.inj h
    have hcollecting : (d.took [b]).collecting = true := hd
    rw [hcollecting] at hline
    cases hline
  | false =>
    refine ⟨rfl, ?_⟩
    by_cases hb : b = 10
    · rw [push, if_neg (Bool.eq_false_iff.mp hd), if_pos hb] at h
      rw [(endLine_more hd h).1]
      exact Nat.zero_le _
    · rw [push_line hd hb] at h
      obtain ⟨rfl, -⟩ := Prod.mk.inj h
      simp [Decoder.buffer]

theorem length_content_reads (h : framer.Reads d bytes d') (hline : d'.collecting = false) :
    d'.content.length ≤ d.content.length + bytes.length := by
  induction bytes using List.reverseRecOn generalizing d' with
  | nil =>
    obtain rfl : d = d' := (Prod.mk.inj h).1
    simp
  | append_singleton bytes b ih =>
    obtain ⟨m, hm, hpush⟩ := Framer.reads_concat.mp h
    obtain ⟨hopen, hlast⟩ := length_content_push hpush hline
    have hlength := ih hm hopen
    rw [List.length_append, List.length_singleton]
    omega

theorem fits_of_empty (hcontent : d.content = []) (hsize : bytes.length < 2147483648) : Fits d bytes := by
  intro front hfront d' hreads hline
  have hlength := length_content_reads hreads hline
  have hle := hfront.length_le
  rw [hcontent, List.length_nil] at hlength
  omega

/-- The line that is being read is not too long, or, if it ends, its colon is not too far from its start. -/
def Roomy (d : Decoder) (bytes : Str) : Prop :=
  d.collecting = true ∨
    if 10 ∈ bytes then colonFits d (d.content ++ bytes.takeWhile (· ≠ 10)) = true
    else d.content.length + bytes.length < 2147483648

theorem roomy_fresh (hsize : bytes.length ≤ bfrSize) : Roomy .fresh bytes := by
  have hsize : bytes.length ≤ 16384 := hsize
  refine .inr ?_
  split
  · rfl
  · have hzero : Decoder.fresh.content.length = 0 := rfl
    omega

theorem addLines_isSome_iff {chowed : Int} (hd : d.collecting = false) (hvalid : Valid d) (hne : bytes ≠ [])
    {fuel : Nat}
    (hsize : bytes.length ≤ bfrSize) : (addLines (fuel + 1) d bytes chowed).isSome = true ↔ Roomy d bytes := by
  have hsize : bytes.length ≤ 16384 := hsize
  have hlength := (valid_iff_of_line hd).mp hvalid
  have hroomy : Roomy d bytes ↔ if 10 ∈ bytes then colonFits d (d.content ++ bytes.takeWhile (· ≠ 10)) = true
      else d.content.length + bytes.length < 2147483648 := or_iff_right (Bool.eq_false_iff.mp hd)
  rw [hroomy, addLines, if_neg hne]
  obtain ⟨hhead, ⟨hdrop, htake⟩ | ⟨rest, hdrop, hbytes⟩⟩ := split_line bytes
  · have hnone : 10 ∉ bytes := by
      rw [htake] at hhead
      exact fun hmem => hhead 10 hmem rfl
    rw [hdrop, if_neg hnone]
    dsimp only
    rw [htake, hlength]
    split
    · exact iff_of_true rfl (by omega)
    · exact iff_of_false (by simp) (by omega)
  · have hmem : 10 ∈ bytes := by
      rw [hbytes]
      simp
    rw [hdrop, if_pos hmem]
    dsimp only
    generalize bytes.takeWhile (· ≠ 10) = head at hhead hbytes
    cases hcolon : colonFits d (d.content ++ head) with
    | false => exact iff_of_false (by simp) (by simp)
    | true =>
      refine iff_of_true ?_ rfl
      rw [if_neg (by decide)]
      rcases hline : endLine d.cleared (d.content ++ head) with ⟨d', signal⟩
      cases signal with
      | more =>
        dsimp only
        split
        · rfl
        · next hnot =>
          have hrest : rest.length < 2147483648 := by
            rw [hbytes, List.length_append, List.length_cons] at hsize
            omega
          obtain ⟨r, hr⟩ : ∃ r, addLines fuel d' rest (chowed + (head.length + 1 : Nat)) = some r :=
            addLines_total (Bool.eq_false_iff.mpr hnot) (valid_endLine hd hline)
              (fits_of_empty (endLine_more hd hline).1 hrest)
          rw [hr]
          rfl
      | complete | reject => rfl

theorem addBytes_isSome_iff (hvalid : Valid d) (hne : bytes ≠ []) (hsize : bytes.length ≤ bfrSize) :
    (addBytes d bytes).isSome = true ↔ Roomy d bytes := by
  cases hd : d.collecting with
  | true =>
    rw [addBytes, if_pos hd]
    exact iff_of_true rfl (.inl hd)
  | false =>
    obtain ⟨fuel, hfuel⟩ : ∃ fuel, bytes.length = fuel + 1 := Nat.exists_eq_succ_of_ne_zero (by simpa using hne)
    rw [addBytes, if_neg (Bool.eq_false_iff.mp hd), hfuel]
    exact addLines_isSome_iff hd hvalid hne hsize

end

inductive Begins : Option Decoder → Str → Str → Prop
  | first {bytes : Str} (hne : bytes ≠ []) : Begins none bytes bytes
  | again {d : Decoder} {bytes rest : Str} (hreject : (framer.feed d bytes).2.1 = .reject)
      (hrest : Begins none bytes rest) :
    Begins (some d) bytes rest
  | next {mb : Option Decoder} {d : Decoder} {bytes rest : Str} {n : Nat}
    (hcomplete : framer.feed (mb.getD framer.fresh) bytes = (d, .complete, n))
    (hrest : Begins none (bytes.drop n) rest) : Begins mb bytes rest

section

variable {d d' : Decoder} {bytes rest : Str} {n : Nat}

theorem begins_none_iff (hne : bytes ≠ []) (h : framer.feed framer.fresh bytes = (d', .complete, n)) :
    Begins none bytes rest ↔ rest = bytes ∨ Begins none (bytes.drop n) rest := by
  constructor
  · intro hbegins
    cases hbegins with
    | first => exact .inl rfl
    | next hcomplete hrest =>
      rw [Option.getD_none, h] at hcomplete
      cases hcomplete
      exact .inr hrest
  · rintro (rfl | hrest)
    · exact .first hne
    · exact .next h hrest

theorem eq_of_begins_none (h : (framer.feed framer.fresh bytes).2.1 ≠ .complete) (hbegins : Begins none bytes rest) :
    bytes ≠ [] ∧ rest = bytes := by
  cases hbegins with
  | first hne => exact ⟨hne, rfl⟩
  | next hcomplete =>
    rw [Option.getD_none] at hcomplete
    rw [hcomplete] at h
    exact absurd rfl h

theorem begins_some_iff (h : framer.feed d bytes = (d', .complete, n)) :
    Begins (some d) bytes rest ↔ Begins none (bytes.drop n) rest := by
  constructor
  · intro hbegins
    cases hbegins with
    | again hreject =>
      rw [h] at hreject
      cases hreject
    | next hcomplete hrest =>
      rw [Option.getD_some, h] at hcomplete
      cases hcomplete
      exact hrest
  · exact fun hrest => .next h hrest

theorem begins_some_iff_of_ne (h : (framer.feed d bytes).2.1 ≠ .complete) :
    Begins (some d) bytes rest ↔ (framer.feed d bytes).2.1 = .reject ∧ Begins none bytes rest := by
  constructor
  · intro hbegins
    cases hbegins with
    | again hreject hrest => exact ⟨hreject, hrest⟩
    | next hcomplete =>
      rw [Option.getD_some] at hcomplete
      rw [hcomplete] at h
      exact absurd rfl h
  · rintro ⟨hreject, hrest⟩
    exact .again hreject hrest

end

section

variable {s : Session Decoder} {d : Decoder} {bytes : Str}

theorem finishes_nil (s : Session Decoder) : Finishes s [] := ⟨1, rfl⟩

theorem finishes_iff_of_round {s' : Session Decoder} {bytes' : Str}
    (h : ∀ rounds, receiveLoop (rounds + 1) s bytes = receiveLoop rounds s' bytes') :
    Finishes s bytes ↔ Finishes s' bytes' := by
  constructor
  · rintro ⟨rounds, hsome⟩
    cases rounds with
    | zero => cases hsome
    | succ rounds => exact ⟨rounds, h rounds ▸ hsome⟩
  · rintro ⟨rounds, hsome⟩
    exact ⟨rounds + 1, (h rounds).symm ▸ hsome⟩

variable (hne : bytes ≠ []) (hvalid : Valid (s.state framer)) (hroomy : Roomy (s.state framer) bytes)
  (hsize : bytes.length ≤ bfrSize)

include hne hvalid hsize

theorem not_finishes_of_not_roomy (hfull : ¬Roomy (s.state framer) bytes) : ¬Finishes s bytes := by
  rintro ⟨rounds, hsome⟩
  have hnone : addBytes (s.state framer) bytes = none :=
    Option.not_isSome_iff_eq_none.mp fun h => hfull ((addBytes_isSome_iff hvalid hne hsize).mp h)
  cases rounds with
  | zero => cases hsome
  | succ rounds =>
    rw [receiveLoop, if_neg hne, hnone] at hsome
    cases hsome

include hroomy

theorem addBytes_eq_code : addBytes (s.state framer) bytes = some (code 0 (framer.feed (s.state framer) bytes)) := by
  obtain ⟨r, hr⟩ := Option.isSome_iff_exists.mp ((addBytes_isSome_iff hvalid hne hsize).mpr hroomy)
  rw [hr, addBytes_sound hvalid hr]

theorem finishes_of_more {n : Nat} (hfeed : framer.feed (s.state framer) bytes = (d, .more, n)) : Finishes s bytes := by
  have hadd := addBytes_eq_code hne hvalid hroomy hsize
  refine ⟨1, ?_⟩
  rw [receiveLoop, if_neg hne, hadd, hfeed]
  rfl

theorem finishes_iff_of_complete {n : Nat} (hfeed : framer.feed (s.state framer) bytes = (d, .complete, n)) :
    Finishes s bytes ↔ Finishes (s.after d .complete) (bytes.drop n) := by
  have hadd := addBytes_eq_code hne hvalid hroomy hsize
  have hpos : 0 < n := by
    have hbound := (Framer.feed_bounds (F := framer) (s.state framer) bytes).2.2
    rw [hfeed] at hbound
    exact hbound (by simp)
  refine finishes_iff_of_round fun rounds => ?_
  rw [receiveLoop, if_neg hne, hadd, hfeed]
  dsimp only [code]
  rw [if_neg (by omega), if_neg (by omega), Int.zero_add, Int.toNat_natCast]

theorem receiveLoop_of_reject (hfeed : (framer.feed (s.state framer) bytes).2.1 = .reject) (rounds : Nat) :
    receiveLoop (rounds + 1) s bytes = receiveLoop rounds { s with current := none } bytes := by
  have hadd := addBytes_eq_code hne hvalid hroomy hsize
  rcases hresult : framer.feed (s.state framer) bytes with ⟨d', signal, n⟩
  rw [hresult] at hfeed hadd
  obtain rfl : signal = .reject := hfeed
  rw [receiveLoop, if_neg hne, hadd]
  rfl

end

section

variable {s : Session Decoder} {bytes : Str}

/-- Bytes that a new block rejects are tried forever. -/
theorem not_finishes_of_reject (hne : bytes ≠ []) (hsize : bytes.length ≤ bfrSize) (hcurrent : s.current = none)
    (hreject : (framer.feed framer.fresh bytes).2.1 = .reject) : ¬Finishes s bytes := by
  rintro ⟨rounds, hsome⟩
  have hstate : s.state framer = framer.fresh := by rw [Session.state, hcurrent, Option.getD_none]
  have hsame : { s with current := none } = s := by
    rw [← hcurrent]
  induction rounds with
  | zero => cases hsome
  | succ rounds ih =>
    rw [receiveLoop_of_reject hne (hstate ▸ valid_fresh) (hstate ▸ roomy_fresh hsize) hsize (hstate ▸ hreject),
      hsame] at hsome
    exact ih hsome

theorem finishes_iff_of_none (hsize : bytes.length ≤ bfrSize) (hcurrent : s.current = none) :
    Finishes s bytes ↔ ∀ rest, Begins none bytes rest → ¬Malformed rest := by
  induction hlength : bytes.length using Nat.strong_induction_on generalizing s bytes with
  | _ len ih =>
    have hstate : s.state framer = framer.fresh := by rw [Session.state, hcurrent, Option.getD_none]
    have hvalid : Valid (s.state framer) := hstate ▸ valid_fresh
    have hroomy : Roomy (s.state framer) bytes := hstate ▸ roomy_fresh hsize
    have hmalformed : (framer.feed framer.fresh bytes).2.1 = .reject ↔ Malformed bytes :=
      feed_reject_iff rfl rfl rfl bytes
    by_cases hempty : bytes = []
    · subst hempty
      refine iff_of_true (finishes_nil s) fun rest hbegins => ?_
      exact absurd rfl (eq_of_begins_none (by decide) hbegins).1
    rcases hfeed : framer.feed framer.fresh bytes with ⟨d, signal, n⟩
    rw [hfeed] at hmalformed
    cases signal with
    | more =>
      refine iff_of_true (finishes_of_more hempty hvalid hroomy hsize (hstate ▸ hfeed)) fun rest hbegins => ?_
      obtain ⟨-, rfl⟩ := eq_of_begins_none (by simp [hfeed]) hbegins
      exact fun hbad => absurd (hmalformed.mpr hbad) (by simp)
    | complete =>
      have hbounds := Framer.feed_bounds (F := framer) framer.fresh bytes
      rw [hfeed] at hbounds
      have hpos : 0 < n := hbounds.2.2 (by simp)
      have hdrop : (bytes.drop n).length = bytes.length - n := List.length_drop
      have hbytes : 0 < bytes.length := List.length_pos_of_ne_nil hempty
      have hnext : (s.after d .complete).current = none := rfl
      rw [finishes_iff_of_complete hempty hvalid hroomy hsize (hstate ▸ hfeed), ih _ (by omega) (by omega) hnext hdrop]
      constructor
      · intro hall rest hbegins
        obtain rfl | hrest := (begins_none_iff hempty hfeed).mp hbegins
        · exact fun hbad => absurd (hmalformed.mpr hbad) (by simp)
        · exact hall rest hrest
      · exact fun hall rest hrest => hall rest (.next hfeed hrest)
    | reject =>
      refine iff_of_false (not_finishes_of_reject hempty hsize hcurrent (by rw [hfeed])) fun hall => ?_
      exact hall bytes (.first hempty) (hmalformed.mp rfl)

theorem finishes_iff_of_some {d : Decoder} (hsize : bytes.length ≤ bfrSize) (hcurrent : s.current = some d)
    (hvalid : Valid d) (hempty : bytes ≠ []) (hroomy : Roomy d bytes) :
    Finishes s bytes ↔ ∀ rest, Begins (some d) bytes rest → ¬Malformed rest := by
  have hstate : s.state framer = d := by rw [Session.state, hcurrent, Option.getD_some]
  have hvalid : Valid (s.state framer) := hstate ▸ hvalid
  have hroomy : Roomy (s.state framer) bytes := hstate ▸ hroomy
  rcases hfeed : framer.feed d bytes with ⟨d', signal, n⟩
  cases signal with
  | more =>
    refine iff_of_true (finishes_of_more hempty hvalid hroomy hsize (hstate ▸ hfeed)) fun rest hbegins => ?_
    rw [begins_some_iff_of_ne (by simp [hfeed]), hfeed] at hbegins
    cases hbegins.1
  | complete =>
    have hdrop : (bytes.drop n).length ≤ bfrSize := by
      rw [List.length_drop]
      omega
    have hnext : (s.after d' .complete).current = none := rfl
    rw [finishes_iff_of_complete hempty hvalid hroomy hsize (hstate ▸ hfeed), finishes_iff_of_none hdrop hnext]
    exact forall_congr' fun rest => by rw [begins_some_iff hfeed]
  | reject =>
    have hreject : (framer.feed d bytes).2.1 = .reject := by rw [hfeed]
    have hround := receiveLoop_of_reject hempty hvalid hroomy hsize (hstate ▸ hreject)
    rw [finishes_iff_of_round hround, finishes_iff_of_none hsize rfl]
    exact forall_congr' fun rest => by rw [begins_some_iff_of_ne (by simp [hfeed]), and_iff_right hreject]

end

/-- The loop ends if and only if no block that is begun in the bytes has a header line without a colon, unless the line
before is too long. -/
theorem finishes_iff (s : Session Decoder) (bytes : Str) (hvalid : ∀ d ∈ s.current, Valid d)
    (hsize : bytes.length ≤ bfrSize) :
    Finishes s bytes ↔ (bytes ≠ [] → ∀ d ∈ s.current, Roomy d bytes) ∧ ∀ rest,
      Begins s.current bytes rest → ¬Malformed rest := by
  cases hcurrent : s.current with
  | none =>
    rw [finishes_iff_of_none hsize hcurrent]
    exact (and_iff_right fun _ d hd => absurd hd (by simp)).symm
  | some d =>
    have hvalid : Valid d := hvalid d hcurrent
    by_cases hempty : bytes = []
    · subst hempty
      refine iff_of_true (finishes_nil s) ⟨fun hne => absurd rfl hne, fun rest hbegins => ?_⟩
      rw [begins_some_iff_of_ne (by simp [Framer.feed])] at hbegins
      cases hbegins.1
    by_cases hroomy : Roomy d bytes
    · rw [finishes_iff_of_some hsize hcurrent hvalid hempty hroomy]
      exact (and_iff_right fun _ d' hd' => Option.some.inj hd' ▸ hroomy).symm
    · have hstate : s.state framer = d := by rw [Session.state, hcurrent, Option.getD_some]
      have hfull : ¬Roomy (s.state framer) bytes := hstate ▸ hroomy
      exact iff_of_false (not_finishes_of_not_roomy hempty (hstate ▸ hvalid) hsize hfull)
        fun hall => hroomy (hall.1 hempty d rfl)

/-- A complete block, and the start of another one. -/
theorem finishes_twoBlocks : Finishes .empty (str "ok\na:b\n\nok\nc:") := by
  have hnone : ∀ (P : Decoder → Prop), ∀ d ∈ (Session.empty : Session Decoder).current, P d := by simp [Session.empty]
  refine (finishes_iff .empty (str "ok\na:b\n\nok\nc:") (hnone _) (by decide)).mpr ⟨fun _ => hnone _,
    fun rest hbegins => ?_⟩
  have hfirst : framer.feed framer.fresh (str "ok\na:b\n\nok\nc:") = (_, .complete, 8) := Prod.ext rfl (by decide)
  obtain rfl | hbegins := (begins_none_iff (by decide) hfirst).mp hbegins
  · unfold Malformed
    decide
  · obtain ⟨-, rfl⟩ := eq_of_begins_none (by decide) hbegins
    unfold Malformed
    decide

/-- A header line without a colon is tried again and again. -/
theorem not_finishes_noColon : ¬Finishes .empty (str "ok\nmsg\n") :=
  not_finishes_of_reject (by decide) (by decide) rfl (by decide)

end Abacus.Client.Receive
