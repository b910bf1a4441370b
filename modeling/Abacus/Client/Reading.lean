import Abacus.Client.Transfer

/-! # The reader of a connection

`read_data` reads at most 512 bytes at a time and passes each complete message on. Where a read ends
makes no difference, as long as no unfinished line is too long for the buffer of `addBytes`.
-/

namespace Abacus.Client.Reading

open Library Library.Bytes Client.Wire Client.Transfer

def readLoop : Nat → Session Decoder → Str → Option (Session Decoder)
  | 0, s, _ => some s
  | fuel + 1, s, bytes =>
    if bytes = [] then some s
    else match addBytes (s.state framer) bytes with
      | none => none
      | some (message, res) =>
        if res < 0 then some (s.after message .reject)
        else if 0 < res then readLoop fuel (s.after message .complete) (bytes.drop res.toNat)
        else some (s.after message .more)

def readData : Session Decoder → List Str → Option (Session Decoder)
  | s, [] => some s
  | s, bytes :: reads =>
    if s.dropped then some s
    else match readLoop bytes.length s bytes with
      | none => none
      | some s => readData s reads

def clientBfrSize : Nat := 512

/-- The reads in which the bytes of a stream arrive. -/
structure Split (stream : Str) (reads : List Str) : Prop where
  flatten : reads.flatten = stream
  size : ∀ bytes ∈ reads, 0 < bytes.length ∧ bytes.length ≤ clientBfrSize

/-- The same messages are passed on, and the connection is dropped after the same ones or not at all. -/
def Independent (stream : Str) : Prop :=
  ∀ reads reads', Split stream reads → Split stream reads' →
    ∃ s s', readData .empty reads = some s ∧ readData .empty reads' = some s' ∧ s.done = s'.done ∧
      s.dropped = s'.dropped

/-- No unfinished line is too long for its buffer. -/
def ShortFrom (s : Session Decoder) (stream : Str) : Prop :=
  ∀ front, front <+: stream → ∀ d, (Session.run framer s front).current = some d →
    (Session.run framer s front).dropped = false → d.collecting = false → d.content.length < 2147483648

def Short (stream : Str) : Prop := ShortFrom .empty stream

variable {reads : List Str}

section

variable {s s' : Session Decoder} {bytes : Str}

theorem run_of_complete {message : Decoder} {res : Int} (hopen : s.dropped = false) (hvalid : Valid (s.state framer))
    (hadd : addBytes (s.state framer) bytes = some (message, res)) (hres : 0 < res) :
    Session.run framer s (bytes.take res.toNat) = s.after message .complete := by
  have hcode := addBytes_sound hvalid hadd
  rcases hfeed : framer.feed (s.state framer) bytes with ⟨m, signal, n⟩
  have hle := (Framer.feed_bounds (F := framer) (s.state framer) bytes).1
  rw [hfeed] at hcode hle
  cases signal with
  | more =>
    obtain ⟨-, rfl⟩ := Prod.mk.inj hcode
    exact absurd hres (lt_irrefl 0)
  | complete =>
    obtain ⟨rfl, hn⟩ := Prod.mk.inj hcode
    obtain rfl : res = (n : Int) := hn.trans (zero_add _)
    have hlength : (bytes.take n).length = n := List.length_take_of_le hle
    rw [← List.take_append_drop n bytes] at hfeed
    have htake := Framer.feed_within hfeed nofun hlength.ge
    have hne : bytes.take n ≠ [] := List.ne_nil_of_length_pos (by omega)
    rw [Int.toNat_natCast, Session.run_feed hopen hne htake, List.drop_of_length_le hlength.le]
    rfl
  | reject =>
    obtain ⟨-, rfl⟩ := Prod.mk.inj hcode
    exact absurd hres (by decide)

theorem readLoop_sound {fuel : Nat} (hopen : s.dropped = false) (hvalid : Valid (s.state framer))
    (hfuel : bytes.length ≤ fuel)
    (h : readLoop fuel s bytes = some s') :
    s' = Session.run framer s bytes ∧ (s'.dropped = false → Valid (s'.state framer)) := by
  induction fuel generalizing s bytes with
  | zero =>
    obtain rfl := List.length_eq_zero_iff.mp (Nat.le_zero.mp hfuel)
    cases h
    exact ⟨rfl, fun _ => hvalid⟩
  | succ fuel ih =>
    rw [readLoop] at h
    split at h
    · next hempty =>
      cases h
      rw [hempty]
      exact ⟨rfl, fun _ => hvalid⟩
    · next hne =>
      split at h
      · cases h
      · next message res hadd =>
        have hcode := addBytes_sound hvalid hadd
        obtain ⟨-, hmore, hpos⟩ := Framer.feed_bounds (F := framer) (s.state framer) bytes
        rcases hfeed : framer.feed (s.state framer) bytes with ⟨m, signal, n⟩
        rw [hfeed] at hcode hmore hpos
        have hrun := Session.run_feed hopen hne hfeed
        cases signal with
        | more =>
          obtain ⟨rfl, rfl⟩ := Prod.mk.inj hcode
          obtain rfl : n = bytes.length := hmore rfl
          rw [if_neg (lt_irrefl 0), if_neg (lt_irrefl 0)] at h
          cases h
          rw [hrun, List.drop_length]
          exact ⟨rfl, fun _ => hvalid.reads hfeed⟩
        | complete =>
          have hn : 0 < n := hpos nofun
          obtain ⟨rfl, hres⟩ := Prod.mk.inj hcode
          obtain rfl : res = (n : Int) := hres.trans (zero_add _)
          rw [if_neg (by omega), if_pos (by omega), Int.toNat_natCast] at h
          rw [hrun]
          refine ih (s := s.after message .complete) hopen valid_fresh ?_ h
          rw [List.length_drop]
          omega
        | reject =>
          obtain ⟨rfl, rfl⟩ := Prod.mk.inj hcode
          rw [if_pos (by decide)] at h
          cases h
          rw [hrun, Session.run_of_dropped rfl]
          exact ⟨rfl, nofun⟩

theorem readData_sound (hvalid : s.dropped = false → Valid (s.state framer))
    (h : readData s reads = some s') : s' = Session.run framer s reads.flatten := by
  induction reads generalizing s with
  | nil =>
    cases h
    rfl
  | cons bytes reads ih =>
    rw [readData] at h
    split at h
    · next hdropped =>
      cases h
      rw [Session.run_of_dropped hdropped]
    · next hnot =>
      have hopen := Bool.eq_false_iff.mpr hnot
      split at h
      · cases h
      · next m hloop =>
        obtain ⟨rfl, hvalid'⟩ := readLoop_sound hopen (hvalid hopen) (le_refl _) hloop
        rw [List.flatten_cons, Session.run_append]
        exact ih hvalid' h

theorem ShortFrom.after {front rest : Str} (h : ShortFrom s (front ++ rest)) :
    ShortFrom (Session.run framer s front) rest := by
  intro more hmore
  rw [← Session.run_append]
  exact h (front ++ more) ((List.prefix_append_right_inj front).mpr hmore)

theorem ShortFrom.front {front rest : Str} (h : ShortFrom s (front ++ rest)) : ShortFrom s front :=
  fun start hstart => h start (hstart.trans (List.prefix_append front rest))

theorem fits_of_shortFrom (hopen : s.dropped = false) (h : ShortFrom s bytes) : Fits (s.state framer) bytes := by
  intro front hfront d hreads hd
  cases front with
  | nil =>
    obtain rfl : s.state framer = d := (Prod.mk.inj hreads).1
    cases hcurrent : s.current with
    | none =>
      have hfresh : s.state framer = .fresh := by rw [Session.state, hcurrent]; rfl
      rw [hfresh]
      decide
    | some d =>
      have hstate : s.state framer = d := by rw [Session.state, hcurrent]; rfl
      rw [hstate] at hd ⊢
      exact h [] hfront d hcurrent hopen hd
  | cons b front =>
    have hrun := Session.run_feed hopen (List.cons_ne_nil b front) hreads
    rw [List.drop_length] at hrun
    refine h (b :: front) hfront d ?_ ?_ hd
    · rw [hrun]
      rfl
    · rw [hrun]
      exact hopen

theorem readLoop_total {fuel : Nat} (hopen : s.dropped = false) (hvalid : Valid (s.state framer))
    (h : ShortFrom s bytes) : ∃ s', readLoop fuel s bytes = some s' := by
  induction fuel generalizing s bytes with
  | zero => exact ⟨s, rfl⟩
  | succ fuel ih =>
    rw [readLoop]
    split
    · exact ⟨s, rfl⟩
    · obtain ⟨⟨message, res⟩, hadd⟩ := addBytes_total hvalid (fits_of_shortFrom hopen h)
      rw [hadd]
      dsimp only
      split
      · exact ⟨_, rfl⟩
      · split
        · next hres =>
          refine ih (s := s.after message .complete) hopen valid_fresh ?_
          have hdone := run_of_complete hopen hvalid hadd hres
          rw [← List.take_append_drop res.toNat bytes] at h
          have hafter := h.after
          rwa [hdone] at hafter
        · exact ⟨_, rfl⟩

theorem readData_total (hvalid : s.dropped = false → Valid (s.state framer))
    (h : ShortFrom s reads.flatten) : ∃ s', readData s reads = some s' := by
  induction reads generalizing s with
  | nil => exact ⟨s, rfl⟩
  | cons bytes reads ih =>
    rw [readData]
    split
    · exact ⟨s, rfl⟩
    · next hnot =>
      have hopen := Bool.eq_false_iff.mpr hnot
      rw [List.flatten_cons] at h
      obtain ⟨m, hloop⟩ : ∃ m, readLoop bytes.length s bytes = some m := readLoop_total hopen (hvalid hopen) h.front
      rw [hloop]
      obtain ⟨rfl, hvalid'⟩ := readLoop_sound hopen (hvalid hopen) (le_refl _) hloop
      exact ih hvalid' h.after

theorem shortFrom_nil
    (h : ∀ d, s.current = some d → s.dropped = false → d.collecting = false → d.content.length < 2147483648) :
    ShortFrom s [] := by
  intro front hfront
  obtain rfl := List.prefix_nil.mp hfront
  exact h

theorem shortFrom_cons {b : UInt8} {bytes : Str} (h : ShortFrom s [])
    (hrest : ShortFrom (Session.run framer s [b]) bytes) : ShortFrom s (b :: bytes) := by
  intro front hfront
  obtain rfl | ⟨more, rfl, hmore⟩ := List.prefix_cons_iff.mp hfront
  · exact h [] (List.prefix_refl [])
  · exact hrest more hmore

theorem shortFrom_readLoop {b : UInt8} (hvalid : Valid (s.state framer)) (h : readLoop 1 s [b] = some s') :
    ShortFrom s' [] := by
  rw [readLoop, if_neg (List.cons_ne_nil b [])] at h
  split at h
  · cases h
  · next message res hadd =>
    refine shortFrom_nil fun d hd hopen hline => ?_
    split at h
    · cases h
      cases hopen
    · split at h
      · cases h
        cases hd
      · obtain rfl : res = 0 := by omega
        cases h
        cases hd
        exact short_of_addBytes hvalid hadd hline

theorem shortFrom_of_readData {bytes : Str} (hvalid : s.dropped = false → Valid (s.state framer))
    (hshort : ShortFrom s []) (h : readData s (bytes.map fun b => [b]) = some s') : ShortFrom s bytes := by
  induction bytes generalizing s with
  | nil => exact hshort
  | cons b bytes ih =>
    rw [List.map_cons, readData] at h
    split at h
    · next hdropped =>
      intro front _ d _ hopen
      rw [Session.run_of_dropped hdropped, hdropped] at hopen
      cases hopen
    · next hnot =>
      have hopen := Bool.eq_false_iff.mpr hnot
      split at h
      · cases h
      · next m hloop =>
        have hnext := shortFrom_readLoop (hvalid hopen) hloop
        obtain ⟨rfl, hvalid'⟩ := readLoop_sound hopen (hvalid hopen) (le_refl _) hloop
        exact shortFrom_cons hshort (ih hvalid' hnext h)

theorem split_singles (stream : Str) : Split stream (stream.map fun b => [b]) where
  flatten := List.flatMap_singleton' stream
  size := by simp [clientBfrSize]

theorem short_of_independent {stream : Str} (h : Independent stream) : Short stream := by
  obtain ⟨s, -, hread, -⟩ := h _ _ (split_singles stream) (split_singles stream)
  exact shortFrom_of_readData (fun _ => valid_fresh) (shortFrom_nil nofun) hread

end

theorem independent_iff_short (stream : Str) : Independent stream ↔ Short stream := by
  constructor
  · exact short_of_independent
  · intro h reads reads' hsplit hsplit'
    have hvalid : (Session.empty : Session Decoder).dropped = false → Valid (Session.empty.state framer) :=
      fun _ => valid_fresh
    obtain ⟨s, hread⟩ := readData_total hvalid (hsplit.flatten ▸ h)
    obtain ⟨s', hread'⟩ := readData_total hvalid (hsplit'.flatten ▸ h)
    have hs := readData_sound hvalid hread
    have hs' := readData_sound hvalid hread'
    rw [hsplit.flatten] at hs
    rw [hsplit'.flatten] at hs'
    refine ⟨s, s', hread, hread', ?_, ?_⟩
    · rw [hs, hs']
    · rw [hs, hs']

section

variable {s : Session Decoder} {line : Str}

theorem readData_append (s : Session Decoder) (first second : List Str) :
    readData s (first ++ second) = (readData s first).bind fun s => readData s second := by
  induction first generalizing s with
  | nil => rfl
  | cons bytes first ih =>
    rw [List.cons_append, readData, readData]
    split
    · next hdropped =>
      cases second with
      | nil => rfl
      | cons bytes second => exact (if_pos hdropped).symm
    · split
      · rfl
      · exact ih _

theorem run_line (hne : line ≠ []) (hline : ∀ b ∈ line, b ≠ 10) :
    Session.run framer .empty line = Session.empty.after (Decoder.fresh.buffer line) .more := by
  have hreads := reads_buffer (d := .fresh) rfl hline
  rw [Session.run_feed (s := .empty) rfl hne hreads, List.drop_length]
  rfl

theorem length_of_short (hline : ∀ b ∈ line, b ≠ 10) {rest : Str} (h : Short (line ++ rest)) :
    line.length < 2147483648 :=
  fits_of_shortFrom rfl h line (List.prefix_append line rest) _ (reads_buffer rfl hline) rfl

theorem short_of_line (hline : ∀ b ∈ line, b ≠ 10) (hlength : line.length < 2147483648) : Short line := by
  intro front hfront d hd _ _
  cases front with
  | nil => cases hd
  | cons b front =>
    rw [run_line (List.cons_ne_nil b front) fun c hc => hline c (hfront.subset hc)] at hd
    cases hd
    exact lt_of_le_of_lt hfront.length_le hlength

theorem readData_firstLine {tail : Str} (hne : reads.flatten ≠ [])
    (hline : ∀ b ∈ reads.flatten ++ tail, b ≠ 10) (hlength : reads.flatten.length < 2147483648) :
    ∃ s, readData .empty (reads ++ [tail ++ [10]]) = some s ∧ s.done = [] ∧ s.dropped = false := by
  obtain ⟨hfront, htail⟩ := List.forall_mem_append.mp hline
  have hvalid : (Session.empty : Session Decoder).dropped = false → Valid (Session.empty.state framer) :=
    fun _ => valid_fresh
  obtain ⟨m, hm⟩ := readData_total hvalid (short_of_line hfront hlength)
  have hrun := readData_sound hvalid hm
  rw [run_line hne hfront] at hrun
  have hadd : addBytes (Decoder.fresh.buffer reads.flatten) (tail ++ [10]) = some (_, 0) :=
    addBytes_firstLine rfl rfl htail
  have hstate : m.state framer = Decoder.fresh.buffer reads.flatten := congrArg (Session.state framer) hrun
  have hopen : m.dropped = false := congrArg Session.dropped hrun
  have hne' : tail ++ [10] ≠ [] := List.append_ne_nil_of_right_ne_nil tail (List.cons_ne_nil 10 [])
  rw [readData_append, hm, Option.bind_some, readData, if_neg (Bool.eq_false_iff.mp hopen), List.length_append,
    List.length_singleton, readLoop, if_neg hne', hstate, hadd]
  exact ⟨_, rfl, congrArg Session.done hrun, hopen⟩

/-- A line that is too long is not read one byte at a time. -/
theorem readData_longLine (hline : ∀ b ∈ line, b ≠ 10) (hlong : 2147483648 ≤ line.length) (rest : Str) :
    readData .empty ((line ++ rest).map fun b => [b]) = none ∧ ¬Independent (line ++ rest) := by
  have hnot : ¬Short (line ++ rest) := fun h => absurd (length_of_short hline h) (Nat.not_lt.mpr hlong)
  refine ⟨?_, fun h => hnot (short_of_independent h)⟩
  by_contra hsome
  obtain ⟨s, hs⟩ := Option.ne_none_iff_exists'.mp hsome
  exact hnot (shortFrom_of_readData (fun _ => valid_fresh) (shortFrom_nil nofun) hs)

/-- The newline after a first line that is too long comes with some of the line, or alone. -/
theorem differ_of_longLine {n k : Nat} (hn : 1 + k * 512 + 511 = n) (hlong : 2147483648 ≤ n)
    (hk : 1 + k * 512 < 2147483648) : ∃ stream reads reads', Split stream reads ∧ Split stream reads' ∧
      (∃ s, readData .empty reads = some s ∧ s.done = [] ∧ s.dropped = false) ∧ readData .empty reads' = none ∧
      ¬Independent stream := by
  have hbytes : ∀ b ∈ List.replicate n (97 : UInt8), b ≠ 10 := by
    intro b hb
    rw [List.eq_of_mem_replicate hb]
    decide
  have hfront : ([97] :: List.replicate k (List.replicate 512 97)).flatten =
      List.replicate (1 + k * 512) (97 : UInt8) := by
    rw [List.flatten_cons, List.flatten_replicate_replicate, ← List.replicate_one, List.replicate_append_replicate]
  have hline : ([97] :: List.replicate k (List.replicate 512 97)).flatten ++ List.replicate 511 97 =
      List.replicate n (97 : UInt8) := by
    rw [hfront, List.replicate_append_replicate, hn]
  have hlength : ([97] :: List.replicate k (List.replicate 512 (97 : UInt8))).flatten.length < 2147483648 := by
    rwa [hfront, List.length_replicate]
  have hsplit : Split (List.replicate n 97 ++ [10])
      (([97] :: List.replicate k (List.replicate 512 97)) ++ [List.replicate 511 97 ++ [10]]) := by
    constructor
    · rw [List.flatten_append, List.flatten_singleton, ← List.append_assoc, hline]
    · intro bytes hmem
      rw [List.mem_append, List.mem_cons, List.mem_singleton] at hmem
      obtain (rfl | hmem) | rfl := hmem
      · decide
      · rw [List.eq_of_mem_replicate hmem, List.length_replicate]
        decide
      · rw [List.length_append, List.length_replicate]
        decide
  obtain ⟨hnone, hnot⟩ := readData_longLine hbytes (by rwa [List.length_replicate]) [10]
  exact ⟨_, _, _, hsplit, split_singles _, readData_firstLine (List.cons_ne_nil _ _) (by rwa [hline]) hlength, hnone,
    hnot⟩

end

/-- A first line of 2147483648 bytes. -/
theorem not_independent_longLine : ∃ stream reads reads', Split stream reads ∧ Split stream reads' ∧
    (∃ s, readData .empty reads = some s ∧ s.done = [] ∧ s.dropped = false) ∧ readData .empty reads' = none ∧
    ¬Independent stream :=
  differ_of_longLine (n := 2147483648) (k := 4194303) (by decide) (by decide) (by decide)

end Abacus.Client.Reading
