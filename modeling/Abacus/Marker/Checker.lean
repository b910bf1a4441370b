import Abacus.Library.Lines
import Abacus.Misc

/-! # The verdict of a checker

A checker prints a line with the word STATUS, the code of the result and a comment.
`parse_checker` reads each line of the output as a stream of its own.
-/

namespace Abacus.Marker.Checker

open Library.Bytes Library.Lines Misc

/-- An `istringstream`: what is left of its text, and its two flags. -/
structure Stream where
  rest : Str
  eof : Bool
  fail : Bool

def Stream.ofText (s : Str) : Stream := { rest := s, eof := false, fail := false }

def Stream.good (s : Stream) : Bool := !s.eof && !s.fail

/-- `>>` into a string, which keeps its old value where there is no word. -/
def Stream.word (s : Stream) (old : Str) : Str × Stream :=
  if ¬s.good then (old, { s with fail := true })
  else
    let rest := s.rest.dropWhile isSpace
    let after := rest.dropWhile fun b => !isSpace b
    if rest = [] then (old, { rest := [], eof := true, fail := true })
    else (rest.takeWhile fun b => !isSpace b, { rest := after, eof := after = [], fail := false })

/-- `>> ws`, which does not fail at the end. -/
def Stream.ws (s : Stream) : Stream :=
  let rest := s.rest.dropWhile isSpace
  { s with rest, eof := s.eof || rest = [] }

/-- `getline`, which does not touch its string on a stream that is not good. -/
def Stream.getline (s : Stream) (old : Str) : Str × Stream :=
  if ¬s.good then (old, { s with fail := true })
  else
    match s.rest.dropWhile (· ≠ 10) with
    | [] => (s.rest, { rest := [], eof := true, fail := s.rest = [] })
    | _ :: after => (s.rest.takeWhile (· ≠ 10), { rest := after, eof := false, fail := false })

inductive RunResult
  | correct
  | wrong
  | timeExceeded
  | abnormal
  | compileFailed
  | judge
  | formatError
  | other
  deriving DecidableEq

def runCode : RunResult → Str
  | .correct => str "CORRECT"
  | .wrong => str "WRONG"
  | .timeExceeded => str "TIME_EXCEEDED"
  | .abnormal => str "ABNORMAL"
  | .compileFailed => str "COMPILE_FAILED"
  | .judge => str "JUDGE"
  | .formatError => str "FORMAT_ERROR"
  | .other => str "OTHER"

def results : List RunResult :=
  [.correct, .wrong, .timeExceeded, .abnormal, .compileFailed, .judge, .formatError, .other]

def resultOf (code : Str) : Option RunResult := results.find? fun r => code = runCode r

/-- The loop over the lines, with `found`, `status` and `info` as they stand before a line. -/
def parseLines (found : Bool) (status : RunResult) (info : Str) : List Str → RunResult × Str
  | [] => if ¬found then (.other, str "Did not find STATUS line") else (status, info)
  | line :: rest =>
    let (tok, toks) := (Stream.ofText line).word []
    if ¬toks.fail ∧ tok = str "STATUS" then
      let (statusStr, toks) := toks.word []
      let toks := toks.ws
      if toks.fail then (.other, str "Invalid formatting on STATUS line")
      else
        let (info, _) := toks.getline info
        match resultOf statusStr with
        | none => (.other, str "Unrecognised status code")
        | some status => if found then (.other, str "Multiple STATUS lines found") else parseLines true status info rest
    else parseLines found status info rest

def parseChecker (text : Str) : RunResult × Str := parseLines false .other [] (lines 10 text)

section

def firstToken (s : Str) : Str := (s.dropWhile isSpace).takeWhile fun b => !isSpace b

def afterToken (s : Str) : Str := (s.dropWhile isSpace).dropWhile fun b => !isSpace b

def isStatusLine (line : Str) : Bool := firstToken line = str "STATUS"

def secondToken (line : Str) : Str := firstToken (afterToken line)

/-- What follows the second token and the white space after it. -/
def comment (line : Str) : Str := (afterToken (afterToken line)).dropWhile isSpace

variable {line : Str}

theorem firstToken_eq_nil_iff {s : Str} : firstToken s = [] ↔ s.dropWhile isSpace = [] := by
  unfold firstToken
  constructor
  · intro h
    cases hrest : s.dropWhile isSpace with
    | nil => rfl
    | cons b rest =>
      have hb : isSpace b = false := of_dropWhile_eq_cons hrest
      rw [hrest, List.takeWhile_cons_of_pos (by rw [hb]; rfl)] at h
      cases h
  · intro h
    rw [h]
    rfl

theorem word_of_good {s : Stream} (h : s.good = true) (old : Str) :
    s.word old = if firstToken s.rest = [] then (old, { rest := [], eof := true, fail := true })
      else (firstToken s.rest, { rest := afterToken s.rest, eof := afterToken s.rest = [], fail := false }) := by
  unfold Stream.word
  rw [if_neg (not_not.mpr h)]
  simp only [firstToken_eq_nil_iff]
  rfl

theorem getline_of_good {s : Stream} (h : s.good = true) (hline : 10 ∉ s.rest) (old : Str) :
    (s.getline old).1 = s.rest := by
  have hall : s.rest.dropWhile (· ≠ 10) = [] :=
    List.dropWhile_eq_nil_iff.mpr fun b hb => decide_eq_true fun heq => hline (heq ▸ hb)
  unfold Stream.getline
  rw [if_neg (not_not.mpr h), hall]

theorem isStatusLine_iff : isStatusLine line = true ↔ firstToken line = str "STATUS" := decide_eq_true_iff

theorem mem_of_mem_afterToken {s : Str} {b : UInt8} (h : b ∈ afterToken s) : b ∈ s :=
  (List.dropWhile_sublist _).subset ((List.dropWhile_sublist _).subset h)

def Stream.after (s : Str) : Stream := { rest := s, eof := s = [], fail := false }

theorem word_after (s old : Str) : (Stream.after s).word old =
    if firstToken s = [] then (old, { rest := [], eof := true, fail := true })
      else (firstToken s, Stream.after (afterToken s)) := by
  by_cases hnil : s = []
  · subst hnil
    rfl
  · have hgood : (Stream.after s).good = true := by simp [Stream.good, Stream.after, hnil]
    exact word_of_good hgood old

theorem getline_ws_after {s : Str} (hline : 10 ∉ s) (old : Str) :
    ((Stream.after s).ws.getline old).1 = if s.dropWhile isSpace = [] then old else s.dropWhile isSpace := by
  by_cases hnil : s.dropWhile isSpace = []
  · have hbad : ¬(Stream.after s).ws.good = true := by simp [Stream.good, Stream.ws, Stream.after, hnil]
    rw [if_pos hnil, Stream.getline, if_pos hbad]
  · have hne : s ≠ [] := by
      rintro rfl
      exact hnil rfl
    have hgood : (Stream.after s).ws.good = true := by simp [Stream.good, Stream.ws, Stream.after, hnil, hne]
    rw [if_neg hnil, getline_of_good hgood fun h => hline ((List.dropWhile_sublist _).subset h)]
    rfl

theorem parseLines_cons (hline : 10 ∉ line) (found : Bool) (status : RunResult) (info : Str) (rest : List Str) :
    parseLines found status info (line :: rest) =
      if isStatusLine line then
        if secondToken line = [] then (.other, str "Invalid formatting on STATUS line")
        else
          match resultOf (secondToken line) with
          | none => (.other, str "Unrecognised status code")
          | some status =>
            if found then (.other, str "Multiple STATUS lines found")
            else parseLines true status (if comment line = [] then info else comment line) rest
      else parseLines found status info rest := by
  have hfirst : (Stream.ofText line).word [] =
      if firstToken line = [] then ([], { rest := [], eof := true, fail := true })
      else (firstToken line, Stream.after (afterToken line)) := word_of_good rfl []
  rw [parseLines, hfirst]
  by_cases hstatus : isStatusLine line = true
  · have htoken := isStatusLine_iff.mp hstatus
    have hne : firstToken line ≠ [] := by
      rw [htoken]
      decide
    rw [if_neg hne, if_pos hstatus]
    dsimp only
    rw [if_pos ⟨Bool.false_ne_true, htoken⟩, word_after]
    by_cases hsecond : firstToken (afterToken line) = []
    · rw [if_pos hsecond, secondToken, if_pos hsecond]
      rfl
    · have hrest : 10 ∉ afterToken (afterToken line) := fun h => hline (mem_of_mem_afterToken (mem_of_mem_afterToken h))
      rw [if_neg hsecond, secondToken, if_neg hsecond]
      dsimp only
      rw [getline_ws_after hrest]
      rfl
  · rw [if_neg hstatus]
    have hno : ¬firstToken line = str "STATUS" := fun h => hstatus (isStatusLine_iff.mpr h)
    by_cases hnil : firstToken line = []
    · rw [if_pos hnil]
      exact if_neg fun h => h.1 rfl
    · rw [if_neg hnil]
      exact if_neg fun h => hno h.2

end

section

variable {c status : RunResult} {info info' : Str} {ls : List Str}

theorem resultOf_runCode (r : RunResult) : resultOf (runCode r) = some r := by
  cases r <;> decide

theorem runCode_of_resultOf {code : Str} (h : resultOf code = some c) : code = runCode c := by
  have hfound := List.find?_some h
  exact of_decide_eq_true hfound

theorem runCode_ne_nil (r : RunResult) : runCode r ≠ [] := by
  cases r <;> decide

theorem parseLines_found (hls : ∀ l ∈ ls, 10 ∉ l) (hc : c ≠ .other) :
    parseLines true status info ls = (c, info') ↔ ls.filter isStatusLine = [] ∧ status = c ∧ info = info' := by
  induction ls with
  | nil => simp [parseLines]
  | cons line ls ih =>
    obtain ⟨hline, hls⟩ := List.forall_mem_cons.mp hls
    rw [parseLines_cons hline]
    by_cases hstatus : isStatusLine line = true
    · rw [if_pos hstatus, List.filter_cons_of_pos hstatus]
      refine iff_of_false ?_ (by simp)
      split
      · exact fun h => hc (congrArg Prod.fst h).symm
      · split
        · exact fun h => hc (congrArg Prod.fst h).symm
        · exact fun h => hc (congrArg Prod.fst h).symm
    · rw [if_neg hstatus, List.filter_cons_of_neg hstatus]
      exact ih hls

theorem parseLines_not_found (hls : ∀ l ∈ ls, 10 ∉ l) (hc : c ≠ .other) :
    parseLines false status [] ls = (c, info) ↔
      ∃ line, ls.filter isStatusLine = [line] ∧ secondToken line = runCode c ∧ info = comment line := by
  induction ls with
  | nil =>
    refine iff_of_false (fun h => hc (congrArg Prod.fst h).symm) ?_
    rintro ⟨line, h, -⟩
    cases h
  | cons line ls ih =>
    obtain ⟨hline, hls⟩ := List.forall_mem_cons.mp hls
    rw [parseLines_cons hline]
    by_cases hstatus : isStatusLine line = true
    · have hone : (∃ l, line :: ls.filter isStatusLine = [l] ∧ secondToken l = runCode c ∧ info = comment l) ↔
          ls.filter isStatusLine = [] ∧ secondToken line = runCode c ∧ info = comment line := by
        constructor
        · rintro ⟨l, hl, h⟩
          obtain ⟨rfl, hnil⟩ := List.cons.inj hl
          exact ⟨hnil, h⟩
        · rintro ⟨hnil, h⟩
          exact ⟨line, by rw [hnil], h⟩
      rw [if_pos hstatus, List.filter_cons_of_pos hstatus, hone]
      by_cases hsecond : secondToken line = []
      · rw [if_pos hsecond]
        exact iff_of_false (fun h => hc (congrArg Prod.fst h).symm) fun h => runCode_ne_nil c (h.2.1.symm.trans hsecond)
      · rw [if_neg hsecond]
        cases hresult : resultOf (secondToken line) with
        | none =>
          refine iff_of_false (fun h => hc (congrArg Prod.fst h).symm) fun h => ?_
          rw [h.2.1, resultOf_runCode] at hresult
          cases hresult
        | some result =>
          have hcomment : (if comment line = [] then [] else comment line) = comment line := by
            split
            · next hnil => exact hnil.symm
            · rfl
          dsimp only
          rw [if_neg Bool.false_ne_true, hcomment, parseLines_found hls hc, runCode_of_resultOf hresult,
            eq_comm (a := info)]
          have hcode : runCode result = runCode c ↔ result = c := by
            constructor
            · intro h
              have hsome := resultOf_runCode result
              rw [h, resultOf_runCode] at hsome
              exact (Option.some.inj hsome).symm
            · rintro rfl
              rfl
          rw [hcode]
    · rw [if_neg hstatus, List.filter_cons_of_neg hstatus]
      exact ih hls

/-- A result other than OTHER comes from the one line with the word STATUS, and the comment is the rest of that line. -/
theorem parseChecker_eq_iff (text : Str) (c : RunResult) (hc : c ≠ .other) (info : Str) :
    parseChecker text = (c, info) ↔
      ∃ line, (lines 10 text).filter isStatusLine = [line] ∧ secondToken line = runCode c ∧ info = comment line :=
  parseLines_not_found (fun _ h => notMem_of_mem_lines h) hc

/-- The word STATUS elsewhere on a line does not count. -/
theorem parseChecker_wrong : parseChecker (str "checking STATUS\n STATUS  WRONG \tline 3: 5 instead of 4\nbye") =
    (.wrong, str "line 3: 5 instead of 4") :=
  (parseChecker_eq_iff (str "checking STATUS\n STATUS  WRONG \tline 3: 5 instead of 4\nbye") .wrong (by decide)
    (str "line 3: 5 instead of 4")).mpr
    ⟨str " STATUS  WRONG \tline 3: 5 instead of 4", by decide +kernel, by decide +kernel, by decide +kernel⟩

end

end Abacus.Marker.Checker
