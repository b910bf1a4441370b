import Abacus.Library.Lines
import Abacus.Standings.Update

/-! # The report of a run

`runlimit` writes how the program ended and how long it ran, one line each, and `RunInfo`
reads the lines. The time is added up in microseconds in 32 bits.
-/

namespace Abacus.Marker.RunInfo

open Library.Bytes Library.Lines Misc Database.Schema Standings.Update

structure Timeval where
  sec : Nat
  usec : Nat
  deriving DecidableEq

structure Rusage where
  utime : Timeval
  stime : Timeval
  deriving DecidableEq

def wifexited (status : Nat) : Bool := status % 128 = 0

def wexitstatus (status : Nat) : Nat := status / 256 % 256

def wifsignaled (status : Nat) : Bool := 0 < status % 128 && status % 128 < 127

def wtermsig (status : Nat) : Nat := status % 128

/-- `strsignal` may have no name for a signal. -/
def termReason (strsignal : Nat → Option Str) (status : Nat) : Str :=
  if wifexited status then str "normal excode=" ++ decimal (wexitstatus status)
  else if wifsignaled status then
    str "signal signum=" ++ decimal (wtermsig status) ++ str " signame=" ++
      (strsignal (wtermsig status)).getD (str "unknown")
  else str "unknown"

def totaltime (usage : Rusage) : Nat :=
  let total := wrap32 (0 + usage.utime.sec * 1000000)
  let total := wrap32 (total + usage.stime.sec * 1000000)
  let total := wrap32 (total + usage.utime.usec)
  let total := wrap32 (total + usage.stime.usec)
  wrap32 (total + 500) / 1000

def timeReason (cputime : Nat) (realtimeFired : Bool) (total : Nat) : Str :=
  if realtimeFired then str "realtime_exceeded"
  else if cputime ≠ 0 ∧ total > cputime then str "cpu_exceeded"
  else str "ok"

def infmsg (msg : Str) : Str := str "RUNINF " ++ msg ++ [10]

structure Note where
  debug : Bool
  msg : Str
  oneLine : 10 ∉ msg

def Note.line (n : Note) : Str := str (if n.debug then "RUNDBG " else "RUNERR ") ++ n.msg ++ [10]

structure Ended where
  status : Nat
  usage : Rusage
  realtimeFired : Bool

def report (strsignal : Nat → Option Str) (cputime : Nat) (notes : List Note) (e : Ended) : Str :=
  notes.flatMap Note.line ++ infmsg (str "TERM " ++ termReason strsignal e.status) ++
    infmsg (str "TIME " ++ decimal (totaltime e.usage) ++ str " " ++
      timeReason cputime e.realtimeFired (totaltime e.usage))

structure Info where
  time : Nat := 0
  timeExceeded : Bool := false
  cpuExceeded : Bool := false
  realTimeExceeded : Bool := false
  exitCode : Int := -1
  signal : Int := -1
  signalName : Option Str := none
  normalTerm : Bool := false
  signalTerm : Bool := false
  deriving DecidableEq

def literal (lit s : Str) : Option Str := if lit.isPrefixOf s then some (s.drop lit.length) else none

/-- `%d` and `%u` before the number is cut to its type: white space, a sign and digits. -/
def scanNumber (s : Str) : Option (Int × Str) :=
  let body := s.dropWhile isSpace
  let (negative, digits) :=
    match body with
    | 45 :: rest => (true, rest)
    | 43 :: rest => (false, rest)
    | rest => (false, rest)
  if digits.takeWhile isDigit = [] then none
  else
    let value : Int := digitsValue (digits.takeWhile isDigit)
    some (if negative then -value else value, digits.dropWhile isDigit)

/-- `%s`, or `%as` as an extension that allocates the word. -/
def scanWord (s : Str) : Option Str :=
  let word := (s.dropWhile isSpace).takeWhile fun b => !isSpace b
  if word = [] then none else some word

/-- `sscanf` with `"%u %s"`; the word stays what it was where it is not reached. -/
def scanTime (time : Nat) (reason s : Str) : Nat × Str :=
  match scanNumber s with
  | none => (time, reason)
  | some (n, rest) => (toU32 n, (scanWord rest).getD reason)

def readTime (garbage : Str) (info : Info) (s : Str) : Info :=
  let (time, reason) := scanTime info.time garbage s
  let info := { info with time }
  if reason = str "ok" then info
  else if reason = str "cpu_exceeded" then { info with timeExceeded := true, cpuExceeded := true }
  else if reason = str "realtime_exceeded" then { info with timeExceeded := true, realTimeExceeded := true }
  else { info with timeExceeded := true }

def scanExcode (exitCode : Int) (s : Str) : Int :=
  match (literal (str "excode=") s).bind scanNumber with
  | none => exitCode
  | some (n, _) => int32 n

/-- `sscanf` with `"signum=%d signame=%as"`. -/
def scanSignal (info : Info) (s : Str) : Info :=
  match (literal (str "signum=") s).bind scanNumber with
  | none => info
  | some (n, rest) =>
    { info with
      signal := int32 n
      signalName := ((literal (str "signame=") (rest.dropWhile isSpace)).bind scanWord).or info.signalName }

def readTerm (info : Info) (termType : Str) : Info :=
  if (str "normal").isPrefixOf termType then
    { info with exitCode := scanExcode info.exitCode (termType.drop 7), normalTerm := true }
  else if (str "signal").isPrefixOf termType then { scanSignal info (termType.drop 7) with signalTerm := true }
  else info

/-- A line is read as a C string. The other lines are only logged. -/
def readLine (garbage : Str) (info : Info) (theLine : Str) : Info :=
  let line := text theLine
  if (str "RUNINF").isPrefixOf line then
    let sub := line.drop 7
    if (str "TIME").isPrefixOf sub then readTime garbage info (sub.drop 5)
    else if (str "TERM").isPrefixOf sub then readTerm info (sub.drop 5)
    else info
  else info

/-- The buffer for the reason is not initialised; `garbage` is what it holds. -/
def ofFile (garbage content : Str) : Info := (lines 10 content).foldl (readLine garbage) {}

variable {b : UInt8}

section

variable {n : Nat} {rest garbage line : Str} {info : Info}

theorem literal_append (lit s : Str) : literal lit (lit ++ s) = some s := by
  have hstart : lit.isPrefixOf (lit ++ s) = true := List.isPrefixOf_iff_prefix.mpr (List.prefix_append lit s)
  rw [literal, if_pos hstart, List.drop_left]

theorem scanNumber_decimal (hrest : ∀ b ∈ rest.head?, isDigit b = false) (n : Nat) :
    scanNumber (decimal n ++ rest) = some ((n : Int), rest) := by
  have hall : ∀ b ∈ decimal n, isDigit b = true := List.all_eq_true.mp (all_isDigit_decimalDigits n n)
  have hvalue : digitsValue (decimal n) = n := digitsValue_decimalDigits (le_refl n)
  have hstop : rest.takeWhile isDigit = [] ∧ rest.dropWhile isDigit = rest := by
    cases rest with
    | nil => exact ⟨rfl, rfl⟩
    | cons b rest =>
      have hb := hrest b rfl
      exact ⟨List.takeWhile_cons_of_neg (by simp [hb]), List.dropWhile_cons_of_neg (by simp [hb])⟩
  have htake : (decimal n ++ rest).takeWhile isDigit = decimal n := by
    rw [List.takeWhile_append_of_pos hall, hstop.1, List.append_nil]
  have hdrop : (decimal n ++ rest).dropWhile isDigit = rest := by
    rw [List.dropWhile_append_of_pos hall, hstop.2]
  have hne : decimal n ≠ [] := decimalDigits_ne_nil n n
  obtain ⟨b, digits, hcons⟩ := List.exists_cons_of_ne_nil hne
  have hb : isDigit b = true := hall b (hcons ▸ .head digits)
  obtain ⟨hspace, h45, h43⟩ := of_isDigit hb
  have hbody : (decimal n ++ rest).dropWhile isSpace = decimal n ++ rest := by
    rw [hcons, List.cons_append]
    exact List.dropWhile_cons_of_neg (by rw [hspace]; exact Bool.false_ne_true)
  unfold scanNumber
  rw [hbody]
  dsimp only
  split
  · next heq =>
    rw [hcons] at heq
    exact absurd (List.cons.inj heq).1 h45
  · next heq =>
    rw [hcons] at heq
    exact absurd (List.cons.inj heq).1 h43
  · rw [htake, hdrop, if_neg hne, hvalue]
    rfl

theorem int32_natCast (h : n < 256) : int32 (n : Int) = n := Int.bmod_eq_of_le (by omega) (by omega)

theorem scanExcode_decimal (h : n < 256) (exitCode : Int) : scanExcode exitCode (str "excode=" ++ decimal n) = n := by
  have hend : ∀ b ∈ ([] : Str).head?, isDigit b = false := by simp
  have hread := scanNumber_decimal hend n
  rw [List.append_nil] at hread
  rw [scanExcode, literal_append, Option.bind_some, hread]
  exact int32_natCast h

theorem signal_scanSignal (h : n < 256) (info : Info) (name : Str) :
    (scanSignal info (str "signum=" ++ (decimal n ++ (str " signame=" ++ name)))).signal = n := by
  have hread : scanNumber (decimal n ++ (str " signame=" ++ name)) = some ((n : Int), str " signame=" ++ name) :=
    scanNumber_decimal (by rintro b ⟨⟩; rfl) n
  simp only [scanSignal, literal_append, Option.bind_some, hread]
  exact int32_natCast h

theorem text_of_notMem (h : 0 ∉ line) : text line = line :=
  List.takeWhile_eq_self_iff.mpr fun _ hb => decide_eq_true fun hzero => h (hzero ▸ hb)

theorem text_append (h : 0 ∉ line) (rest : Str) : text (line ++ rest) = line ++ text rest :=
  List.takeWhile_append_of_pos fun _ hb => decide_eq_true fun hzero => h (hzero ▸ hb)

theorem readLine_of_start {start : Str} (hzero : 0 ∉ start)
    (hstart : ∀ rest, (str "RUNINF").isPrefixOf (start ++ rest) = false)
    (rest : Str) : readLine garbage info (start ++ rest) = info := by
  have hother : ¬(str "RUNINF").isPrefixOf (start ++ text rest) = true := by
    rw [hstart]
    exact Bool.false_ne_true
  unfold readLine
  rw [text_append hzero]
  exact if_neg hother

theorem readLine_note (n : Note) :
    readLine garbage info (str (if n.debug then "RUNDBG " else "RUNERR ") ++ n.msg) = info := by
  cases n.debug with
  | false | true => exact readLine_of_start (by decide) (fun _ => rfl) n.msg

theorem readLine_term {termType : Str} (h : 0 ∉ termType) :
    readLine garbage info (str "RUNINF TERM " ++ termType) = readTerm info termType := by
  have htext : text (str "RUNINF TERM " ++ termType) = str "RUNINF TERM " ++ termType := by
    rw [text_append (by decide), text_of_notMem h]
  unfold readLine
  rw [htext]
  rfl

theorem readLine_time {s : Str} (h : 0 ∉ s) :
    readLine garbage info (str "RUNINF TIME " ++ s) = readTime garbage info s := by
  have htext : text (str "RUNINF TIME " ++ s) = str "RUNINF TIME " ++ s := by
    rw [text_append (by decide), text_of_notMem h]
  unfold readLine
  rw [htext]
  rfl

theorem foldl_notes (notes : List Note) (rest : Str) :
    (lines 10 (notes.flatMap Note.line ++ rest)).foldl (readLine garbage) info =
      (lines 10 rest).foldl (readLine garbage) info := by
  induction notes with
  | nil => rfl
  | cons n notes ih =>
    have hline : 10 ∉ str (if n.debug then "RUNDBG " else "RUNERR ") ++ n.msg := by
      rw [List.mem_append, not_or]
      refine ⟨?_, n.oneLine⟩
      cases n.debug <;> decide
    rw [List.flatMap_cons, Note.line, List.append_assoc, List.append_assoc, List.singleton_append,
      lines_append_sep hline, List.foldl_cons, readLine_note, ih]

theorem notMem_decimal (h : isDigit b = false) (n : Nat) : b ∉ decimal n := by
  intro hb
  have hdigit := List.all_eq_true.mp (all_isDigit_decimalDigits n n) b hb
  rw [h] at hdigit
  cases hdigit

theorem notMem_timeReason (h : b = 0 ∨ b = 10) (cputime : Nat) (realtimeFired : Bool) (total : Nat) :
    b ∉ timeReason cputime realtimeFired total := by
  unfold timeReason
  obtain rfl | rfl := h
  · split
    · decide
    · split <;> decide
  · split
    · decide
    · split <;> decide

def timeText (cputime : Nat) (e : Ended) : Str :=
  decimal (totaltime e.usage) ++ (str " " ++ timeReason cputime e.realtimeFired (totaltime e.usage))

theorem notMem_timeText (h : b = 0 ∨ b = 10) (cputime : Nat) (e : Ended) : b ∉ timeText cputime e := by
  have hplain : isDigit b = false ∧ b ∉ str " " := by
    obtain rfl | rfl := h <;> decide
  rw [timeText, List.mem_append, List.mem_append, not_or, not_or]
  exact ⟨notMem_decimal hplain.1 _, hplain.2, notMem_timeReason h _ _ _⟩

/-- The notes are passed over, and two lines are left. -/
theorem ofFile_report (strsignal : Nat → Option Str) (cputime : Nat) (notes : List Note) (e : Ended)
    (hline : 10 ∉ termReason strsignal e.status) (hzero : 0 ∉ termReason strsignal e.status) :
    ofFile garbage (report strsignal cputime notes e) =
      readTime garbage (readTerm {} (termReason strsignal e.status)) (timeText cputime e) := by
  have hterm : 10 ∉ str "RUNINF TERM " ++ termReason strsignal e.status := by
    rw [List.mem_append, not_or]
    exact ⟨by decide, hline⟩
  have htime : 10 ∉ str "RUNINF TIME " ++ timeText cputime e := by
    rw [List.mem_append, not_or]
    exact ⟨by decide, notMem_timeText (.inr rfl) cputime e⟩
  have hreport : report strsignal cputime notes e = notes.flatMap Note.line ++
      ((str "RUNINF TERM " ++ termReason strsignal e.status) ++ 10 ::
          ((str "RUNINF TIME " ++ timeText cputime e) ++ 10 :: [])) := by
    have hterm : str "RUNINF TERM " = str "RUNINF " ++ str "TERM " := by decide
    have htime : str "RUNINF TIME " = str "RUNINF " ++ str "TIME " := by decide
    simp only [report, infmsg, timeText, hterm, htime, List.append_assoc, List.singleton_append]
  rw [ofFile, hreport, foldl_notes, lines_append_sep hterm, lines_append_sep htime, List.foldl_cons, List.foldl_cons,
    readLine_term hzero, readLine_time (notMem_timeText (.inl rfl) cputime e)]
  exact List.foldl_nil

theorem scanTime_timeText (time cputime : Nat) (e : Ended) :
    scanTime time garbage (timeText cputime e) =
      (toU32 (totaltime e.usage), timeReason cputime e.realtimeFired (totaltime e.usage)) := by
  have hread : scanNumber (timeText cputime e) =
      some ((totaltime e.usage : Int), str " " ++ timeReason cputime e.realtimeFired (totaltime e.usage)) :=
    scanNumber_decimal (by rintro b ⟨⟩; rfl) _
  have hword : scanWord (str " " ++ timeReason cputime e.realtimeFired (totaltime e.usage)) =
      some (timeReason cputime e.realtimeFired (totaltime e.usage)) := by
    unfold timeReason
    split
    · rfl
    · split <;> rfl
  rw [scanTime, hread]
  dsimp only
  rw [hword]
  rfl

end

def microseconds (usage : Rusage) : Nat :=
  (usage.utime.sec + usage.stime.sec) * 1000000 + usage.utime.usec + usage.stime.usec

def nearest (usage : Rusage) : Nat := (microseconds usage + 500) / 1000

theorem totaltime_eq (usage : Rusage) : totaltime usage = (microseconds usage + 500) % 4294967296 / 1000 := by
  simp only [totaltime, microseconds, wrap32]
  omega

/-- The reader has found out how the program ended, how long it ran and whether that was too long. -/
structure Recovered (cputime : Nat) (e : Ended) (info : Info) : Prop where
  exited : wifexited e.status = true →
    info.normalTerm = true ∧ info.signalTerm = false ∧ info.exitCode = wexitstatus e.status
  signaled : wifsignaled e.status = true →
    info.normalTerm = false ∧ info.signalTerm = true ∧ info.signal = wtermsig e.status
  time : info.time = nearest e.usage
  timeExceeded : info.timeExceeded = true ↔ e.realtimeFired = true ∨ cputime ≠ 0 ∧ cputime < nearest e.usage

theorem readTime_of_scan {garbage s reason : Str} {info : Info} {time : Nat}
    (h : scanTime info.time garbage s = (time, reason)) :
    readTime garbage info s = if reason = str "ok" then { info with time }
      else if reason = str "cpu_exceeded" then { info with time, timeExceeded := true, cpuExceeded := true }
      else if reason = str "realtime_exceeded" then { info with time, timeExceeded := true, realTimeExceeded := true }
      else { info with time, timeExceeded := true } := by
  rw [readTime, h]

theorem readTime_timeText (garbage : Str) (info : Info) (cputime : Nat) (e : Ended)
    (hinfo : info.timeExceeded = false) : (readTime garbage info (timeText cputime e)).time = totaltime e.usage ∧
      ((readTime garbage info (timeText cputime e)).timeExceeded = true ↔
        e.realtimeFired = true ∨ cputime ≠ 0 ∧ cputime < totaltime e.usage) ∧
      (readTime garbage info (timeText cputime e)).normalTerm = info.normalTerm ∧
      (readTime garbage info (timeText cputime e)).signalTerm = info.signalTerm ∧
      (readTime garbage info (timeText cputime e)).exitCode = info.exitCode ∧
      (readTime garbage info (timeText cputime e)).signal = info.signal := by
  have htime : toU32 (totaltime e.usage) = totaltime e.usage := by
    have hlt : totaltime e.usage < 4294967296 := by
      rw [totaltime_eq]
      omega
    rw [toU32]
    omega
  rw [readTime_of_scan (scanTime_timeText info.time cputime e), htime]
  -- The kernel would evaluate the number whenever it compares its digits.
  generalize totaltime e.usage = total
  cases e.realtimeFired with
  | true =>
    rw [timeReason, if_pos rfl, if_neg (by decide), if_neg (by decide), if_pos rfl]
    exact ⟨rfl, iff_of_true rfl (.inl rfl), rfl, rfl, rfl, rfl⟩
  | false =>
    rw [timeReason, if_neg Bool.false_ne_true]
    by_cases hover : cputime ≠ 0 ∧ total > cputime
    · rw [if_pos hover, if_neg (by decide), if_pos rfl]
      exact ⟨rfl, iff_of_true rfl (.inr hover), rfl, rfl, rfl, rfl⟩
    · rw [if_neg hover, if_pos rfl]
      refine ⟨rfl, iff_of_false ?_ ?_, rfl, rfl, rfl, rfl⟩
      · rw [hinfo]
        exact Bool.false_ne_true
      · exact fun h => hover (h.resolve_left Bool.false_ne_true)

theorem readTerm_exited {strsignal : Nat → Option Str} {status : Nat} (h : wifexited status = true) :
    readTerm {} (termReason strsignal status) = { exitCode := (wexitstatus status : Int), normalTerm := true } := by
  have hlt : wexitstatus status < 256 := Nat.mod_lt _ (by decide)
  have hreason : termReason strsignal status = str "normal " ++ (str "excode=" ++ decimal (wexitstatus status)) := by
    rw [termReason, if_pos h]
    rfl
  have hread : readTerm {} (termReason strsignal status) =
      { exitCode := scanExcode (-1) (str "excode=" ++ decimal (wexitstatus status)), normalTerm := true } := by
    rw [hreason]
    rfl
  rw [hread, scanExcode_decimal hlt]

theorem readTerm_signaled (strsignal : Nat → Option Str) {status : Nat} (hexited : wifexited status = false)
    (h : wifsignaled status = true) :
    (readTerm {} (termReason strsignal status)).signal = wtermsig status ∧
      (readTerm {} (termReason strsignal status)).signalTerm = true ∧
      (readTerm {} (termReason strsignal status)).normalTerm = false ∧
      (readTerm {} (termReason strsignal status)).timeExceeded = false := by
  have hlt : wtermsig status < 256 := (Nat.mod_lt status (by decide)).trans (by decide)
  have hreason : termReason strsignal status = str "signal " ++ (str "signum=" ++ (decimal (wtermsig status) ++
      (str " signame=" ++ (strsignal (wtermsig status)).getD (str "unknown")))) := by
    rw [termReason, if_neg (by rw [hexited]; exact Bool.false_ne_true), if_pos h]
    simp only [List.append_assoc]
    rfl
  have hread : readTerm {} (termReason strsignal status) =
      { scanSignal {} (str "signum=" ++ (decimal (wtermsig status) ++
        (str " signame=" ++ (strsignal (wtermsig status)).getD (str "unknown")))) with signalTerm := true } := by
    rw [hreason]
    rfl
  have hkept : ∀ s, (scanSignal {} s).normalTerm = false ∧ (scanSignal {} s).timeExceeded = false := by
    intro s
    unfold scanSignal
    split
    · exact ⟨rfl, rfl⟩
    · exact ⟨rfl, rfl⟩
  rw [hread]
  exact ⟨signal_scanSignal hlt {} _, rfl, (hkept _).1, (hkept _).2⟩

theorem notMem_termReason (h : b = 0 ∨ b = 10) {strsignal : Nat → Option Str}
    (hnames : ∀ n name, strsignal n = some name → b ∉ name) (status : Nat) : b ∉ termReason strsignal status := by
  have hplain : isDigit b = false ∧ b ∉ str "normal excode=" ∧ b ∉ str "signal signum=" ∧ b ∉ str " signame=" ∧
      b ∉ str "unknown" := by
    obtain rfl | rfl := h <;> decide
  obtain ⟨hdigit, hnormal, hsignal, hsigname, hunknown⟩ := hplain
  have hname : b ∉ (strsignal (wtermsig status)).getD (str "unknown") := by
    cases hfound : strsignal (wtermsig status) with
    | none => exact hunknown
    | some name => exact hnames _ name hfound
  unfold termReason
  split
  · rw [List.mem_append, not_or]
    exact ⟨hnormal, notMem_decimal hdigit _⟩
  · split
    · simp only [List.mem_append, not_or]
      exact ⟨⟨⟨hsignal, notMem_decimal hdigit _⟩, hsigname⟩, hname⟩
    · exact hunknown

/-- The report tells how a program ended if and only if its CPU time in microseconds has 32 bits. -/
theorem recovered_iff (strsignal : Nat → Option Str) (hnames : ∀ n name, strsignal n = some name → 10 ∉ name ∧ 0 ∉ name)
    (garbage : Str) (cputime : Nat) (notes : List Note) (e : Ended)
    (hended : wifexited e.status = true ∨ wifsignaled e.status = true) :
    Recovered cputime e (ofFile garbage (report strsignal cputime notes e)) ↔
      microseconds e.usage + 500 < 4294967296 := by
  have hline : 10 ∉ termReason strsignal e.status :=
    notMem_termReason (.inr rfl) (fun n name h => (hnames n name h).1) _
  have hzero : 0 ∉ termReason strsignal e.status := notMem_termReason (.inl rfl) (fun n name h => (hnames n name h).2) _
  have hstart : (readTerm {} (termReason strsignal e.status)).timeExceeded = false := by
    cases hexited : wifexited e.status with
    | true => rw [readTerm_exited hexited]
    | false =>
      rw [hexited] at hended
      exact (readTerm_signaled strsignal hexited (hended.resolve_left Bool.false_ne_true)).2.2.2
  obtain ⟨htime, hexceeded, hnormal, hsignal, hcode, hsig⟩ :=
    readTime_timeText garbage (readTerm {} (termReason strsignal e.status)) cputime e hstart
  rw [ofFile_report strsignal cputime notes e hline hzero]
  constructor
  · intro h
    have hsame := htime.symm.trans h.time
    rw [totaltime_eq, nearest] at hsame
    omega
  · intro hfits
    have hsame : totaltime e.usage = nearest e.usage := by
      rw [totaltime_eq, nearest, Nat.mod_eq_of_lt hfits]
    rw [hsame] at htime hexceeded
    refine ⟨fun hexited => ?_, fun hsignaled => ?_, htime, hexceeded⟩
    · rw [hnormal, hsignal, hcode, readTerm_exited hexited]
      exact ⟨rfl, rfl, rfl⟩
    · have hexited : wifexited e.status = false := by
        unfold wifsignaled at hsignaled
        unfold wifexited
        simp only [Bool.and_eq_true, decide_eq_true_eq] at hsignaled
        exact decide_eq_false (by omega)
      obtain ⟨hnumber, hterm, hnot, -⟩ := readTerm_signaled strsignal hexited hsignaled
      rw [hnormal, hsignal, hsig]
      exact ⟨hnot, hterm, hnumber⟩

def killed : Ended where
  status := 9
  usage := { utime := ⟨1, 400000⟩, stime := ⟨0, 100000⟩ }
  realtimeFired := true

def signalNames : Nat → Option Str := fun n => if n = 9 then some (str "Killed") else none

theorem recovered_killed :
    Recovered 1000 killed (ofFile [] (report signalNames 1000 [] killed)) := by
  have hnames : ∀ n name, signalNames n = some name → 10 ∉ name ∧ 0 ∉ name := by
    intro n name h
    unfold signalNames at h
    split at h
    · cases h
      decide
    · cases h
  exact (recovered_iff signalNames hnames [] 1000 [] killed (.inr rfl)).mpr (by decide)

def longRun : Ended where
  status := 0
  usage := { utime := ⟨4295, 0⟩, stime := ⟨0, 0⟩ }
  realtimeFired := false

/-- Under a limit of 5000 seconds the report says 33 milliseconds. -/
theorem not_recovered_longRun : (ofFile [] (report signalNames 5000000 [] longRun)).time = 33 ∧
    nearest longRun.usage = 4295000 ∧
      ¬Recovered 5000000 longRun (ofFile [] (report signalNames 5000000 [] longRun)) := by
  have htime : (ofFile [] (report signalNames 5000000 [] longRun)).time = 33 := by decide +kernel
  refine ⟨htime, by decide, fun h => ?_⟩
  have hsame := h.time
  rw [htime] at hsame
  exact absurd hsame (by decide)

end Abacus.Marker.RunInfo
