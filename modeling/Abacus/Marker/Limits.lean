import Abacus.Library.Table
import Abacus.Misc

/-! # The limits of a run

The limits of a problem are passed to `runlimit` in milliseconds and bytes, as decimal numbers on its
command line, which takes zero for no limit. All of this is computed in 32 bits.
-/

namespace Abacus.Marker.Limits

open Library Library.Bytes Misc

inductive UserProg
  | cCpp
  | java
  | python
  deriving DecidableEq

abbrev Attributes := Table Str Str

def attrib (attribs : Attributes) (name : String) : Str := attribs.getD (str name) []

/-- A limit that is not a number or is zero is replaced. -/
def limitOr (replacement : Nat) (value : Str) : Nat :=
  match fromStringU32 value with
  | none => replacement
  | some limit => if limit = 0 then replacement else limit

/-- A Java program gets its memory limit on the command line of the virtual machine. -/
def setMemLimit (prog : UserProg) (bytes : Nat) : List Str :=
  match prog with
  | .java => []
  | .cCpp | .python => [str "-m", decimal bytes]

def setFileLimit (bytes : Nat) : List Str := [str "-f", decimal bytes]

def setRootDir (prog : UserProg) (root : Str) : List Str :=
  match prog with
  | .java => []
  | .cCpp | .python => [str "-r", root]

def setCPUTime (cputime : Nat) : List Str := [str "-c", decimal cputime]

def setRealTime (realtime : Nat) : List Str := [str "-t", decimal realtime]

def setMaxProcs (prog : UserProg) (nproc : Nat) : List Str :=
  match prog with
  | .java => []
  | .cCpp | .python => [str "-n", decimal nproc]

structure Job where
  prog : UserProg
  jaildir : Str
  user : Str
  group : Str
  programEnv : List Str
  program : Str
  arguments : List Str

def runlimitArgs (job : Job) (attribs : Attributes) : List Str :=
  let timelimit := wrap32 (limitOr 120 (attrib attribs "time_limit") * 1000)
  let memorylimit := wrap32 (limitOr 256 (attrib attribs "memory_limit") * 1048576)
  setMemLimit job.prog memorylimit ++ setFileLimit 16777216 ++ setRootDir job.prog job.jaildir ++
    setCPUTime timelimit ++ setRealTime (wrap32 (timelimit * 8)) ++ setMaxProcs job.prog 1 ++
    (if job.user ≠ [] then [str "-u", job.user] else []) ++ if job.group ≠ [] then [str "-g", job.group] else []

def exec (job : Job) (attribs : Attributes) : List Str :=
  runlimitArgs job attribs ++ (job.programEnv.flatMap fun e => [str "-e", e]) ++ str "--" :: job.program ::
    job.arguments

def digitOf (b : UInt8) : Nat :=
  if isDigit b then b.toNat - 48
  else if 97 ≤ b ∧ b ≤ 122 then b.toNat - 87
  else if 65 ≤ b ∧ b ≤ 90 then b.toNat - 55
  else 36

def basePart : Str → Nat × Str
  | 48 :: x :: d :: rest => if (x = 120 ∨ x = 88) ∧ digitOf d < 16 then (16, d :: rest) else (8, 48 :: x :: d :: rest)
  | 48 :: rest => (8, 48 :: rest)
  | digits => (10, digits)

def signPart : Str → Bool × Str
  | 45 :: rest => (true, rest)
  | 43 :: rest => (false, rest)
  | rest => (false, rest)

/-- `strtol` with the base 0: the number at the start of a text, and the text from `*endptr` on. -/
def strtolAny (s : Str) : Int × Str :=
  let (negative, number) := signPart (s.dropWhile isSpace)
  let (base, digits) := basePart number
  let taken := digits.takeWhile fun b => digitOf b < base
  let value := taken.foldl (fun v b => base * v + digitOf b) 0
  if taken = [] then (0, s)
  else (if negative then max (-(value : Int)) (-9223372036854775808) else min (value : Int) 9223372036854775807,
    digits.dropWhile fun b => digitOf b < base)

structure Settings where
  cputime : Nat := 0
  realtime : Nat := 0
  memlimit : Nat := 0
  filelimit : Nat := 0
  nproc : Nat := 0
  deriving DecidableEq

def number (optarg : Str) : Except Str Nat :=
  if (strtolAny optarg).2 ≠ [] then .error (str "'" ++ optarg ++ str "' is not a valid integer!\n")
  else .ok (toU32 (strtolAny optarg).1)

/-- The other switches do not set a limit. -/
def setOption (s : Settings) (switch optarg : Str) : Except Str Settings :=
  if switch = str "-t" then (number optarg).map fun n => { s with realtime := n }
  else if switch = str "-c" then (number optarg).map fun n => { s with cputime := n }
  else if switch = str "-f" then (number optarg).map fun n => { s with filelimit := n }
  else if switch = str "-m" then (number optarg).map fun n => { s with memlimit := n }
  else if switch = str "-n" then (number optarg).map fun n => { s with nproc := n }
  else .ok s

def readOptions : Settings → List Str → Except Str (Settings × List Str)
  | s, switch :: optarg :: rest =>
    if switch = str "--" then .ok (s, optarg :: rest)
    else (setOption s switch optarg).bind fun s => readOptions s rest
  | s, _ => .ok (s, [])

/-- The limits for the program, or the message with which `runlimit` refuses to run it. -/
def runlimit (args : List Str) : Except Str Settings := do
  let (s, program) ← readOptions {} args
  if s.realtime ≠ 0 ∧ s.cputime ≠ 0 ∧ s.cputime > s.realtime then throw (str "realtime must be greater than cputime.\n")
  if program = [] then throw (str "Missing program to execute.\n")
  return s

/-- `RLIMIT_AS`, in bytes. -/
def Settings.addressSpace (s : Settings) : Option Nat := if s.memlimit ≠ 0 then some s.memlimit else none

theorem digitOf_of_isDigit {b : UInt8} (h : isDigit b = true) : digitOf b = b.toNat - 48 ∧ digitOf b < 10 := by
  have hvalue : digitOf b = b.toNat - 48 := if_pos h
  simp only [isDigit, Bool.and_eq_true, decide_eq_true_eq, UInt8.le_iff_toNat_le] at h
  have hle : b.toNat ≤ 57 := h.2
  exact ⟨hvalue, by omega⟩

theorem foldl_digitOf {digits : Str} (h : ∀ b ∈ digits, isDigit b = true) (v : Nat) :
    digits.foldl (fun v b => 10 * v + digitOf b) v = digits.foldl (fun v b => 10 * v + (b.toNat - 48)) v := by
  induction digits generalizing v with
  | nil => rfl
  | cons b digits ih =>
    obtain ⟨hb, hdigits⟩ := List.forall_mem_cons.mp h
    rw [List.foldl_cons, List.foldl_cons, ih hdigits, (digitOf_of_isDigit hb).1]

theorem head?_decimalDigits {fuel n : Nat} (h : n ≤ fuel) (hpos : 0 < n) : (decimalDigits fuel n).head? ≠ some 48 := by
  induction fuel generalizing n with
  | zero => omega
  | succ fuel ih =>
    rw [decimalDigits]
    split
    · next hlt =>
      intro heq
      have hvalue := congrArg UInt8.toNat (Option.some.inj heq)
      rw [toNat_digit, Nat.mod_eq_of_lt hlt] at hvalue
      have hzero : (48 : UInt8).toNat = 48 := rfl
      omega
    · rw [List.head?_append_of_ne_nil _ (decimalDigits_ne_nil fuel (n / 10))]
      exact ih (by omega) (by omega)

theorem strtolAny_decimal {n : Nat} (h : n ≤ 9223372036854775807) : strtolAny (decimal n) = ((n : Int), []) := by
  obtain rfl | hpos := Nat.eq_zero_or_pos n
  · rfl
  have hall := List.all_eq_true.mp (all_isDigit_decimalDigits n n)
  have hvalue := digitsValue_decimalDigits (le_refl n)
  have hhead := head?_decimalDigits (le_refl n) hpos
  unfold strtolAny decimal
  cases hcons : decimalDigits n n with
  | nil => exact absurd hcons (decimalDigits_ne_nil n n)
  | cons b digits =>
    rw [hcons] at hall hvalue hhead
    obtain ⟨hspace, h45, h43⟩ := of_isDigit (hall b (.head digits))
    have hzero : b ≠ 48 := fun heq => hhead (congrArg some heq)
    have hbase : ∀ x ∈ b :: digits, decide (digitOf x < 10) = true :=
      fun x hx => decide_eq_true (digitOf_of_isDigit (hall x hx)).2
    have hsign : signPart (b :: digits) = (false, b :: digits) := by simp [signPart, h45, h43]
    have hten : basePart (b :: digits) = (10, b :: digits) := by simp [basePart, hzero]
    rw [List.dropWhile_cons_of_neg (by rw [hspace]; exact Bool.false_ne_true), hsign]
    dsimp only
    rw [hten]
    dsimp only
    rw [List.takeWhile_eq_self_iff.mpr hbase, List.dropWhile_eq_nil_iff.mpr hbase, if_neg (List.cons_ne_nil b digits)]
    have hvalue : (b :: digits).foldl (fun v b => 10 * v + digitOf b) 0 = n := (foldl_digitOf hall 0).trans hvalue
    rw [hvalue, if_neg Bool.false_ne_true, min_eq_left (by omega)]

theorem number_decimal {n : Nat} (h : n < 4294967296) : number (decimal n) = .ok n := by
  rw [number, strtolAny_decimal (by omega), if_neg (not_not.mpr rfl), toU32]
  congr 1
  omega

section

variable {s : Settings} {switch optarg : Str} {rest : List Str}

theorem readOptions_cons (h : switch ≠ str "--") :
    readOptions s (switch :: optarg :: rest) = (setOption s switch optarg).bind fun s => readOptions s rest := by
  rw [readOptions, if_neg h]

theorem readOptions_program (program : Str) (arguments : List Str) :
    readOptions s (str "--" :: program :: arguments) = .ok (s, program :: arguments) := by
  rw [readOptions, if_pos rfl]

theorem readOptions_set {s' : Settings} (hend : switch ≠ str "--") (hset : setOption s switch optarg = .ok s') :
    readOptions s (switch :: optarg :: rest) = readOptions s' rest := by
  rw [readOptions_cons hend, hset]
  rfl

theorem readOptions_optional (hend : switch ≠ str "--") (hother : setOption s switch optarg = .ok s) (given : Prop)
    [Decidable given] : readOptions s ((if given then [switch, optarg] else []) ++ rest) = readOptions s rest := by
  split
  · exact readOptions_set hend hother
  · rfl

theorem readOptions_env (env : List Str) :
    readOptions s ((env.flatMap fun e => [str "-e", e]) ++ rest) = readOptions s rest := by
  induction env with
  | nil => rfl
  | cons e env ih =>
    rw [List.flatMap_cons, List.append_assoc, ← ih]
    exact readOptions_set (by decide) rfl

def settingsOf (job : Job) (attribs : Attributes) : Settings where
  cputime := wrap32 (limitOr 120 (attrib attribs "time_limit") * 1000)
  realtime := wrap32 (limitOr 120 (attrib attribs "time_limit") * 8000)
  memlimit := if job.prog = .java then 0 else wrap32 (limitOr 256 (attrib attribs "memory_limit") * 1048576)
  filelimit := 16777216
  nproc := if job.prog = .java then 0 else 1

theorem wrap32_lt (n : Nat) : wrap32 n < 4294967296 := Nat.mod_lt n (by decide)

theorem wrap32_mul_eight (n : Nat) : wrap32 (wrap32 (n * 1000) * 8) = wrap32 (n * 8000) := by
  unfold wrap32
  omega

theorem readOptions_number {update : Nat → Settings} {n : Nat} (hend : switch ≠ str "--") (hn : n < 4294967296)
    (hset : ∀ optarg, setOption s switch optarg = (number optarg).map update) :
    readOptions s (switch :: decimal n :: rest) = readOptions (update n) rest := by
  apply readOptions_set hend
  rw [hset, number_decimal hn]
  rfl

theorem readOptions_tail (job : Job) :
    readOptions s ((if job.user ≠ [] then [str "-u", job.user] else []) ++
      ((if job.group ≠ [] then [str "-g", job.group] else []) ++
      ((job.programEnv.flatMap fun e => [str "-e", e]) ++ str "--" :: job.program :: job.arguments))) =
        .ok (s, job.program :: job.arguments) := by
  rw [readOptions_optional (by decide) rfl, readOptions_optional (by decide) rfl, readOptions_env, readOptions_program]

theorem readOptions_exec (job : Job) (attribs : Attributes) :
    readOptions {} (exec job attribs) = .ok (settingsOf job attribs, job.program :: job.arguments) := by
  rw [exec, runlimitArgs, settingsOf, wrap32_mul_eight, setFileLimit, setCPUTime, setRealTime]
  cases job.prog with
  | java =>
    simp only [setMemLimit, setRootDir, setMaxProcs, List.append_assoc, List.nil_append, List.cons_append]
    rw [readOptions_number (by decide) (by decide) fun _ => rfl,
      readOptions_number (by decide) (wrap32_lt _) fun _ => rfl,
      readOptions_number (by decide) (wrap32_lt _) fun _ => rfl, readOptions_tail]
    simp only [if_true]
  | cCpp | python =>
    simp only [setMemLimit, setRootDir, setMaxProcs, List.append_assoc, List.nil_append, List.cons_append]
    rw [readOptions_number (by decide) (wrap32_lt _) fun _ => rfl,
      readOptions_number (by decide) (by decide) fun _ => rfl,
      readOptions_set (by decide) rfl, readOptions_number (by decide) (wrap32_lt _) fun _ => rfl,
      readOptions_number (by decide) (wrap32_lt _) fun _ => rfl,
      readOptions_number (by decide) (by decide) fun _ => rfl,
      readOptions_tail]
    simp only [reduceCtorEq, if_false]

/-- What `runlimit` makes of the command line. -/
theorem runlimit_exec (job : Job) (attribs : Attributes) :
    runlimit (exec job attribs) =
      if (settingsOf job attribs).realtime ≠ 0 ∧ (settingsOf job attribs).cputime ≠ 0 ∧
          (settingsOf job attribs).cputime > (settingsOf job attribs).realtime then
        .error (str "realtime must be greater than cputime.\n")
      else .ok (settingsOf job attribs) := by
  unfold runlimit
  rw [readOptions_exec]
  dsimp only [bind, Except.bind]
  split
  · rfl
  · rw [if_neg (List.cons_ne_nil _ _)]
    rfl

end

/-- Positive limits that the server has accepted, as it sends them. -/
structure Served (attribs : Attributes) (timeLimit memoryLimit : Nat) : Prop where
  time : attribs[str "time_limit"]? = some (Misc.toString timeLimit)
  timePositive : 0 < timeLimit
  timeRange : timeLimit ≤ 2147483647
  memory : attribs[str "memory_limit"]? = some (Misc.toString memoryLimit)
  memoryPositive : 0 < memoryLimit
  memoryRange : memoryLimit ≤ 2147483647

/-- The limits are those of the problem, or the program is not run. -/
def Undistorted (job : Job) (attribs : Attributes) (timeLimit memoryLimit : Nat) : Prop :=
  ∀ s, runlimit (exec job attribs) = .ok s →
    s.cputime = timeLimit * 1000 ∧ s.realtime = timeLimit * 8000 ∧ s.memlimit = memoryLimit * 1048576

/-- The two times, each less a multiple of 2^32, are the wrong way round. -/
def Reversed (timeLimit : Nat) : Prop :=
  timeLimit * 8000 % 4294967296 ≠ 0 ∧ timeLimit * 8000 % 4294967296 < timeLimit * 1000 % 4294967296

theorem limitOr_decimal {replacement limit : Nat} (hpos : 0 < limit) (hrange : limit ≤ 2147483647) :
    limitOr replacement (decimal limit) = limit := by
  rw [limitOr, fromStringU32_decimal (by omega)]
  exact if_neg hpos.ne'

theorem settingsOf_served {attribs : Attributes} {timeLimit memoryLimit : Nat}
    (h : Served attribs timeLimit memoryLimit) (job : Job) : settingsOf job attribs =
      { cputime := timeLimit * 1000 % 4294967296
        realtime := timeLimit * 8000 % 4294967296
        memlimit := if job.prog = .java then 0 else memoryLimit * 1048576 % 4294967296
        filelimit := 16777216
        nproc := if job.prog = .java then 0 else 1 } := by
  have htime : limitOr 120 (attrib attribs "time_limit") = timeLimit := by
    rw [attrib, Std.ExtTreeMap.getD_eq_getD_getElem?, h.time, Option.getD_some, toString_natCast]
    exact limitOr_decimal h.timePositive h.timeRange
  have hmemory : limitOr 256 (attrib attribs "memory_limit") = memoryLimit := by
    rw [attrib, Std.ExtTreeMap.getD_eq_getD_getElem?, h.memory, Option.getD_some, toString_natCast]
    exact limitOr_decimal h.memoryPositive h.memoryRange
  rw [settingsOf, htime, hmemory]
  rfl

/-- The limits reach `runlimit` if and only if the program is not in Java and they fit 32 bits, or the run is
refused. -/
theorem undistorted_iff (job : Job) (attribs : Attributes) (timeLimit memoryLimit : Nat)
    (h : Served attribs timeLimit memoryLimit) :
    Undistorted job attribs timeLimit memoryLimit ↔
      job.prog ≠ .java ∧ timeLimit ≤ 536870 ∧ memoryLimit ≤ 4095 ∨ Reversed timeLimit := by
  have hmemory := h.memoryPositive
  rw [Undistorted, runlimit_exec, settingsOf_served h, Reversed]
  dsimp only
  split
  · next hrefused =>
    refine iff_of_true ?_ (.inr ⟨hrefused.1, hrefused.2.2⟩)
    rintro s ⟨⟩
  · next hrun =>
    have hrefused : ¬(timeLimit * 8000 % 4294967296 ≠ 0 ∧
        timeLimit * 8000 % 4294967296 < timeLimit * 1000 % 4294967296) := by
      omega
    rw [or_iff_left hrefused]
    constructor
    · intro hsame
      obtain ⟨hcpu, hreal, hmem⟩ := hsame _ rfl
      dsimp only at hcpu hreal hmem
      split at hmem
      · omega
      · next hjava => exact ⟨hjava, by omega, by omega⟩
    · rintro ⟨hjava, htime, hmem⟩ s ⟨⟩
      dsimp only
      rw [if_neg hjava]
      omega

def solution : Job where
  prog := .cCpp
  jaildir := str "/tmp/jail"
  user := []
  group := []
  programEnv := []
  program := str "/userprog"
  arguments := []

def limits (timeLimit memoryLimit : Nat) : Attributes :=
  ((∅ : Attributes).insert (str "time_limit") (Misc.toString timeLimit)).insert (str "memory_limit")
    (Misc.toString memoryLimit)

theorem undistorted_quarter : Undistorted solution (limits 1 256) 1 256 :=
  (undistorted_iff solution (limits 1 256) 1 256 ⟨by decide, by decide, by decide, by decide, by decide, by decide⟩).mpr
    (.inl ⟨by decide, by decide, by decide⟩)

/-- A memory limit of 4096 megabytes becomes zero, which is no limit. -/
theorem not_undistorted_fourGigabytes : Served (limits 1 4096) 1 4096 ∧
    (runlimit (exec solution (limits 1 4096))).toOption.map Settings.addressSpace = some none ∧
      ¬Undistorted solution (limits 1 4096) 1 4096 := by
  have hserved : Served (limits 1 4096) 1 4096 := ⟨by decide, by decide, by decide, by decide, by decide, by decide⟩
  have hrun : runlimit (exec solution (limits 1 4096)) = .ok (settingsOf solution (limits 1 4096)) := by
    rw [runlimit_exec, settingsOf_served hserved]
    rfl
  refine ⟨hserved, ?_, fun hsame => ?_⟩
  · rw [hrun, settingsOf_served hserved]
    rfl
  · have hmem := (hsame _ hrun).2.2
    rw [settingsOf_served hserved] at hmem
    exact absurd hmem (by decide)

end Abacus.Marker.Limits
