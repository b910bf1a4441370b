import Abacus.Library.Lines
import Abacus.Library.Table
import Abacus.Misc
import Mathlib.Data.List.DropRight

/-! # Configuration files

`load` finds the parts of a line with indices into it. A line without an equals sign makes it ask for a
part behind the end of the line, which throws.
-/

namespace Abacus.Config

open Library Library.Bytes Library.Lines Misc

abbrev ConfigSection := Table Str Str

abbrev ConfigMap := Table Str ConfigSection

section

inductive LoadError
  /-- `std::out_of_range`, from `substr`. -/
  | outOfRange
  /-- The indices do not fit an `int`. What is done with such a line is left out. -/
  | tooLong
  deriving DecidableEq

/-- A negative count is a huge unsigned number. -/
def substr (s : Str) (pos : Nat) (n : Int) : Except LoadError Str :=
  if pos > s.length then .error .outOfRange
  else if n < 0 then .ok (s.drop pos)
  else .ok ((s.drop pos).take n.toNat)

variable (line : Str)

/-- `while(p < len && isspace(conf_line[p])) p++` -/
def skipSpaces (p : Nat) : Nat := p + ((line.drop p).takeWhile isSpace).length

/-- `while(p2 < len && conf_line[p2] != b) p2++` -/
def findFrom (b : UInt8) (p2 : Nat) : Nat := p2 + ((line.drop p2).takeWhile (· ≠ b)).length

/-- `while(p3 && isspace(conf_line[--p3]))`. The index does not get below zero. -/
def backOver : Nat → Nat
  | 0 => 0
  | p3 + 1 => if isSpace (line.getD p3 0) then backOver p3 else p3

/-- `while(p3 > p2 && isspace(conf_line[p3])) p3--` -/
def backTo (p2 : Nat) : Nat → Nat
  | 0 => 0
  | p3 + 1 => if p3 + 1 > p2 ∧ isSpace (line.getD (p3 + 1) 0) then backTo p2 p3 else p3 + 1

def readOption (p : Nat) : Except LoadError (Str × Str) := do
  let p2 := findFrom line 61 p
  let p3 := backOver line p2
  let optName ← substr line p ((p3 : Int) - p + 1)
  let p2 := skipSpaces line (p2 + 1)
  let p3 := backTo line p2 (line.length - 1)
  let optValue ← substr line p2 ((p3 : Int) - p2 + 1)
  return (optName, optValue)

def expandHome (home : Option Str) (optValue : Str) : Str :=
  if optValue.take 2 = str "~/" then
    match home with
    | some home => home ++ optValue.drop 1
    | none => optValue
  else optValue

structure Loading where
  curSection : Str
  sections : ConfigMap

def setOption (sections : ConfigMap) (curSection optName optValue : Str) : ConfigMap :=
  sections.insert curSection ((sections.getD curSection ∅).insert optName optValue)

def loadLine (home : Option Str) (s : Loading) (line : Str) : Except LoadError Loading :=
  if 2147483648 ≤ line.length then .error .tooLong
  else
    let p := skipSpaces line 0
    match (line)[p]? with
    | none => .ok s
    | some b =>
      if b = 35 then .ok s
      else if b = 91 then
        (substr line (p + 1) ((findFrom line 93 (p + 1) : Int) - (p + 1 : Nat))).map fun name =>
          { s with curSection := name }
      else
        (readOption line p).map fun (optName, optValue) =>
          if s.curSection = [] then s
          else { s with sections := setOption s.sections s.curSection optName (expandHome home optValue) }

def confLines (content : Str) : List Str := (lines 10 content).filter (· ≠ [])

def load (home : Option Str) (sections : ConfigMap) (content : Str) : Except LoadError ConfigMap :=
  ((confLines content).foldlM (loadLine home) { curSection := [], sections }).map Loading.sections

end

def trim (s : Str) : Str := (s.dropWhile isSpace).rdropWhile isSpace

inductive LineKind
  | blank
  | comment
  | header (name : Str)
  /-- No equals sign. -/
  | bare
  /-- No name before the equals sign. -/
  | nameless
  | setting (name value : Str)
  /-- 2^31 bytes or more. -/
  | long

def kindOf (line : Str) : LineKind :=
  if 2147483648 ≤ line.length then .long
  else
    match line.dropWhile isSpace with
    | [] => .blank
    | b :: rest =>
      if b = 35 then .comment
      else if b = 91 then .header (rest.takeWhile (· ≠ 93))
      else if b = 61 then .nameless
      else
        match rest.dropWhile (· ≠ 61) with
        | [] => .bare
        | _ :: value => .setting (trim (b :: rest.takeWhile (· ≠ 61))) (trim value)

structure Setting where
  sect : Str
  name : Str
  value : Str
  deriving DecidableEq

def sectionAfter (cur line : Str) : Str :=
  match kindOf line with
  | .header name => name
  | _ => cur

def settingOn (home : Option Str) (cur line : Str) : List Setting :=
  match kindOf line with
  | .setting name value => if cur = [] then [] else [⟨cur, name, expandHome home value⟩]
  | _ => []

def settings (home : Option Str) (cur : Str) : List Str → List Setting
  | [] => []
  | line :: rest => settingOn home cur line ++ settings home (sectionAfter cur line) rest

def lastValue (l : List Setting) (sect name : Str) : Option Str :=
  ((l.filter fun x => x.sect = sect ∧ x.name = name).getLast?).map Setting.value

def lookup (sections : ConfigMap) (sect name : Str) : Option Str := (sections[sect]?).bind fun options => options[name]?

/-- Without an exception, every option gets the value of its last setting in the file, and the others stay. -/
def Loads (home : Option Str) (content : Str) : Prop :=
  ∀ sections, ∃ sections', load home sections content = .ok sections' ∧
    ∀ sect name, lookup sections' sect name =
      (lastValue (settings home [] (confLines content)) sect name).or (lookup sections sect name)

/-- Every line fits its indices. If it looks like a setting it has an equals sign, and in a section also a name. -/
def Proper (cur : Str) : List Str → Prop
  | [] => True
  | line :: rest =>
    (match kindOf line with
      | .bare | .long => False
      | .nameless => cur = []
      | _ => True) ∧
    Proper (sectionAfter cur line) rest

variable {b : UInt8}

section

variable {front key tail : Str} {b : UInt8} {home : Option Str} {s s' : Loading} {line sect name : Str}
  {ls : List Str}

theorem drop_length_takeWhile (p : UInt8 → Bool) (s : Str) : s.drop (s.takeWhile p).length = s.dropWhile p := by
  induction s with
  | nil => rfl
  | cons b s ih =>
    by_cases hb : p b = true
    · rw [List.takeWhile_cons_of_pos hb, List.dropWhile_cons_of_pos hb, List.length_cons, List.drop_succ_cons, ih]
    · rw [List.takeWhile_cons_of_neg hb, List.dropWhile_cons_of_neg hb]
      rfl

theorem skipSpaces_append (front tail : Str) :
    skipSpaces (front ++ tail) front.length = front.length + (tail.takeWhile isSpace).length := by
  rw [skipSpaces, List.drop_left]

theorem findFrom_append (hkey : b ∉ key) (front tail : Str) :
    findFrom (front ++ (key ++ b :: tail)) b front.length = front.length + key.length := by
  have hall : ∀ x ∈ key, decide (x ≠ b) = true := fun x hx => decide_eq_true fun heq => hkey (heq ▸ hx)
  rw [findFrom, List.drop_left, List.takeWhile_append_of_pos hall, List.takeWhile_cons_of_neg (by simp),
    List.append_nil]

theorem findFrom_of_notMem (hkey : b ∉ key) (front : Str) :
    findFrom (front ++ key) b front.length = (front ++ key).length := by
  have hall : ∀ x ∈ key, decide (x ≠ b) = true := fun x hx => decide_eq_true fun heq => hkey (heq ▸ hx)
  rw [findFrom, List.drop_left, List.takeWhile_eq_self_iff.mpr hall, List.length_append]

theorem backOver_append (front tail : Str) :
    backOver (front ++ tail) front.length = (front.rdropWhile isSpace).length - 1 := by
  induction front using List.reverseRecOn generalizing tail with
  | nil => rfl
  | append_singleton front b ih =>
    have hget : (front ++ [b] ++ tail).getD front.length 0 = b := by
      rw [List.append_assoc, List.getD_eq_getElem?_getD, List.getElem?_append_right (le_refl _), Nat.sub_self]
      rfl
    rw [List.length_append, List.length_singleton, backOver, hget]
    by_cases hb : isSpace b = true
    · rw [if_pos hb, List.rdropWhile_concat_pos _ _ _ hb, List.append_assoc]
      exact ih _
    · rw [if_neg hb, List.rdropWhile_concat_neg _ _ _ hb, List.length_append, List.length_singleton, Nat.add_sub_cancel]

theorem rdropWhile_append (front : Str) (h : key.rdropWhile isSpace ≠ []) :
    (front ++ key).rdropWhile isSpace = front ++ key.rdropWhile isSpace := by
  have hne : (key.reverse.dropWhile isSpace).isEmpty = false := by
    rw [List.isEmpty_eq_false_iff]
    intro hnil
    apply h
    rw [List.rdropWhile, hnil, List.reverse_nil]
  rw [List.rdropWhile, List.reverse_append, List.dropWhile_append, hne, if_neg Bool.false_ne_true, List.reverse_append,
    List.reverse_reverse]
  rfl

theorem rdropWhile_ne_nil (hb : isSpace b = false) (rest : Str) : (b :: rest).rdropWhile isSpace ≠ [] := by
  intro hnil
  have hspace := List.rdropWhile_eq_nil_iff.mp hnil b (.head rest)
  rw [hb] at hspace
  cases hspace

theorem backTo_append (hb : isSpace b = false) (front rest tail : Str) :
    backTo (front ++ (b :: rest ++ tail)) front.length (front.length + rest.length) =
      front.length + ((b :: rest).rdropWhile isSpace).length - 1 := by
  induction rest using List.reverseRecOn generalizing tail with
  | nil =>
    have hone : [b].rdropWhile isSpace = [b] := by
      rw [List.rdropWhile_singleton, hb, if_neg Bool.false_ne_true]
    rw [hone, List.length_nil, Nat.add_zero, List.length_singleton, Nat.add_sub_cancel]
    cases front.length with
    | zero => rfl
    | succ n => rw [backTo, if_neg fun h => absurd h.1 (by omega)]
  | append_singleton rest c ih =>
    have hget : (front ++ (b :: (rest ++ [c]) ++ tail)).getD (front.length + rest.length + 1) 0 = c := by
      rw [List.getD_eq_getElem?_getD, List.getElem?_append_right (by omega),
        show front.length + rest.length + 1 - front.length = rest.length + 1 by omega, List.cons_append,
        List.getElem?_cons_succ, List.append_assoc, List.getElem?_append_right (le_refl _), Nat.sub_self]
      rfl
    rw [List.length_append, List.length_singleton, ← Nat.add_assoc, backTo, hget]
    by_cases hc : isSpace c = true
    · have hrest : (b :: (rest ++ [c])).rdropWhile isSpace = (b :: rest).rdropWhile isSpace :=
        List.rdropWhile_concat_pos _ (b :: rest) c hc
      rw [if_pos ⟨by omega, hc⟩, hrest, List.cons_append, List.append_assoc]
      exact ih _
    · have hrest : (b :: (rest ++ [c])).rdropWhile isSpace = b :: (rest ++ [c]) :=
        List.rdropWhile_concat_neg _ (b :: rest) c hc
      rw [if_neg fun h => hc h.2, hrest, List.length_cons, List.length_append, List.length_singleton]
      omega

theorem substr_append {part : Str} {n : Int} (hpart : part <+: tail) (hn : n = part.length) :
    substr (front ++ tail) front.length n = .ok part := by
  obtain ⟨rest, rfl⟩ := hpart
  have hlength : ¬front.length > (front ++ (part ++ rest)).length := by
    rw [List.length_append]
    omega
  rw [substr, if_neg hlength, if_neg (by omega), List.drop_left, hn, Int.toNat_natCast, List.take_left]

theorem substr_name (hb : isSpace b = false) (front key tail : Str) :
    substr (front ++ (b :: key ++ tail)) front.length
      ((backOver (front ++ (b :: key ++ tail)) (front.length + (b :: key).length) : Int) - front.length + 1) =
        .ok ((b :: key).rdropWhile isSpace) := by
  have hne := rdropWhile_ne_nil hb key
  have hpos := List.length_pos_of_ne_nil hne
  have hback := backOver_append (front ++ (b :: key)) tail
  rw [rdropWhile_append front hne, List.append_assoc, List.length_append, List.length_append] at hback
  rw [hback]
  refine substr_append ((List.rdropWhile_prefix _ _).trans (List.prefix_append _ _)) ?_
  omega

theorem backTo_self (line : Str) (n : Nat) : backTo line (n + 1) n = n := by
  cases n with
  | zero => rfl
  | succ n => rw [backTo, if_neg fun h => absurd h.1 (by omega)]

theorem substr_value (front tail : Str) (hfront : front ≠ []) :
    substr (front ++ tail) (skipSpaces (front ++ tail) front.length)
      ((backTo (front ++ tail) (skipSpaces (front ++ tail) front.length) ((front ++ tail).length - 1) : Int) -
        (skipSpaces (front ++ tail) front.length : Nat) + 1) = .ok (trim tail) := by
  have hpos := List.length_pos_of_ne_nil hfront
  have hsplit : front ++ tail = (front ++ tail.takeWhile isSpace) ++ tail.dropWhile isSpace := by
    rw [List.append_assoc, List.takeWhile_append_dropWhile]
  have hstart : skipSpaces (front ++ tail) front.length = (front ++ tail.takeWhile isSpace).length := by
    rw [skipSpaces_append, List.length_append]
  rw [hstart, hsplit, trim]
  generalize hbefore : front ++ tail.takeWhile isSpace = before
  have hlength : 0 < before.length := by
    rw [← hbefore, List.length_append]
    omega
  cases hvalue : tail.dropWhile isSpace with
  | nil =>
    obtain ⟨n, hn⟩ := Nat.exists_eq_succ_of_ne_zero hlength.ne'
    have hback : backTo (before ++ []) before.length ((before ++ []).length - 1) = n := by
      rw [List.append_nil, hn]
      exact backTo_self before n
    rw [hback]
    rw [List.rdropWhile_nil]
    refine substr_append List.nil_prefix ?_
    rw [hn, List.length_nil]
    omega
  | cons b rest =>
    have hb : isSpace b = false := of_dropWhile_eq_cons hvalue
    have hne := List.length_pos_of_ne_nil (rdropWhile_ne_nil hb rest)
    have hback := backTo_append hb before rest []
    rw [List.append_nil] at hback
    have hlast : (before ++ b :: rest).length - 1 = before.length + rest.length := by
      rw [List.length_append, List.length_cons]
      omega
    rw [hlast, hback]
    refine substr_append (List.rdropWhile_prefix _ _) ?_
    omega

theorem readOption_setting (hb : isSpace b = false) (hkey : 61 ∉ b :: key) (front tail : Str) :
    readOption (front ++ (b :: key ++ 61 :: tail)) front.length = .ok ((b :: key).rdropWhile isSpace, trim tail) := by
  have hname := substr_name hb front key (61 :: tail)
  have hvalue := substr_value (front ++ (b :: key ++ [61])) tail (by simp)
  have hline : front ++ (b :: key ++ [61]) ++ tail = front ++ (b :: key ++ 61 :: tail) := by
    simp only [List.append_assoc, List.singleton_append]
  have hlength : (front ++ (b :: key ++ [61])).length = front.length + (b :: key).length + 1 := by
    simp only [List.length_append, List.length_singleton, Nat.add_assoc]
  rw [hline, hlength] at hvalue
  unfold readOption
  rw [findFrom_append hkey]
  dsimp only
  rw [hname]
  dsimp only [bind, Except.bind]
  rw [hvalue]
  rfl

theorem readOption_bare (hb : isSpace b = false) (hkey : 61 ∉ b :: key) (front : Str) :
    readOption (front ++ b :: key) front.length = .error .outOfRange := by
  have hname := substr_name hb front key []
  rw [List.append_nil, ← List.length_append] at hname
  have hstart : skipSpaces (front ++ b :: key) ((front ++ b :: key).length + 1) = (front ++ b :: key).length + 1 := by
    rw [skipSpaces, List.drop_of_length_le (Nat.le_succ _)]
    rfl
  unfold readOption
  rw [findFrom_of_notMem hkey]
  dsimp only
  rw [hname]
  dsimp only [bind, Except.bind]
  rw [hstart, substr, if_pos (Nat.lt_succ_self _)]

def Misread (name : Str) : Prop := name = [] ∨ name.head? = some 61

theorem readOption_nameless (hfront : ∀ x ∈ front, isSpace x = true) (tail : Str) :
    ∃ name value, readOption (front ++ 61 :: tail) front.length = .ok (name, value) ∧ Misread name := by
  have hempty : (61 : UInt8) ∉ ([] : Str) := List.not_mem_nil
  have hfind : findFrom (front ++ 61 :: tail) 61 front.length = front.length := findFrom_append hempty front tail
  have hback : backOver (front ++ 61 :: tail) front.length = 0 := by
    rw [backOver_append, List.rdropWhile_eq_nil_iff.mpr hfront]
    rfl
  have hvalue := substr_value (front ++ [61]) tail (by simp)
  have hline : front ++ [61] ++ tail = front ++ 61 :: tail := by
    rw [List.append_assoc, List.singleton_append]
  have hlength : (front ++ [61]).length = front.length + 1 := List.length_append
  rw [hline, hlength] at hvalue
  obtain ⟨name, hname, hmisread⟩ : ∃ name,
      substr (front ++ 61 :: tail) front.length (((0 : Nat) : Int) - front.length + 1) = .ok name ∧ Misread name := by
    have hin : ¬front.length > (front ++ 61 :: tail).length := by
      rw [List.length_append]
      omega
    rw [substr, if_neg hin, List.drop_left]
    split
    · exact ⟨61 :: tail, rfl, .inr rfl⟩
    · next hpos =>
      refine ⟨_, rfl, ?_⟩
      obtain hzero | hone : (((0 : Nat) : Int) - front.length + 1).toNat = 0 ∨
          (((0 : Nat) : Int) - front.length + 1).toNat = 1 := by omega
      · rw [hzero]
        exact .inl rfl
      · rw [hone]
        exact .inr rfl
  refine ⟨name, trim tail, ?_, hmisread⟩
  unfold readOption
  rw [hfind]
  dsimp only
  rw [hback, hname]
  dsimp only [bind, Except.bind]
  rw [hvalue]
  rfl

def Loading.set (s : Loading) (home : Option Str) (name value : Str) : Loading :=
  if s.curSection = [] then s
  else { s with sections := setOption s.sections s.curSection name (expandHome home value) }

theorem loadLine_spec (home : Option Str) (s : Loading) (line : Str) :
    match kindOf line with
    | .blank | .comment => loadLine home s line = .ok s
    | .header name => loadLine home s line = .ok { s with curSection := name }
    | .bare => loadLine home s line = .error .outOfRange
    | .long => loadLine home s line = .error .tooLong
    | .nameless => ∃ name value, Misread name ∧ loadLine home s line = .ok (s.set home name value)
    | .setting name value => loadLine home s line = .ok (s.set home name value) := by
  unfold kindOf loadLine
  by_cases hlong : 2147483648 ≤ line.length
  · rw [if_pos hlong, if_pos hlong]
  rw [if_neg hlong, if_neg hlong]
  clear hlong
  have hskip : skipSpaces line 0 = (line.takeWhile isSpace).length := Nat.zero_add _
  have hline : line = line.takeWhile isSpace ++ line.dropWhile isSpace := List.takeWhile_append_dropWhile.symm
  have hfront : ∀ x ∈ line.takeWhile isSpace, isSpace x = true := fun x hx => List.mem_takeWhile_imp hx
  have hbody : (line)[(line.takeWhile isSpace).length]? = (line.dropWhile isSpace).head? := by
    rw [← drop_length_takeWhile isSpace line, List.head?_drop]
  rw [hskip]
  dsimp only
  rw [hbody]
  generalize line.takeWhile isSpace = front at *
  cases hrest : line.dropWhile isSpace with
  | nil => rfl
  | cons b rest =>
    have hb : isSpace b = false := of_dropWhile_eq_cons hrest
    rw [hrest] at hline
    subst hline
    dsimp only [List.head?_cons]
    by_cases hcomment : b = 35
    · rw [if_pos hcomment]
      exact if_pos hcomment
    rw [if_neg hcomment, if_neg hcomment]
    by_cases hheader : b = 91
    · have hname : substr (front ++ [b] ++ rest) (front ++ [b]).length
          ((findFrom (front ++ [b] ++ rest) 93 (front ++ [b]).length : Int) - ((front ++ [b]).length : Nat)) =
            .ok (rest.takeWhile (· ≠ 93)) := by
        refine substr_append (List.takeWhile_prefix _) ?_
        rw [findFrom, List.drop_left]
        omega
      rw [List.append_assoc, List.singleton_append, List.length_append, List.length_singleton] at hname
      rw [if_pos hheader, if_pos hheader]
      dsimp only
      rw [hname]
      rfl
    rw [if_neg hheader, if_neg hheader]
    by_cases hequals : b = 61
    · rw [if_pos hequals, hequals]
      obtain ⟨name, value, hread, hmisread⟩ := readOption_nameless hfront rest
      dsimp only
      rw [hread]
      exact ⟨name, value, hmisread, rfl⟩
    rw [if_neg hequals]
    cases hvalue : rest.dropWhile (· ≠ 61) with
    | nil =>
      have hkey : 61 ∉ b :: rest := by
        rw [List.mem_cons, not_or]
        refine ⟨Ne.symm hequals, fun hmem => ?_⟩
        exact absurd rfl (of_decide_eq_true (List.dropWhile_eq_nil_iff.mp hvalue 61 hmem))
      dsimp only
      rw [readOption_bare hb hkey]
      rfl
    | cons e value =>
      have he : e = 61 := by
        have hstop := of_dropWhile_eq_cons hvalue
        exact not_not.mp (of_decide_eq_false hstop)
      subst he
      have hkey : 61 ∉ b :: rest.takeWhile (· ≠ 61) := by
        rw [List.mem_cons, not_or]
        refine ⟨Ne.symm hequals, fun hmem => ?_⟩
        have hother := List.mem_takeWhile_imp hmem
        exact absurd rfl (of_decide_eq_true hother)
      have hsplit : b :: rest = b :: rest.takeWhile (· ≠ 61) ++ 61 :: value := by
        rw [List.cons_append, ← hvalue, List.takeWhile_append_dropWhile]
      have hname : trim (b :: rest.takeWhile (· ≠ 61)) = (b :: rest.takeWhile (· ≠ 61)).rdropWhile isSpace := by
        rw [trim, List.dropWhile_cons_of_neg (by rw [hb]; exact Bool.false_ne_true)]
      dsimp only
      rw [hname, hsplit, readOption_setting hb hkey]
      rfl

theorem not_misread_of_setting {line name value : Str} (h : kindOf line = .setting name value) : ¬Misread name := by
  unfold kindOf at h
  split at h
  · cases h
  split at h
  · cases h
  · next b rest hbody =>
    have hb : isSpace b = false := of_dropWhile_eq_cons hbody
    split at h
    · cases h
    · split at h
      · cases h
      · split at h
        · cases h
        · next hequals =>
          split at h
          · cases h
          · cases h
            have hne := rdropWhile_ne_nil hb (rest.takeWhile (· ≠ 61))
            rw [trim, List.dropWhile_cons_of_neg (by rw [hb]; exact Bool.false_ne_true)]
            obtain ⟨spaces, hstart⟩ := List.rdropWhile_prefix isSpace (b :: rest.takeWhile (· ≠ 61))
            rintro (hnil | hhead)
            · exact hne hnil
            · obtain ⟨key, hkey⟩ := List.head?_eq_some_iff.mp hhead
              rw [hkey] at hstart
              exact hequals (List.cons.inj hstart).1.symm

theorem lookup_setOption (sections : ConfigMap) (cur n v sect name : Str) :
    lookup (setOption sections cur n v) sect name = if cur = sect ∧ n = name then some v
      else lookup sections sect name := by
  unfold lookup setOption
  rw [Table.getElem?_insert_row]
  by_cases hsect : cur = sect
  · subst hsect
    rw [if_pos rfl, Option.bind_some, Table.getElem?_insert_row, Std.ExtTreeMap.getD_eq_getD_getElem?]
    by_cases hname : n = name
    · rw [if_pos hname, if_pos ⟨rfl, hname⟩]
    · rw [if_neg hname, if_neg fun h => hname h.2]
      cases sections[cur]? with
      | none | some options => rfl
  · rw [if_neg hsect, if_neg fun h => hsect h.1]

theorem lastValue_append (l l' : List Setting) (sect name : Str) :
    lastValue (l ++ l') sect name = (lastValue l' sect name).or (lastValue l sect name) := by
  unfold lastValue
  rw [List.filter_append, List.getLast?_append]
  cases (l'.filter fun x => x.sect = sect ∧ x.name = name).getLast? with
  | none | some x => rfl

theorem Loading.curSection_set (s : Loading) (home : Option Str) (n v : Str) :
    (s.set home n v).curSection = s.curSection := by
  unfold Loading.set
  split <;> rfl

theorem lookup_set (s : Loading) (home : Option Str) (n v sect name : Str) :
    lookup (s.set home n v).sections sect name =
      (lastValue (if s.curSection = [] then [] else [⟨s.curSection, n, expandHome home v⟩]) sect name).or
        (lookup s.sections sect name) := by
  unfold Loading.set
  split
  · rfl
  · rw [lookup_setOption, lastValue]
    by_cases hsame : s.curSection = sect ∧ n = name
    · rw [if_pos hsame, List.filter_cons_of_pos (by simpa using hsame)]
      rfl
    · rw [if_neg hsame, List.filter_cons_of_neg (by simpa using hsame)]
      rfl

theorem loadLine_proper (home : Option Str) (h : Proper s.curSection [line]) :
    ∃ s', loadLine home s line = .ok s' ∧ s'.curSection = sectionAfter s.curSection line ∧
      ∀ sect name, lookup s'.sections sect name =
        (lastValue (settingOn home s.curSection line) sect name).or (lookup s.sections sect name) := by
  have hspec := loadLine_spec home s line
  have hhere := h.1
  unfold sectionAfter settingOn
  cases hkind : kindOf line with
  | blank | comment =>
    rw [hkind] at hspec
    exact ⟨s, hspec, rfl, fun _ _ => rfl⟩
  | header name =>
    rw [hkind] at hspec
    exact ⟨_, hspec, rfl, fun _ _ => rfl⟩
  | bare | long =>
    rw [hkind] at hhere
    exact hhere.elim
  | nameless =>
    rw [hkind] at hspec hhere
    obtain ⟨name, value, -, hload⟩ := hspec
    rw [Loading.set, if_pos hhere] at hload
    exact ⟨s, hload, rfl, fun _ _ => rfl⟩
  | setting name value =>
    rw [hkind] at hspec
    exact ⟨_, hspec, s.curSection_set home name value, lookup_set s home name value⟩

theorem loadLine_cases (h : loadLine home s line = .ok s') :
    s'.curSection = sectionAfter s.curSection line ∧
      (s'.sections = s.sections ∨ ∃ name value, s' = s.set home name value) := by
  have hspec := loadLine_spec home s line
  unfold sectionAfter
  cases hkind : kindOf line with
  | blank | comment =>
    rw [hkind, h] at hspec
    cases hspec
    exact ⟨rfl, .inl rfl⟩
  | header name =>
    rw [hkind, h] at hspec
    cases hspec
    exact ⟨rfl, .inl rfl⟩
  | bare | long =>
    rw [hkind, h] at hspec
    cases hspec
  | nameless =>
    rw [hkind] at hspec
    obtain ⟨name, value, -, hload⟩ := hspec
    cases h.symm.trans hload
    exact ⟨s.curSection_set home name value, .inr ⟨name, value, rfl⟩⟩
  | setting name value =>
    rw [hkind, h] at hspec
    cases hspec
    exact ⟨s.curSection_set home name value, .inr ⟨name, value, rfl⟩⟩

theorem lookup_isSome_of_loadLine (h : loadLine home s line = .ok s') (hsome : (lookup s.sections sect name).isSome) :
    (lookup s'.sections sect name).isSome := by
  obtain ⟨-, hsame | ⟨n, v, rfl⟩⟩ := loadLine_cases h
  · rw [hsame]
    exact hsome
  · rw [lookup_set, Option.isSome_or, hsome, Bool.or_true]

theorem lookup_isSome_of_foldlM (h : ls.foldlM (loadLine home) s = .ok s')
    (hsome : (lookup s.sections sect name).isSome) : (lookup s'.sections sect name).isSome := by
  induction ls generalizing s with
  | nil =>
    cases h
    exact hsome
  | cons line ls ih =>
    rw [List.foldlM_cons] at h
    cases hline : loadLine home s line with
    | error e =>
      rw [hline] at h
      cases h
    | ok mid =>
      rw [hline] at h
      exact ih h (lookup_isSome_of_loadLine hline hsome)

theorem foldlM_proper (home : Option Str) (h : Proper s.curSection ls) :
    ∃ s', ls.foldlM (loadLine home) s = .ok s' ∧ ∀ sect name, lookup s'.sections sect name =
      (lastValue (settings home s.curSection ls) sect name).or (lookup s.sections sect name) := by
  induction ls generalizing s with
  | nil => exact ⟨s, rfl, fun _ _ => rfl⟩
  | cons line ls ih =>
    have hhere : Proper s.curSection [line] := ⟨h.1, trivial⟩
    obtain ⟨mid, hline, hcur, hmid⟩ := loadLine_proper home hhere
    have hrest := h.2
    rw [← hcur] at hrest
    obtain ⟨s', hload, hs'⟩ := ih hrest
    refine ⟨s', ?_, fun sect name => ?_⟩
    · rw [List.foldlM_cons, hline]
      exact hload
    · rw [hs', hmid, hcur, settings, lastValue_append, Option.or_assoc]

theorem exists_misread_of_not_proper (h : ¬Proper s.curSection ls) (hload : ls.foldlM (loadLine home) s = .ok s') :
    ∃ sect name, Misread name ∧ (lookup s'.sections sect name).isSome := by
  induction ls generalizing s with
  | nil => exact absurd trivial h
  | cons line ls ih =>
    rw [List.foldlM_cons] at hload
    cases hline : loadLine home s line with
    | error e =>
      rw [hline] at hload
      cases hload
    | ok mid =>
      rw [hline] at hload
      by_cases hhere : Proper s.curSection [line]
      · refine ih (fun hrest => h ⟨hhere.1, ?_⟩) hload
        rw [(loadLine_cases hline).1] at hrest
        exact hrest
      · have hspec := loadLine_spec home s line
        rw [hline] at hspec
        unfold Proper at hhere
        cases hkind : kindOf line with
        | blank | comment =>
          rw [hkind] at hhere
          exact absurd ⟨trivial, trivial⟩ hhere
        | header n | setting n v =>
          rw [hkind] at hhere
          exact absurd ⟨trivial, trivial⟩ hhere
        | bare | long =>
          rw [hkind] at hspec
          cases hspec
        | nameless =>
          rw [hkind] at hspec hhere
          obtain ⟨n, v, hmisread, hset⟩ := hspec
          cases hset
          refine ⟨s.curSection, n, hmisread, lookup_isSome_of_foldlM hload ?_⟩
          rw [Loading.set, if_neg fun hnil => hhere ⟨hnil, trivial⟩, lookup_setOption, if_pos ⟨rfl, rfl⟩]
          rfl

theorem lastValue_settings_of_misread (h : Misread name) (home : Option Str) (cur sect : Str) (ls : List Str) :
    lastValue (settings home cur ls) sect name = none := by
  induction ls generalizing cur with
  | nil => rfl
  | cons line ls ih =>
    rw [settings, lastValue_append, ih, Option.none_or]
    unfold settingOn
    split
    · next n v hkind =>
      split
      · rfl
      · have hother : ¬(cur = sect ∧ n = name) := fun hsame => not_misread_of_setting hkind (hsame.2 ▸ h)
        rw [lastValue, List.filter_cons_of_neg (by simpa using hother)]
        rfl
    · rfl

/-- A file is loaded as it reads if and only if its lines fit and every line that has to be a setting is one. -/
theorem loads_iff (home : Option Str) (content : Str) : Loads home content ↔ Proper [] (confLines content) := by
  constructor
  · intro h
    by_contra hproper
    obtain ⟨sections', hload, hmeans⟩ := h ∅
    rw [load] at hload
    cases hrun : (confLines content).foldlM (loadLine home) { curSection := [], sections := ∅ } with
    | error e =>
      rw [hrun] at hload
      cases hload
    | ok s' =>
      rw [hrun] at hload
      cases hload
      obtain ⟨sect, name, hmisread, hsome⟩ := exists_misread_of_not_proper hproper hrun
      rw [hmeans, lastValue_settings_of_misread hmisread] at hsome
      cases hsome
  · intro h sections
    have hstart : Proper (Loading.mk [] sections).curSection (confLines content) := h
    obtain ⟨s', hload, hmeans⟩ := foldlM_proper home hstart
    refine ⟨s'.sections, ?_, hmeans⟩
    rw [load, hload]
    rfl

/-- A line without an equals sign throws. -/
theorem not_loads_bare :
    load none ∅ (str "[server]\nport\n") = .error .outOfRange ∧ ¬Loads none (str "[server]\nport\n") := by
  have hload : load none ∅ (str "[server]\nport\n") = .error .outOfRange := by rfl
  refine ⟨hload, fun h => ?_⟩
  obtain ⟨sections', hok, -⟩ := h ∅
  cases hload.symm.trans hok

end

end Abacus.Config
