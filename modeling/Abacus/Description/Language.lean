import Abacus.Client.ProblemManip
import Abacus.Description.Tool

/-! # The language of descriptions

A description is a forest with attributes at its leaves. Its text has commas between the trees, and the
server and the tool are to find the leaves in it again.
-/

namespace Abacus.Description.Language

open Library.Bytes Misc Client.ProblemManip Description.Tool

def isPlain (b : UInt8) : Bool := !isProblemSpecial b && !isSpace b

structure Word where
  text : Str
  text_ne : text ≠ []
  plain : ∀ b ∈ text, isPlain b = true

inductive Shape
  | string
  | int
  | file
  | choice (first : Word) (rest : List Word)

def Shape.kind : Shape → Kind
  | .string => .string
  | .int => .int
  | .file => .file
  | .choice first rest => .choice ((first :: rest).map Word.text)

/-- A forest is empty or starts with a leaf or a group, before the trees that follow. -/
inductive Forest
  | nil
  | leaf (name : Word) (shape : Shape) (optional : Bool) (next : Forest)
  | group (name : Word) (children next : Forest)

namespace Forest

def Proper : Forest → Prop
  | nil => True
  | leaf _ _ _ next => next.Proper
  | group _ children next => children ≠ nil ∧ children.Proper ∧ next.Proper

def dotted (groups : List Word) (name : Word) : Str := (str ".").intercalate ((groups ++ [name]).map Word.text)

def leavesIn : Forest → List Word → List Attribute
  | nil, _ => []
  | leaf name shape optional next, groups =>
    { name := dotted groups name, kind := shape.kind, optional } :: next.leavesIn groups
  | group name children next, groups => children.leavesIn (groups ++ [name]) ++ next.leavesIn groups

def leaves (f : Forest) : List Attribute := f.leavesIn []

end Forest

section

theorem isPlain_iff (b : UInt8) : isPlain b = true ↔ isProblemSpecial b = false ∧ isSpace b = false := by
  simp [isPlain]

structure Plain (b : UInt8) : Prop where
  space : b ≠ 32
  comma : b ≠ 44
  opening : b ≠ 40
  closing : b ≠ 41
  brace : b ≠ 125
  isSpace : isSpace b = false

theorem plain_of_isPlain {b : UInt8} (h : isPlain b = true) : Plain b := by
  have hne {x : UInt8} (hx : isPlain x = false) : b ≠ x := by
    rintro rfl
    rw [h] at hx
    cases hx
  exact ⟨hne (by decide), hne (by decide), hne (by decide), hne (by decide), hne (by decide), ((isPlain_iff b).mp h).2⟩

variable (w : Word)

theorem Word.plainAt {b : UInt8} (hb : b ∈ w.text) : Plain b := plain_of_isPlain (w.plain b hb)

theorem Word.exists_cons : ∃ b t, w.text = b :: t ∧ isPlain b = true := by
  obtain ⟨b, t, htext⟩ := List.exists_cons_of_ne_nil w.text_ne
  exact ⟨b, t, htext, w.plain b (htext ▸ List.mem_cons_self)⟩

theorem Word.scan (rest : Str) : (w.text ++ 32 :: rest).takeWhile (· ≠ 32) = w.text ∧
    (w.text ++ 32 :: rest).dropWhile (· ≠ 32) = 32 :: rest := by
  have hall : ∀ b ∈ w.text, decide (b ≠ 32) = true := fun b hb => decide_eq_true (w.plainAt hb).space
  rw [List.takeWhile_append_of_pos hall, List.dropWhile_append_of_pos hall]
  simp

end

section

def Shape.render : Shape → Str
  | .string => str "S"
  | .int => str "I"
  | .file => str "F"
  | .choice first rest => str "\x7b" ++ (str ",").intercalate ((first :: rest).map Word.text) ++ str "\x7d"

namespace Forest

def continued : Forest → Str → Str
  | nil, _ => []
  | _, text => str ", " ++ text

def render : Forest → Str
  | nil => []
  | leaf name shape optional next =>
    name.text ++ str " " ++ shape.render ++ (if optional then str " ?" else []) ++ next.continued next.render
  | group name children next => name.text ++ str " (" ++ children.render ++ str ")" ++ next.continued next.render

def rounds : Forest → Nat
  | nil => 0
  | leaf _ _ _ next => next.rounds + 1
  | group _ children next => children.rounds + next.rounds + 1

variable {f : Forest}

theorem exists_cons_render (hne : f ≠ nil) : ∃ b t, f.render = b :: t ∧ isPlain b = true := by
  cases f with
  | nil => exact absurd rfl hne
  | leaf name shape optional next | group name children next =>
    obtain ⟨b, t, hname, hb⟩ := name.exists_cons
    simp only [render, hname, List.cons_append]
    exact ⟨_, _, rfl, hb⟩

theorem continued_of_ne (hne : f ≠ nil) (text : Str) : f.continued text = 44 :: 32 :: text := by
  cases f with
  | nil => exact absurd rfl hne
  | leaf name shape optional next | group name children next => rfl

theorem rounds_le_length (f : Forest) : f.rounds ≤ f.render.length := by
  have hcontinued (next : Forest) (h : next.rounds ≤ next.render.length) :
      next.rounds ≤ (next.continued next.render).length := by
    by_cases hne : next = nil
    · subst hne
      exact Nat.zero_le _
    · rw [continued_of_ne hne]
      simp only [List.length_cons]
      omega
  induction f with
  | nil => exact Nat.zero_le _
  | leaf name shape optional next ih =>
    have hname := List.length_pos_of_ne_nil name.text_ne
    have hnext := hcontinued next ih
    simp only [rounds, render, List.length_append]
    omega
  | group name children next ihc ihn =>
    have hname := List.length_pos_of_ne_nil name.text_ne
    have hnext := hcontinued next ihn
    simp only [rounds, render, List.length_append]
    omega

end Forest

end

def stackOf (groups : List Word) : List Str := (groups.map Word.text).reverse

theorem stackOf_concat (groups : List Word) (name : Word) :
    stackOf (groups ++ [name]) = name.text :: stackOf groups := by
  simp [stackOf]

end Abacus.Description.Language
