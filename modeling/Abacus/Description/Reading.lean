import Abacus.Description.Language

/-! # The tool finds the leaves

The parser of `abacustool` comes to each leaf of the text of a forest in turn.
-/

namespace Abacus.Description.Reading

open Library Library.Bytes Client.ProblemManip Description.Tool Description.Language

section

def valueTokens (first : Word) : List Word → List Str
  | [] => [first.text]
  | second :: values => first.text :: str "," :: valueTokens second values

def shapeTokens : Shape → List Str
  | .string => [str "S"]
  | .int => [str "I"]
  | .file => [str "F"]
  | .choice first values => str "\x7b" :: (valueTokens first values ++ [str "\x7d"])

def continuedTokens : Forest → List Str → List Str
  | .nil, _ => []
  | _, toks => str "," :: toks

def tokens : Forest → List Str
  | .nil => []
  | .leaf name shape optional next =>
    name.text :: (shapeTokens shape ++ ((if optional then [str "?"] else []) ++ continuedTokens next (tokens next)))
  | .group name children next =>
    name.text :: str "(" :: (tokens children ++ str ")" :: continuedTokens next (tokens next))

def Lexes (text : Str) (toks : List Str) : Prop := ∀ fuel, toks.length < fuel → problemTokenizeFrom fuel text = toks

def Breaks (rest : Str) : Prop := ∀ b ∈ rest.head?, isProblemSpecial b = true

variable {text : Str} {toks : List Str}

theorem lexes_nil : Lexes [] [] := by
  intro fuel hfuel
  obtain ⟨fuel, rfl⟩ := Nat.exists_eq_succ_of_ne_zero (Nat.ne_zero_of_lt hfuel)
  rfl

theorem Lexes.space (h : Lexes text toks) : Lexes (32 :: text) toks := by
  intro fuel hfuel
  rw [← h fuel hfuel]
  cases fuel with
  | zero => rfl
  | succ fuel => simp only [problemTokenizeFrom, List.dropWhile_cons_of_pos, decide_true]

theorem Lexes.special {b : UInt8} (h : Lexes text toks) (hb : isProblemSpecial b = true) (hspace : b ≠ 32) :
    Lexes (b :: text) ([b] :: toks) := by
  intro fuel hfuel
  cases fuel with
  | zero => cases hfuel
  | succ fuel =>
    rw [problemTokenizeFrom, List.dropWhile_cons_of_neg (by simpa using hspace)]
    simp only [hb, if_true]
    rw [h fuel (Nat.lt_of_succ_lt_succ hfuel)]

theorem Lexes.plain {w : Str} (h : Lexes text toks) (hne : w ≠ []) (hw : ∀ b ∈ w, isProblemSpecial b = false)
    (hbreaks : Breaks text) : Lexes (w ++ text) (w :: toks) := by
  intro fuel hfuel
  obtain ⟨b, w, rfl⟩ := List.exists_cons_of_ne_nil hne
  rw [List.forall_mem_cons] at hw
  have hspace : b ≠ 32 := by
    rintro rfl
    exact absurd hw.1 (by decide)
  have hword : ∀ x ∈ w, (!isProblemSpecial x) = true := by
    intro x hx
    rw [hw.2 x hx]
    rfl
  have hend : text.takeWhile (!isProblemSpecial ·) = [] ∧ text.dropWhile (!isProblemSpecial ·) = text := by
    cases text with
    | nil => exact ⟨rfl, rfl⟩
    | cons x text =>
      have hx := hbreaks x rfl
      simp [hx]
  cases fuel with
  | zero => cases hfuel
  | succ fuel =>
    rw [List.cons_append, problemTokenizeFrom, List.dropWhile_cons_of_neg (by simpa using hspace)]
    simp only [hw.1]
    rw [List.takeWhile_append_of_pos hword, List.dropWhile_append_of_pos hword, hend.1, hend.2, List.append_nil,
      h fuel (Nat.lt_of_succ_lt_succ hfuel)]
    rfl

theorem Lexes.word (h : Lexes text toks) (w : Word) (hbreaks : Breaks text) : Lexes (w.text ++ text) (w.text :: toks) :=
  h.plain w.text_ne (fun b hb => ((isPlain_iff b).mp (w.plain b hb)).1) hbreaks

theorem length_problemTokenizeFrom (fuel : Nat) (text : Str) :
    (problemTokenizeFrom fuel text).length ≤ text.length := by
  induction fuel generalizing text with
  | zero => exact Nat.zero_le _
  | succ fuel ih =>
    have hdrop : (text.dropWhile (· = 32)).length ≤ text.length := List.length_dropWhile_le _ _
    rw [problemTokenizeFrom]
    split
    · exact Nat.zero_le _
    · next b rest htext =>
      rw [htext, List.length_cons] at hdrop
      split
      · have hrest := ih rest
        rw [List.length_cons]
        omega
      · have hrest := ih (rest.dropWhile (!isProblemSpecial ·))
        have hword : (rest.dropWhile (!isProblemSpecial ·)).length ≤ rest.length := List.length_dropWhile_le _ _
        rw [List.length_cons]
        omega

theorem Lexes.length_le (h : Lexes text toks) : toks.length ≤ text.length := by
  have hlength := length_problemTokenizeFrom (toks.length + 1) text
  rwa [h _ (Nat.lt_succ_self _)] at hlength

theorem breaks_cons {b : UInt8} (hb : isProblemSpecial b = true) (rest : Str) : Breaks (b :: rest) := by
  rintro x ⟨⟩
  exact hb

theorem lexes_values (h : Lexes text toks) (hbreaks : Breaks text) (first : Word) (values : List Word) :
    Lexes ((str ",").intercalate ((first :: values).map Word.text) ++ text) (valueTokens first values ++ toks) := by
  induction values generalizing first with
  | nil =>
    rw [List.map_singleton, List.intercalate_singleton]
    exact h.word first hbreaks
  | cons second values ih =>
    rw [List.map_cons, List.map_cons, List.intercalate_cons_cons, List.append_assoc, List.append_assoc]
    exact ((ih second).special (b := 44) (by decide) (by decide)).word first (breaks_cons (by decide) _)

theorem lexes_shape (h : Lexes text toks) (hbreaks : Breaks text) (shape : Shape) :
    Lexes (shape.render ++ text) (shapeTokens shape ++ toks) := by
  cases shape with
  | string => exact h.plain (w := str "S") (by decide) (by decide +kernel) hbreaks
  | int => exact h.plain (w := str "I") (by decide) (by decide +kernel) hbreaks
  | file => exact h.plain (w := str "F") (by decide) (by decide +kernel) hbreaks
  | choice first values =>
    have hclose : Lexes (125 :: text) (str "\x7d" :: toks) := h.special (by decide) (by decide)
    have hvalues :=
      (lexes_values hclose (breaks_cons (by decide) _) first values).special (b := 123) (by decide) (by decide)
    simp only [Shape.render, shapeTokens, List.append_assoc, List.cons_append]
    exact hvalues

theorem breaks_optional {text : Str} (h : Breaks text) (optional : Bool) :
    Breaks ((if optional then str " ?" else []) ++ text) := by
  cases optional with
  | true => exact breaks_cons (by decide) _
  | false => exact h

theorem Lexes.optional (h : Lexes text toks) (optional : Bool) :
    Lexes ((if optional then str " ?" else []) ++ text) ((if optional then [str "?"] else []) ++ toks) := by
  cases optional with
  | true => exact (h.special (b := 63) (by decide) (by decide)).space
  | false => exact h

def Splits (f : Forest) : Prop := ∀ (text : Str) (toks : List Str), Lexes text toks → Breaks text →
  Lexes (f.render ++ text) (tokens f ++ toks)

theorem breaks_continued (f : Forest) (hbreaks : Breaks text) : Breaks (f.continued f.render ++ text) := by
  cases f with
  | nil => exact hbreaks
  | leaf name shape optional next | group name children next => exact breaks_cons (by decide) _

theorem lexes_continued {f : Forest} (hf : Splits f) (h : Lexes text toks) (hbreaks : Breaks text) :
    Lexes (f.continued f.render ++ text) (continuedTokens f (tokens f) ++ toks) := by
  have hsplits := ((hf text toks h hbreaks).space).special (b := 44) (by decide) (by decide)
  cases f with
  | nil => exact h
  | leaf name shape optional next | group name children next => exact hsplits

theorem splits (f : Forest) : Splits f := by
  induction f with
  | nil =>
    intro text toks h _
    exact h
  | leaf name shape optional next ih =>
    intro text toks h hbreaks
    have hcontinued := breaks_continued next hbreaks
    have hmark := (lexes_continued ih h hbreaks).optional optional
    have hshape := lexes_shape hmark (breaks_optional hcontinued optional) shape
    have hname := hshape.space.word name (breaks_cons (by decide) _)
    simp only [Forest.render, tokens, List.append_assoc, List.cons_append]
    exact hname
  | group name children next ihc ihn =>
    intro text toks h hbreaks
    have hclose := (lexes_continued ihn h hbreaks).special (b := 41) (by decide) (by decide)
    have hchildren := ihc _ _ hclose (breaks_cons (by decide) _)
    have hopen := (hchildren.special (b := 40) (by decide) (by decide)).space
    have hname := hopen.word name (breaks_cons (by decide) _)
    simp only [Forest.render, tokens, List.append_assoc, List.cons_append]
    exact hname

end

section

theorem not_special_word (w : Word) : ¬ (isSpecialToken w.text = true ∨ w.text = []) := by
  rintro (hspecial | hnil)
  · obtain ⟨b, t, htext, hb⟩ := w.exists_cons
    have hplain := ((isPlain_iff b).mp hb).1
    rw [htext] at hspecial
    cases t with
    | nil =>
      rw [isSpecialToken, hplain] at hspecial
      cases hspecial
    | cons x t => cases hspecial
  · exact w.text_ne hnil

theorem ne_of_special (w : Word) {tok : Str} (htok : isSpecialToken tok = true) : w.text ≠ tok := by
  rintro rfl
  exact not_special_word w (.inl htok)

variable (rest : List Str)

theorem problemListElements_values (first : Word) (values : List Word) :
    problemListElements (str "\x7d") (valueTokens first values ++ str "\x7d" :: rest) =
      .ok ((first :: values).map Word.text, str "\x7d" :: rest) := by
  induction values generalizing first with
  | nil =>
    rw [valueTokens, List.singleton_append, problemListElements, if_neg (not_special_word first), if_pos rfl]
    rfl
  | cons second values ih =>
    rw [valueTokens, List.cons_append, List.cons_append, problemListElements, if_neg (not_special_word first),
      if_neg (by decide), if_neg (by decide), ih]
    rfl

def typeOf : Kind → ProblemAttributeType
  | .string => .string
  | .int => .int
  | .file => .file
  | .choice _ => .enum

def valuesOf : Kind → List Str
  | .choice values => values
  | _ => []

theorem attributeType_tokens (shape : Shape) : ∃ stype more, shapeTokens shape = stype :: more ∧ stype ≠ str "(" ∧
    attributeType stype (more ++ rest) = .ok (typeOf shape.kind, valuesOf shape.kind, rest) := by
  cases shape with
  | string | int | file => exact ⟨_, [], rfl, by decide, rfl⟩
  | choice first values =>
    refine ⟨_, _, rfl, by decide, ?_⟩
    have hlist : problemParseList (str "\x7d") (valueTokens first values ++ str "\x7d" :: rest) =
        .ok ((first :: values).map Word.text, str "\x7d" :: rest) := by
      obtain ⟨more, htoks⟩ : ∃ more, valueTokens first values = first.text :: more := by
        cases values <;> exact ⟨_, rfl⟩
      have helements := problemListElements_values rest first values
      rw [htoks, List.cons_append] at helements ⊢
      rw [problemParseList, if_neg (ne_of_special first (by decide)), helements]
    rw [List.append_assoc, List.singleton_append, attributeType, if_neg (by decide), if_neg (by decide),
      if_neg (by decide), if_pos rfl, hlist]
    rfl

end

section

def resume (fuel : Nat) (stack : List Str) (ans : Table Str ProblemAttribute) (rest : List Str) :
    Except ParseError (Table Str ProblemAttribute) := do
  let (stack, rest) ← closeGroups stack rest
  match rest with
  | [] => if stack ≠ [] then .error (.badFormat (str "Mismatched (")) else .ok ans
  | tok :: rest =>
    if tok ≠ str "," then .error (.badFormat (str "Expecting ,")) else problemParseDescFrom fuel stack ans rest

variable {fuel : Nat} {stack : List Str} {ans : Table Str ProblemAttribute} {rest : List Str}

theorem resume_closing (name : Str) :
    resume fuel (name :: stack) ans (str ")" :: rest) = resume fuel stack ans rest := by
  rw [resume, closeGroups, if_pos rfl]
  rfl

theorem resume_comma : resume fuel stack ans (str "," :: rest) = problemParseDescFrom fuel stack ans rest := by
  rw [resume, closeGroups.eq_def]
  rfl

theorem parse_group (name : Word) : problemParseDescFrom (fuel + 1) stack ans (name.text :: str "(" :: rest) =
    problemParseDescFrom fuel (name.text :: stack) ans rest := by
  rw [problemParseDescFrom, if_neg (not_special_word name), if_pos rfl]

def toolAttribute (a : Attribute) : ProblemAttribute where
  name := a.name
  type := typeOf a.kind
  values := valuesOf a.kind

/-- What may follow a tree: nothing, a comma or a closing bracket. -/
def Ended (rest : List Str) : Prop := rest = [] ∨ (∃ t, rest = str "," :: t) ∨ ∃ t, rest = str ")" :: t

theorem skipOptional_tokens (optional : Bool) (h : Ended rest) :
    skipOptional ((if optional then [str "?"] else []) ++ rest) = rest := by
  cases optional with
  | true => rfl
  | false => obtain rfl | ⟨t, rfl⟩ | ⟨t, rfl⟩ := h <;> rfl

theorem qualifiedName_stackOf (groups : List Word) (name : Word) :
    qualifiedName (stackOf groups) name.text = Forest.dotted groups name := by
  rw [qualifiedName, stackOf, List.reverse_reverse, Forest.dotted]
  induction groups with
  | nil => exact List.intercalate_singleton.symm
  | cons outer groups ih =>
    rw [List.map_cons, List.flatMap_cons, List.append_assoc, ih, List.cons_append, List.map_cons,
      List.intercalate_cons_of_ne_nil (by simp)]

theorem parse_leaf (groups : List Word) (name : Word) (shape : Shape) (optional : Bool) (h : Ended rest) :
    problemParseDescFrom (fuel + 1) (stackOf groups) ans
      (name.text :: (shapeTokens shape ++ ((if optional then [str "?"] else []) ++ rest))) =
      resume fuel (stackOf groups) (ans.insert (Forest.dotted groups name)
        (toolAttribute { name := Forest.dotted groups name, kind := shape.kind, optional })) rest := by
  obtain ⟨stype, more, htoks, hgroup, htype⟩ :=
    attributeType_tokens ((if optional then [str "?"] else []) ++ rest) shape
  rw [htoks, List.cons_append, problemParseDescFrom, if_neg (not_special_word name), if_neg hgroup, htype]
  simp only [qualifiedName_stackOf]
  change (do
    let (stack, rest) ← closeGroups (stackOf groups) (skipOptional ((if optional then [str "?"] else []) ++ rest))
    _ : Except ParseError (Table Str ProblemAttribute)) = _
  rw [skipOptional_tokens optional h]
  rfl

end

section

def Closed (rest : List Str) : Prop := rest = [] ∨ ∃ t, rest = str ")" :: t

def enter (ans : Table Str ProblemAttribute) (as : List Attribute) : Table Str ProblemAttribute :=
  as.foldl (fun ans a => ans.insert a.name (toolAttribute a)) ans

/-- The parser enters the leaves of the forest, and goes on with what follows it. -/
def Reads (f : Forest) : Prop :=
  ∀ (groups : List Word) (ans : Table Str ProblemAttribute) (rest : List Str) (fuel : Nat), Closed rest →
    problemParseDescFrom (f.rounds + fuel) (stackOf groups) ans (tokens f ++ rest) =
      resume fuel (stackOf groups) (enter ans (f.leavesIn groups)) rest

variable {f : Forest} {groups : List Word} {ans : Table Str ProblemAttribute} {rest : List Str} {fuel : Nat}

theorem continuedTokens_of_ne (hne : f ≠ .nil) (toks : List Str) : continuedTokens f toks = str "," :: toks := by
  cases f with
  | nil => exact absurd rfl hne
  | leaf name shape optional next | group name children next => rfl

theorem resume_continued (h : f ≠ .nil → Reads f) (hrest : Closed rest) :
    resume (f.rounds + fuel) (stackOf groups) ans (continuedTokens f (tokens f) ++ rest) =
      resume fuel (stackOf groups) (enter ans (f.leavesIn groups)) rest := by
  by_cases hne : f = .nil
  · subst hne
    simp [Forest.rounds, continuedTokens, Forest.leavesIn, enter]
  · rw [continuedTokens_of_ne hne, List.cons_append, resume_comma]
    exact h hne groups ans rest fuel hrest

theorem ended_continued (f : Forest) (hrest : Closed rest) : Ended (continuedTokens f (tokens f) ++ rest) := by
  by_cases hne : f = .nil
  · subst hne
    obtain rfl | ⟨t, rfl⟩ := hrest
    · exact .inl rfl
    · exact .inr (.inr ⟨t, rfl⟩)
  · rw [continuedTokens_of_ne hne]
    exact .inr (.inl ⟨_, rfl⟩)

theorem reads_leaf (name : Word) (shape : Shape) (optional : Bool) {next : Forest} (hnext : next ≠ .nil → Reads next) :
    Reads (.leaf name shape optional next) := by
  intro groups ans rest fuel hrest
  have htoks : tokens (.leaf name shape optional next) ++ rest = name.text :: (shapeTokens shape ++
      ((if optional then [str "?"] else []) ++ (continuedTokens next (tokens next) ++ rest))) := by
    simp only [tokens, List.append_assoc, List.cons_append]
  have hfuel : (Forest.leaf name shape optional next).rounds + fuel = next.rounds + fuel + 1 := by
    rw [Forest.rounds]
    omega
  rw [htoks, hfuel, parse_leaf groups name shape optional (ended_continued next hrest), resume_continued hnext hrest]
  rfl

theorem reads_group (name : Word) {children next : Forest} (hchildren : Reads children)
    (hnext : next ≠ .nil → Reads next) : Reads (.group name children next) := by
  intro groups ans rest fuel hrest
  have htoks : tokens (.group name children next) ++ rest =
      name.text :: str "(" :: (tokens children ++ str ")" :: (continuedTokens next (tokens next) ++ rest)) := by
    simp only [tokens, List.append_assoc, List.cons_append]
  have hfuel : (Forest.group name children next).rounds + fuel = children.rounds + (next.rounds + fuel) + 1 := by
    rw [Forest.rounds]
    omega
  rw [htoks, hfuel, parse_group, ← stackOf_concat, hchildren _ _ _ _ (.inr ⟨_, rfl⟩), stackOf_concat, resume_closing,
    resume_continued hnext hrest, enter, enter, enter, ← List.foldl_append]
  rfl

theorem reads_of_proper (f : Forest) (hf : f.Proper) (hne : f ≠ .nil) : Reads f := by
  induction f with
  | nil => exact absurd rfl hne
  | leaf name shape optional next ih => exact reads_leaf name shape optional (ih hf)
  | group name children next ihc ihn =>
    obtain ⟨hchildren, hpc, hpn⟩ := hf
    exact reads_group name (ihc hpc hchildren) (ihn hpn)

theorem length_continuedTokens (f : Forest) : (tokens f).length ≤ (continuedTokens f (tokens f)).length := by
  cases f with
  | nil => exact Nat.le_refl _
  | leaf name shape optional next | group name children next => exact Nat.le_succ _

theorem rounds_le_tokens (f : Forest) : f.rounds ≤ (tokens f).length := by
  induction f with
  | nil => exact Nat.le_refl _
  | leaf name shape optional next ih | group name children next ihc ihn =>
    have hnext := length_continuedTokens next
    simp only [Forest.rounds, tokens, List.length_cons, List.length_append]
    omega

/-- The tool reads the description of a forest as the table of its leaves. -/
theorem problemParseDesc_render (f : Forest) (hf : f.Proper) (hlength : f.render.length < 2147483648) :
    problemParseDesc f.render = .ok (enter ∅ f.leaves) := by
  have hlexes : Lexes f.render (tokens f) := by
    have hsplits := splits f [] [] lexes_nil nofun
    rwa [List.append_nil, List.append_nil] at hsplits
  have htoks : problemTokenize f.render = tokens f := hlexes _ (Nat.lt_succ_of_le hlexes.length_le)
  by_cases hne : f = .nil
  · subst hne
    rfl
  · have hreads := reads_of_proper f hf hne [] ∅ [] ((tokens f).length - f.rounds) (.inl rfl)
    have hfuel : f.rounds + ((tokens f).length - f.rounds) = (tokens f).length := by
      have hrounds := rounds_le_tokens f
      omega
    rw [List.append_nil, hfuel] at hreads
    rw [problemParseDesc, if_neg (Nat.not_le.mpr hlength), htoks]
    cases htokens : tokens f with
    | nil =>
      cases f with
      | nil => exact absurd rfl hne
      | leaf name shape optional next | group name children next => cases htokens
    | cons tok toks =>
      rw [htokens] at hreads
      exact hreads

theorem getElem?_enter (as : List Attribute) (hnames : (as.map Attribute.name).Nodup) (name : Str)
    (p : ProblemAttribute) :
    (enter ans as)[name]? = some p ↔ (∃ a ∈ as, a.name = name ∧ p = toolAttribute a) ∨
      ans[name]? = some p ∧ name ∉ as.map Attribute.name := by
  induction as generalizing ans with
  | nil => simp [enter]
  | cons a as ih =>
    rw [List.map_cons, List.nodup_cons] at hnames
    rw [enter, List.foldl_cons, ← enter, ih hnames.2, Table.getElem?_insert_row]
    by_cases hname : a.name = name
    · subst hname
      constructor
      · rintro (⟨b, hb, hname, rfl⟩ | ⟨hp, -⟩)
        · exact .inl ⟨b, List.mem_cons_of_mem _ hb, hname, rfl⟩
        · rw [if_pos rfl, Option.some.injEq] at hp
          exact .inl ⟨a, List.mem_cons_self, rfl, hp.symm⟩
      · rintro (⟨b, hb, hname, rfl⟩ | ⟨-, hno⟩)
        · obtain rfl | hb := List.mem_cons.mp hb
          · exact .inr ⟨if_pos rfl, hnames.1⟩
          · exact .inl ⟨b, hb, hname, rfl⟩
        · exact absurd List.mem_cons_self hno
    · have hname' : name ≠ a.name := fun h => hname h.symm
      simp [hname, hname']

end

end Abacus.Description.Reading
