import Abacus.Description.Reading

/-! # Which descriptions the tool accepts

The descriptions that the parser accepts, and those on which it reads past the last token: it does not
compare its position behind the opening bracket of a list, nor behind an element.
-/

namespace Abacus.Description.Grammar

open Library Library.Bytes Description.Tool Description.Reading

/-- A name or a value. -/
def Plain (tok : Str) : Prop := ¬(isSpecialToken tok = true ∨ tok = [])

def commaSeparated (values : List Str) : List Str := values.intersperse (str ",")

inductive TypeWord : Str → ProblemAttributeType → Prop
  | int : TypeWord (str "I") .int
  | string : TypeWord (str "S") .string
  | file : TypeWord (str "F") .file

inductive Brackets : Str → Str → ProblemAttributeType → Prop
  | braces : Brackets (str "\x7b") (str "\x7d") .enum
  | square : Brackets (str "[") (str "]") .list

inductive TypeTokens : List Str → ProblemAttributeType → List Str → Prop
  | word {stype : Str} {type : ProblemAttributeType} (h : TypeWord stype type) : TypeTokens [stype] type []
  | values {opening closing : Str} {type : ProblemAttributeType} {values : List Str} (h : Brackets opening closing type)
    (hvalues : ∀ v ∈ values, Plain v) : TypeTokens (opening :: (commaSeparated values ++ [closing])) type values

def optionalTokens (optional : Bool) : List Str := if optional then [str "?"] else []

/-- An attribute with the brackets that close groups behind it. -/
inductive AttributeTokens (stack : List Str) (closed : Nat) : List Str → ProblemAttribute → Prop
  | mk {name : Str} {tokens values : List Str} {type : ProblemAttributeType} (optional : Bool) (hname : Plain name)
    (htype : TypeTokens tokens type values) : AttributeTokens stack closed
      (name :: (tokens ++ (optionalTokens optional ++ List.replicate closed (str ")"))))
      { name := qualifiedName stack name, type, values }

/-- What the parser can pass over in one round, with the open groups before and after it. -/
inductive Round : List Str → List Str → List ProblemAttribute → List Str → Prop
  | group {stack : List Str} {name : Str} (hname : Plain name) : Round stack [name, str "("] [] (name :: stack)
  | single {stack tokens : List Str} {closed : Nat} {a : ProblemAttribute} (hclosed : closed ≤ stack.length)
    (h : AttributeTokens stack closed tokens a) : Round stack (tokens ++ [str ","]) [a] (stack.drop closed)

/-- A description of attributes, inside of the groups of the stack. -/
inductive Described : List Str → List Str → List ProblemAttribute → Prop
  | last {stack tokens : List Str} {a : ProblemAttribute} (h : AttributeTokens stack stack.length tokens a) :
    Described stack tokens [a]
  | round {stack stack' tokens toks : List Str} {as as' : List ProblemAttribute} (h : Round stack tokens as stack')
    (hrest : Described stack' toks as') : Described stack (tokens ++ toks) (as ++ as')

/-- The tokens stop in a list, behind its opening bracket or behind a value. What stands before is in order. -/
inductive CutOff : List Str → List Str → Prop
  | here {stack values : List Str} {name opening closing : Str} {type : ProblemAttributeType} (hname : Plain name)
    (h : Brackets opening closing type) (hvalues : ∀ v ∈ values, Plain v) :
    CutOff stack (name :: opening :: commaSeparated values)
  | round {stack stack' tokens toks : List Str} {as : List ProblemAttribute} (h : Round stack tokens as stack')
    (hrest : CutOff stack' toks) : CutOff stack (tokens ++ toks)

section

variable {target tok opening : Str} {values rest : List Str} {type : ProblemAttributeType}

theorem commaSeparated_cons_cons (first second : Str) (values : List Str) :
    commaSeparated (first :: second :: values) = first :: str "," :: commaSeparated (second :: values) := rfl

theorem exists_commaSeparated_cons (first : Str) (values : List Str) :
    ∃ more, commaSeparated (first :: values) = first :: more := by
  cases values <;> exact ⟨_, rfl⟩

theorem Plain.ne_of_special (h : Plain tok) (htarget : isSpecialToken target = true) : tok ≠ target := by
  intro heq
  exact h (.inl (heq ▸ htarget))

theorem Brackets.special (h : Brackets opening target type) : isSpecialToken target = true := by
  cases h <;> decide

theorem Brackets.ne_group (h : Brackets opening target type) : opening ≠ str "(" := by
  cases h <;> decide

theorem Brackets.ne_comma (h : Brackets opening target type) : str "," ≠ target := by
  cases h <;> decide

theorem problemListElements_comma (htok : Plain tok) (hcomma : str "," ≠ target) (rest : List Str) :
    problemListElements target (tok :: str "," :: rest) =
      (problemListElements target rest).map fun (values, rest) => (tok :: values, rest) := by
  unfold Plain at htok
  rw [problemListElements, if_neg htok, if_neg hcomma, if_neg (not_not.mpr rfl)]

theorem problemListElements_ok (hcomma : str "," ≠ target) (first : Str) (hvalues : ∀ v ∈ first :: values, Plain v)
    (rest : List Str) : problemListElements target (commaSeparated (first :: values) ++ target :: rest) =
      .ok (first :: values, target :: rest) := by
  induction values generalizing first with
  | nil =>
    show problemListElements target (first :: target :: rest) = _
    rw [problemListElements, if_neg (hvalues first (.head _)), if_pos rfl]
  | cons second values ih =>
    obtain ⟨hfirst, hvalues⟩ := List.forall_mem_cons.mp hvalues
    show problemListElements target (first :: str "," :: (commaSeparated (second :: values) ++ target :: rest)) = _
    rw [problemListElements_comma hfirst hcomma, ih second hvalues]
    rfl

theorem problemListElements_outOfBounds (hcomma : str "," ≠ target) (first : Str)
    (hvalues : ∀ v ∈ first :: values, Plain v) :
    problemListElements target (commaSeparated (first :: values)) = .error .outOfBounds := by
  induction values generalizing first with
  | nil =>
    show problemListElements target [first] = _
    rw [problemListElements, if_neg (hvalues first (.head _))]
  | cons second values ih =>
    obtain ⟨hfirst, hvalues⟩ := List.forall_mem_cons.mp hvalues
    rw [commaSeparated_cons_cons, problemListElements_comma hfirst hcomma, ih second hvalues]
    rfl

/-- Values up to the closing bracket, values up to the end, or something else. -/
theorem problemListElements_cases (target : Str) (toks : List Str) :
    (∃ first values rest,
      (∀ v ∈ first :: values, Plain v) ∧ toks = commaSeparated (first :: values) ++ target :: rest) ∨
      (∃ first values, (∀ v ∈ first :: values, Plain v) ∧ toks = commaSeparated (first :: values)) ∨
      problemListElements target toks = .error badList := by
  fun_induction problemListElements target toks with
  | case1 | case2 => exact .inr (.inr rfl)
  | case3 tok htok => exact .inr (.inl ⟨tok, [], List.forall_mem_singleton.mpr htok, rfl⟩)
  | case4 => exact .inr (.inr rfl)
  | case5 tok rest htok => exact .inl ⟨tok, [], rest, List.forall_mem_singleton.mpr htok, rfl⟩
  | case6 => exact .inr (.inr rfl)
  | case7 tok next rest htok htarget hcomma ih =>
    obtain rfl := not_not.mp hcomma
    obtain ⟨first, values, after, hvalues, rfl⟩ | ⟨first, values, hvalues, rfl⟩ | hbad := ih
    · exact .inl ⟨tok, first :: values, after, List.forall_mem_cons.mpr ⟨htok, hvalues⟩, rfl⟩
    · exact .inr (.inl ⟨tok, first :: values, List.forall_mem_cons.mpr ⟨htok, hvalues⟩, rfl⟩)
    · rw [hbad]
      exact .inr (.inr rfl)

theorem problemParseList_values (h : Brackets opening target type) (hvalues : ∀ v ∈ values, Plain v) (rest : List Str) :
    problemParseList target (commaSeparated values ++ target :: rest) = .ok (values, target :: rest) := by
  cases values with
  | nil => exact if_pos rfl
  | cons first values =>
    have helements := problemListElements_ok h.ne_comma first hvalues rest
    obtain ⟨more, hmore⟩ := exists_commaSeparated_cons first values
    rw [hmore, List.cons_append] at helements ⊢
    rw [problemParseList, if_neg ((hvalues first (.head _)).ne_of_special h.special), helements]

theorem problemParseList_cut (h : Brackets opening target type) (hvalues : ∀ v ∈ values, Plain v) :
    problemParseList target (commaSeparated values) = .error .outOfBounds := by
  cases values with
  | nil => rfl
  | cons first values =>
    have helements := problemListElements_outOfBounds h.ne_comma first hvalues
    obtain ⟨more, hmore⟩ := exists_commaSeparated_cons first values
    rw [hmore] at helements ⊢
    rw [problemParseList, if_neg ((hvalues first (.head _)).ne_of_special h.special), helements]

theorem problemParseList_cases (target : Str) (toks : List Str) :
    (∃ values rest, (∀ v ∈ values, Plain v) ∧ toks = commaSeparated values ++ target :: rest) ∨
      (∃ values, (∀ v ∈ values, Plain v) ∧ toks = commaSeparated values) ∨
      problemParseList target toks = .error badList := by
  cases toks with
  | nil => exact .inr (.inl ⟨[], List.forall_mem_nil _, rfl⟩)
  | cons tok toks =>
    rw [problemParseList]
    split
    · next htok => exact .inl ⟨[], toks, List.forall_mem_nil _, congrArg (· :: toks) htok⟩
    · obtain ⟨first, values, rest, h⟩ | ⟨first, values, h⟩ | h := problemListElements_cases target (tok :: toks)
      · exact .inl ⟨first :: values, rest, h⟩
      · exact .inr (.inl ⟨first :: values, h⟩)
      · exact .inr (.inr h)

end

section

variable {stype opening closing : Str} {tokens values rest : List Str} {type : ProblemAttributeType}

theorem attributeType_brackets (h : Brackets opening closing type) (toks : List Str) :
    attributeType opening toks =
      (problemParseList closing toks).map fun (values, rest) => (type, values, rest.tail) := by
  cases h <;> rfl

theorem TypeTokens.exists_cons (h : TypeTokens tokens type values) :
    ∃ stype more, tokens = stype :: more ∧ stype ≠ str "(" ∧
      ∀ rest, attributeType stype (more ++ rest) = .ok (type, values, rest) := by
  cases h with
  | word h => cases h <;> exact ⟨_, [], rfl, by decide, fun _ => rfl⟩
  | values h hvalues =>
    refine ⟨_, _, rfl, h.ne_group, fun rest => ?_⟩
    rw [attributeType_brackets h, List.append_assoc, List.singleton_append, problemParseList_values h hvalues]
    rfl

theorem attributeType_cut (h : Brackets opening closing type) (hvalues : ∀ v ∈ values, Plain v) :
    attributeType opening (commaSeparated values) = .error .outOfBounds := by
  rw [attributeType_brackets h, problemParseList_cut h hvalues]
  rfl

theorem attributeType_first (stype : Str) (toks : List Str) :
    (∃ type, TypeWord stype type) ∨ (∃ closing type, Brackets stype closing type) ∨
      ∃ msg, attributeType stype toks = .error (.badFormat msg) := by
  unfold attributeType
  split
  · next h => exact .inl ⟨.int, h ▸ .int⟩
  split
  · next h => exact .inl ⟨.string, h ▸ .string⟩
  split
  · next h => exact .inl ⟨.file, h ▸ .file⟩
  split
  · next h => exact .inr (.inl ⟨str "\x7d", .enum, h ▸ .braces⟩)
  split
  · next h => exact .inr (.inl ⟨str "]", .list, h ▸ .square⟩)
  · exact .inr (.inr ⟨_, rfl⟩)

/-- A whole type, a list that is cut off, or something else. -/
theorem attributeType_cases (stype : Str) (toks : List Str) :
    (∃ tokens type values rest, TypeTokens tokens type values ∧ stype :: toks = tokens ++ rest ∧
        attributeType stype toks = .ok (type, values, rest)) ∨
      (∃ closing type values, Brackets stype closing type ∧ (∀ v ∈ values, Plain v) ∧ toks = commaSeparated values) ∨
      ∃ msg, attributeType stype toks = .error (.badFormat msg) := by
  obtain ⟨type, h⟩ | ⟨closing, type, h⟩ | hbad := attributeType_first stype toks
  · exact .inl ⟨[stype], type, [], toks, .word h, rfl, by cases h <;> rfl⟩
  · obtain ⟨values, rest, hvalues, rfl⟩ | ⟨values, hvalues, rfl⟩ | hlist := problemParseList_cases closing toks
    · refine .inl ⟨_, type, values, rest, .values h hvalues, by simp, ?_⟩
      rw [attributeType_brackets h, problemParseList_values h hvalues]
      rfl
    · exact .inr (.inl ⟨closing, type, values, h, hvalues, rfl⟩)
    · rw [attributeType_brackets h, hlist]
      exact .inr (.inr ⟨_, rfl⟩)
  · exact .inr (.inr hbad)

end

section

variable {stack stack' tokens toks rest : List Str} {as : List ProblemAttribute} {a : ProblemAttribute}
  {ans : Table Str ProblemAttribute} {fuel closed : Nat} {desc : Str}

theorem exists_skipOptional (toks : List Str) : ∃ optional, toks = optionalTokens optional ++ skipOptional toks := by
  cases toks with
  | nil => exact ⟨false, rfl⟩
  | cons tok rest =>
    rw [skipOptional]
    split
    · next htok =>
      subst htok
      exact ⟨true, rfl⟩
    · exact ⟨false, rfl⟩

theorem skipOptional_optionalTokens (optional : Bool) (h : toks.head? ≠ some (str "?")) :
    skipOptional (optionalTokens optional ++ toks) = toks := by
  cases optional with
  | true =>
    show skipOptional (str "?" :: toks) = toks
    rw [skipOptional, if_pos rfl]
  | false =>
    cases toks with
    | nil => rfl
    | cons tok rest => exact if_neg fun htok => h (congrArg some htok)

theorem closeGroups_spec (stack toks : List Str) :
    (∃ closed ≤ stack.length, ∃ rest, toks = List.replicate closed (str ")") ++ rest ∧
        closeGroups stack toks = .ok (stack.drop closed, rest)) ∨
      closeGroups stack toks = .error (.badFormat (str "Mismatched )")) := by
  fun_induction closeGroups stack toks with
  | case1 stack => exact .inl ⟨0, Nat.zero_le _, [], rfl, rfl⟩
  | case2 rest => exact .inr rfl
  | case3 rest name stack ih =>
    obtain ⟨closed, hclosed, rest', rfl, hgroups⟩ | hgroups := ih
    · exact .inl ⟨closed + 1, Nat.succ_le_succ hclosed, rest', rfl, hgroups⟩
    · exact .inr hgroups
  | case4 stack tok rest htok => exact .inl ⟨0, Nat.zero_le _, tok :: rest, rfl, rfl⟩

theorem closeGroups_replicate {closed : Nat} (hclosed : closed ≤ stack.length) (h : rest.head? ≠ some (str ")")) :
    closeGroups stack (List.replicate closed (str ")") ++ rest) = .ok (stack.drop closed, rest) := by
  induction closed generalizing stack with
  | zero =>
    cases rest with
    | nil => cases stack <;> rfl
    | cons tok rest =>
      have htok : tok ≠ str ")" := fun htok => h (congrArg some htok)
      show closeGroups stack (tok :: rest) = _
      unfold closeGroups
      rw [if_neg htok]
      rfl
  | succ closed ih =>
    cases stack with
    | nil => cases hclosed
    | cons name stack =>
      show closeGroups (name :: stack) (str ")" :: (List.replicate closed (str ")") ++ rest)) = _
      rw [closeGroups, if_pos rfl]
      exact ih (Nat.le_of_succ_le_succ hclosed)

theorem parse_not_plain {name : Str} (hname : ¬Plain name) :
    problemParseDescFrom (fuel + 1) stack ans (name :: toks) = .error missingName := by
  unfold Plain at hname
  cases toks with
  | nil | cons stype toks => rw [problemParseDescFrom, if_pos (not_not.mp hname)]

theorem parse_plain_group {name : Str} (hname : Plain name) :
    problemParseDescFrom (fuel + 1) stack ans (name :: str "(" :: toks) =
      problemParseDescFrom fuel (name :: stack) ans toks := by
  unfold Plain at hname
  rw [problemParseDescFrom, if_neg hname, if_pos rfl]

theorem parse_attribute {name stype : Str} (hname : Plain name) (hstype : stype ≠ str "(") :
    problemParseDescFrom (fuel + 1) stack ans (name :: stype :: toks) =
      (attributeType stype toks).bind fun (type, values, rest) =>
        resume fuel stack (ans.insert (qualifiedName stack name) { name := qualifiedName stack name, type, values })
          (skipOptional rest) := by
  unfold Plain at hname
  rw [problemParseDescFrom, if_neg hname, if_neg hstype]
  rfl

theorem AttributeTokens.two_le (h : AttributeTokens stack closed tokens a) : 2 ≤ tokens.length := by
  obtain ⟨optional, hname, htype⟩ := h
  obtain ⟨stype, more, rfl, -⟩ := htype.exists_cons
  exact Nat.succ_le_succ (Nat.succ_le_succ (Nat.zero_le _))

theorem Round.two_le (h : Round stack tokens as stack') : 2 ≤ tokens.length := by
  cases h with
  | group hname => exact le_refl 2
  | single hclosed h =>
    rw [List.length_append]
    exact h.two_le.trans (Nat.le_add_right _ _)

theorem parse_attributeTokens (h : AttributeTokens stack closed tokens a) (hrest : rest.head? ≠ some (str "?")) :
    problemParseDescFrom (fuel + 1) stack ans (tokens ++ rest) =
      resume fuel stack (ans.insert a.name a) (List.replicate closed (str ")") ++ rest) := by
  obtain @⟨name, tokens, values, type, optional, hname, htype⟩ := h
  have hhead : (List.replicate closed (str ")") ++ rest).head? ≠ some (str "?") := by
    cases closed with
    | zero => exact hrest
    | succ closed => exact fun h => absurd (Option.some.inj h) (by decide)
  obtain ⟨stype, more, rfl, hstype, hread⟩ := htype.exists_cons
  simp only [List.cons_append, List.append_assoc]
  rw [parse_attribute hname hstype, hread]
  show resume fuel stack _ (skipOptional _) = _
  rw [skipOptional_optionalTokens optional hhead]

def collect (ans : Table Str ProblemAttribute) (as : List ProblemAttribute) : Table Str ProblemAttribute :=
  Table.insertAll ProblemAttribute.name (fun a => a) ans as

theorem parse_round (h : Round stack tokens as stack') :
    problemParseDescFrom (fuel + 1) stack ans (tokens ++ rest) =
      problemParseDescFrom fuel stack' (collect ans as) rest := by
  cases h with
  | group hname => exact parse_plain_group hname
  | single hclosed h =>
    have hcomma : (str "," :: rest).head? ≠ some (str "?") := fun heq => absurd (Option.some.inj heq) (by decide)
    have hbracket : (str "," :: rest).head? ≠ some (str ")") := fun heq => absurd (Option.some.inj heq) (by decide)
    rw [List.append_assoc, List.singleton_append, parse_attributeTokens h hcomma, resume,
      closeGroups_replicate hclosed hbracket]
    rfl

theorem parse_last (h : AttributeTokens stack stack.length tokens a) :
    problemParseDescFrom (fuel + 1) stack ans tokens = .ok (ans.insert a.name a) := by
  have hend {tok : Str} : ([] : List Str).head? ≠ some tok := fun heq => by cases heq
  rw [← List.append_nil tokens, parse_attributeTokens h hend, resume, closeGroups_replicate (le_refl _) hend,
    List.drop_length]
  rfl

theorem round_cases (stack toks : List Str) :
    (∃ tokens as stack' rest, Round stack tokens as stack' ∧ toks = tokens ++ rest) ∨
      (∃ a, AttributeTokens stack stack.length toks a) ∨ CutOff stack toks ∨
        ∃ msg, ∀ fuel ans, problemParseDescFrom (fuel + 1) stack ans toks = .error (.badFormat msg) := by
  cases toks with
  | nil => exact .inr (.inr (.inr ⟨_, fun _ _ => rfl⟩))
  | cons name toks =>
    by_cases hname : Plain name
    · cases toks with
      | nil =>
        refine .inr (.inr (.inr ⟨str "Missing type", fun fuel ans => ?_⟩))
        rw [problemParseDescFrom, if_neg hname]
      | cons stype toks =>
        by_cases hstype : stype = str "("
        · subst hstype
          exact .inl ⟨[name, str "("], [], name :: stack, toks, .group hname, rfl⟩
        · obtain ⟨tokens, type, values, rest, htokens, htoks, htype⟩ | ⟨closing, type, values, hbrackets, hvalues,
            rfl⟩ | ⟨msg, htype⟩ := attributeType_cases stype toks
          · obtain ⟨optional, hoptional⟩ := exists_skipOptional rest
            have hresume (fuel : Nat) (ans : Table Str ProblemAttribute) :
                ∃ ans', problemParseDescFrom (fuel + 1) stack ans (name :: stype :: toks) =
                  resume fuel stack ans' (skipOptional rest) := by
              rw [parse_attribute hname hstype, htype]
              exact ⟨_, rfl⟩
            obtain ⟨closed, hclosed, after, hafter, hgroups⟩ | hgroups := closeGroups_spec stack (skipOptional rest)
            · have hattribute : AttributeTokens stack closed _ _ := .mk optional hname htokens
              have hall : name :: stype :: toks =
                  name :: (tokens ++ (optionalTokens optional ++ List.replicate closed (str ")"))) ++ after := by
                rw [htoks, hoptional, hafter]
                simp only [List.cons_append, List.append_assoc]
              cases after with
              | nil =>
                by_cases hstack : stack.drop closed = []
                · obtain rfl := hclosed.antisymm (List.drop_eq_nil_iff.mp hstack)
                  rw [hall, List.append_nil]
                  exact .inr (.inl ⟨_, hattribute⟩)
                · refine .inr (.inr (.inr ⟨str "Mismatched (", fun fuel ans => ?_⟩))
                  obtain ⟨ans', hparse⟩ := hresume fuel ans
                  rw [hparse, resume, hgroups]
                  exact if_pos hstack
              | cons tok next =>
                by_cases htok : tok = str ","
                · subst htok
                  refine .inl ⟨_, _, _, next, .single hclosed hattribute, ?_⟩
                  rw [hall, List.append_assoc, List.singleton_append]
                · refine .inr (.inr (.inr ⟨str "Expecting ,", fun fuel ans => ?_⟩))
                  obtain ⟨ans', hparse⟩ := hresume fuel ans
                  rw [hparse, resume, hgroups]
                  exact if_pos htok
            · refine .inr (.inr (.inr ⟨str "Mismatched )", fun fuel ans => ?_⟩))
              obtain ⟨ans', hparse⟩ := hresume fuel ans
              rw [hparse, resume, hgroups]
              rfl
          · exact .inr (.inr (.inl (.here hname hbrackets hvalues)))
          · refine .inr (.inr (.inr ⟨msg, fun fuel ans => ?_⟩))
            rw [parse_attribute hname hstype, htype]
            rfl
    · exact .inr (.inr (.inr ⟨str "Missing name", fun fuel ans => parse_not_plain hname⟩))

theorem Described.ne_nil (h : Described stack toks as) : toks ≠ [] := by
  rintro rfl
  generalize htoks : ([] : List Str) = toks at h
  cases h with
  | last h => exact absurd (htoks ▸ h.two_le) (by decide)
  | round h hrest => exact absurd ((List.append_eq_nil_iff.mp htoks.symm).1 ▸ h.two_le) (by decide)

theorem CutOff.ne_nil (h : CutOff stack toks) : toks ≠ [] := by
  rintro rfl
  generalize htoks : ([] : List Str) = toks at h
  cases h with
  | here hname h hvalues => cases htoks
  | round h hrest => exact absurd ((List.append_eq_nil_iff.mp htoks.symm).1 ▸ h.two_le) (by decide)

theorem collect_append (ans : Table Str ProblemAttribute) (as as' : List ProblemAttribute) :
    collect ans (as ++ as') = collect (collect ans as) as' := List.foldl_append

theorem parse_described (h : Described stack toks as) (hfuel : toks.length ≤ fuel) :
    problemParseDescFrom fuel stack ans toks = .ok (collect ans as) := by
  induction h generalizing fuel ans with
  | @last stack tokens a h =>
    have htwo := h.two_le
    obtain ⟨fuel, rfl⟩ : ∃ n, fuel = n + 1 := ⟨fuel - 1, by omega⟩
    exact parse_last h
  | @round stack stack' tokens toks as as' h hrest ih =>
    have htwo := h.two_le
    rw [List.length_append] at hfuel
    obtain ⟨fuel, rfl⟩ : ∃ n, fuel = n + 1 := ⟨fuel - 1, by omega⟩
    rw [parse_round h, ih (by omega), collect_append]

theorem parse_cutOff (h : CutOff stack toks) (hfuel : toks.length ≤ fuel) :
    problemParseDescFrom fuel stack ans toks = .error .outOfBounds := by
  induction h generalizing fuel ans with
  | here hname h hvalues =>
    obtain ⟨fuel, rfl⟩ : ∃ n, fuel = n + 1 := Nat.exists_eq_succ_of_ne_zero (Nat.ne_zero_of_lt hfuel)
    rw [parse_attribute hname h.ne_group, attributeType_cut h hvalues]
    rfl
  | @round stack stack' tokens toks as h hrest ih =>
    have htwo := h.two_le
    rw [List.length_append] at hfuel
    obtain ⟨fuel, rfl⟩ : ∃ n, fuel = n + 1 := ⟨fuel - 1, by omega⟩
    rw [parse_round h]
    exact ih (by omega)

theorem parse_cases (stack toks : List Str) :
    (∃ as, Described stack toks as) ∨ CutOff stack toks ∨
      ∃ msg, ∀ fuel ans,
        toks.length ≤ fuel → 0 < fuel → problemParseDescFrom fuel stack ans toks = .error (.badFormat msg) := by
  induction hlength : toks.length using Nat.strong_induction_on generalizing stack toks with
  | h n ih =>
    obtain ⟨tokens, as, stack', rest, h, rfl⟩ | ⟨a, h⟩ | h | ⟨msg, h⟩ := round_cases stack toks
    · have htwo := h.two_le
      rw [List.length_append] at hlength
      obtain ⟨as', hrest⟩ | hrest | ⟨msg, hrest⟩ := ih rest.length (by omega) stack' rest rfl
      · exact .inl ⟨as ++ as', .round h hrest⟩
      · exact .inr (.inl (.round h hrest))
      · refine .inr (.inr ⟨msg, fun fuel ans hfuel hpos => ?_⟩)
        obtain ⟨fuel, rfl⟩ := Nat.exists_eq_succ_of_ne_zero hpos.ne'
        rw [parse_round h]
        exact hrest fuel _ (by omega) (by omega)
    · exact .inl ⟨[a], .last h⟩
    · exact .inr (.inl h)
    · refine .inr (.inr ⟨msg, fun fuel ans hfuel hpos => ?_⟩)
      obtain ⟨fuel, rfl⟩ := Nat.exists_eq_succ_of_ne_zero hpos.ne'
      exact h fuel ans

/-- The attributes that a description lists. -/
def Lists (desc : Str) (as : List ProblemAttribute) : Prop :=
  desc.length < 2147483648 ∧ (problemTokenize desc = [] ∧ as = [] ∨ Described [] (problemTokenize desc) as)

def problemParseDescWithin (rounds : Nat) (desc : Str) : Except ParseError (Table Str ProblemAttribute) :=
  if 2147483648 ≤ desc.length then .error .tooLong
  else
    match problemTokenizeFrom rounds desc with
    | [] => .ok ∅
    | toks => problemParseDescFrom rounds [] ∅ toks

/-- It ends by itself, with a map or with `ProblemBadFormat`, and reads no token that is not there. -/
def ParsesSafely (desc : Str) : Prop :=
  (∀ rounds, desc.length < rounds → problemParseDescWithin rounds desc = problemParseDesc desc) ∧
    ((∃ ans, problemParseDesc desc = .ok ans) ∨ ∃ msg, problemParseDesc desc = .error (.badFormat msg))

theorem problemTokenizeFrom_rounds {fuel fuel' : Nat} (hfuel : desc.length < fuel) (hfuel' : desc.length < fuel') :
    problemTokenizeFrom fuel desc = problemTokenizeFrom fuel' desc := by
  induction fuel generalizing desc fuel' with
  | zero => cases hfuel
  | succ fuel ih =>
    cases fuel' with
    | zero => cases hfuel'
    | succ fuel' =>
      have hdrop : (desc.dropWhile (· = 32)).length ≤ desc.length := List.length_dropWhile_le _ _
      rw [problemTokenizeFrom, problemTokenizeFrom]
      cases hdesc : desc.dropWhile (· = 32) with
      | nil => rfl
      | cons b rest =>
        rw [hdesc, List.length_cons] at hdrop
        have hword : (rest.dropWhile (!isProblemSpecial ·)).length ≤ rest.length := List.length_dropWhile_le _ _
        dsimp only
        rw [ih (by omega) (show rest.length < fuel' by omega),
          ih (by omega) (hword.trans_lt (show rest.length < fuel' by omega))]

theorem problemParseDescFrom_rounds {toks : List Str} {fuel fuel' : Nat} (hfuel : toks.length ≤ fuel) (hpos : 0 < fuel)
    (hfuel' : toks.length ≤ fuel') (hpos' : 0 < fuel') (stack : List Str) (ans : Table Str ProblemAttribute) :
    problemParseDescFrom fuel stack ans toks = problemParseDescFrom fuel' stack ans toks := by
  obtain ⟨as, h⟩ | h | ⟨msg, h⟩ := parse_cases stack toks
  · rw [parse_described h hfuel, parse_described h hfuel']
  · rw [parse_cutOff h hfuel, parse_cutOff h hfuel']
  · rw [h fuel ans hfuel hpos, h fuel' ans hfuel' hpos']

theorem problemParseDescWithin_eq {rounds : Nat} (h : desc.length < rounds) :
    problemParseDescWithin rounds desc = problemParseDesc desc := by
  have htoks : problemTokenizeFrom rounds desc = problemTokenize desc :=
    problemTokenizeFrom_rounds h (Nat.lt_succ_self _)
  have hlength : (problemTokenize desc).length ≤ desc.length := length_problemTokenizeFrom _ desc
  rw [problemParseDescWithin, problemParseDesc, htoks]
  congr 1
  cases hfirst : problemTokenize desc with
  | nil => rfl
  | cons tok toks =>
    rw [hfirst] at hlength
    have hpos : 0 < (tok :: toks).length := List.length_pos_of_ne_nil (List.cons_ne_nil _ _)
    exact problemParseDescFrom_rounds (by omega) (by omega) (le_refl _) hpos [] ∅

theorem problemParseDesc_eq (hlength : desc.length < 2147483648) : problemParseDesc desc =
    if problemTokenize desc = [] then .ok ∅
    else problemParseDescFrom (problemTokenize desc).length [] ∅ (problemTokenize desc) := by
  rw [problemParseDesc, if_neg (Nat.not_le.mpr hlength)]
  cases problemTokenize desc with
  | nil | cons tok toks => rfl

theorem problemParseDesc_cases (hlength : desc.length < 2147483648) :
    (∃ as, Lists desc as ∧ problemParseDesc desc = .ok (collect ∅ as)) ∨
      (CutOff [] (problemTokenize desc) ∧ problemParseDesc desc = .error .outOfBounds) ∨
      ∃ msg, problemParseDesc desc = .error (.badFormat msg) := by
  rw [problemParseDesc_eq hlength]
  by_cases hempty : problemTokenize desc = []
  · exact .inl ⟨[], ⟨hlength, .inl ⟨hempty, rfl⟩⟩, if_pos hempty⟩
  rw [if_neg hempty]
  obtain ⟨as, h⟩ | h | ⟨msg, h⟩ := parse_cases [] (problemTokenize desc)
  · exact .inl ⟨as, ⟨hlength, .inr h⟩, parse_described h (le_refl _)⟩
  · exact .inr (.inl ⟨h, parse_cutOff h (le_refl _)⟩)
  · exact .inr (.inr ⟨msg, h _ ∅ (le_refl _) (List.length_pos_of_ne_nil hempty)⟩)

theorem problemParseDesc_of_lists {as : List ProblemAttribute} (h : Lists desc as) :
    problemParseDesc desc = .ok (collect ∅ as) := by
  obtain ⟨hlength, ⟨hempty, rfl⟩ | h⟩ := h
  · rw [problemParseDesc_eq hlength, if_pos hempty]
    rfl
  · rw [problemParseDesc_eq hlength, if_neg h.ne_nil]
    exact parse_described h (le_refl _)

/-- The parser is safe on every description that fits its positions and does not stop in a list. -/
theorem parsesSafely_iff (desc : Str) :
    ParsesSafely desc ↔ desc.length < 2147483648 ∧ ¬CutOff [] (problemTokenize desc) := by
  constructor
  · rintro ⟨-, hends⟩
    have hlength : desc.length < 2147483648 := by
      by_contra hlong
      rw [problemParseDesc, if_pos (Nat.not_lt.mp hlong)] at hends
      obtain ⟨ans, h⟩ | ⟨msg, h⟩ := hends <;> cases h
    refine ⟨hlength, fun hcut => ?_⟩
    rw [problemParseDesc_eq hlength, if_neg hcut.ne_nil, parse_cutOff hcut (le_refl _)] at hends
    obtain ⟨ans, h⟩ | ⟨msg, h⟩ := hends <;> cases h
  · rintro ⟨hlength, h⟩
    refine ⟨fun rounds hrounds => problemParseDescWithin_eq hrounds, ?_⟩
    obtain ⟨as, -, hparse⟩ | ⟨hcut, -⟩ | hbad := problemParseDesc_cases hlength
    · exact .inl ⟨_, hparse⟩
    · exact absurd hcut h
    · exact .inr hbad

/-- A description that stops behind the value of a list. -/
theorem not_parsesSafely_cut : ¬ParsesSafely (str "output \x7bnone") := by
  rintro ⟨-, h⟩
  have hbounds : problemParseDesc (str "output \x7bnone") = .error .outOfBounds := by rfl
  rw [hbounds] at h
  obtain ⟨ans, h⟩ | ⟨msg, h⟩ := h
  · cases h
  · cases h

end

end Abacus.Description.Grammar
