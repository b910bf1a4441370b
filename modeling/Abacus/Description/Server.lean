import Abacus.Description.Language

/-! # The server finds the leaves

`attributes` comes to each leaf of the text of a forest in turn, with the groups around it on its stack.
-/

namespace Abacus.Description.Server

open Library.Bytes Misc Client.ProblemManip Description.Language

section

variable {stack : List Str} {rest : Str} {b : UInt8} (first : Word) (values : List Word)

theorem skip_nil : skip stack [] = some (stack, []) := by
  cases stack <;> rfl

theorem skip_closing (name : Str) : skip (name :: stack) (41 :: rest) = skip stack rest := rfl

theorem skip_plain (hb : isPlain b = true) : skip stack (b :: rest) = some (stack, b :: rest) := by
  have hplain := plain_of_isPlain hb
  have hdrop : (b :: rest).dropWhile isSpace = b :: rest := by simp [hplain.isSpace]
  unfold skip
  split
  · next heq => exact absurd (List.cons.inj heq).1 hplain.closing
  · next heq => exact absurd (List.cons.inj heq).1 hplain.closing
  · next heq => exact absurd (List.cons.inj heq).1 hplain.comma
  · rw [hdrop]

theorem skip_comma (hb : isPlain b = true) : skip stack (44 :: 32 :: b :: rest) = some (stack, b :: rest) := by
  have hplain := plain_of_isPlain hb
  have hdrop : (32 :: b :: rest).dropWhile isSpace = b :: rest := by
    rw [List.dropWhile_cons_of_pos (by decide), List.dropWhile_cons_of_neg (by simp [hplain.isSpace])]
  cases stack <;> simp [skip, hdrop]

theorem ne_brace_of_mem_values {b : UInt8} (hb : b ∈ (str ",").intercalate ((first :: values).map Word.text)) :
    b ≠ 125 := by
  induction values generalizing first with
  | nil =>
    rw [List.map_singleton, List.intercalate_singleton] at hb
    exact (first.plainAt hb).brace
  | cons second values ih =>
    rw [List.map_cons, List.map_cons, List.intercalate_cons_cons, List.mem_append, List.mem_append] at hb
    obtain (hb | hb) | hb := hb
    · exact (first.plainAt hb).brace
    · obtain rfl : b = 44 := List.mem_singleton.mp hb
      decide
    · exact ih second hb

theorem pieces_values :
    pieces ((str ",").intercalate ((first :: values).map Word.text)) = (first :: values).map Word.text := by
  have hcomma : ∀ l ∈ (first :: values).map Word.text, (44 : UInt8) ∉ l := by
    intro l hl hmem
    obtain ⟨w, -, rfl⟩ := List.mem_map.mp hl
    exact (w.plainAt hmem).comma rfl
  have hsplit : ((str ",").intercalate ((first :: values).map Word.text)).splitOn 44 =
      (first :: values).map Word.text :=
    List.splitOn_intercalate 44 hcomma (by simp)
  have hlast : ((first :: values).map Word.text).getLast? ≠ some [] := by
    intro hlast
    obtain ⟨w, -, hw⟩ := List.mem_map.mp (List.mem_of_getLast? hlast)
    exact w.text_ne hw
  rw [pieces, hsplit, if_neg hlast]

theorem kindOf_render (shape : Shape) (rest : Str) :
    kindOf (shape.render ++ rest) = some (some (shape.kind, rest)) := by
  cases shape with
  | string | int | file => rfl
  | choice first values =>
    have hinner : ∀ b ∈ (str ",").intercalate ((first :: values).map Word.text), decide (b ≠ 125) = true :=
      fun b hb => decide_eq_true (ne_brace_of_mem_values first values hb)
    have htext : (Shape.choice first values).render ++ rest =
        123 :: ((str ",").intercalate ((first :: values).map Word.text) ++ 125 :: rest) := by
      simp only [Shape.render, List.append_assoc]
      rfl
    rw [htext, kindOf, List.dropWhile_append_of_pos hinner, List.takeWhile_append_of_pos hinner]
    simpa [Shape.kind] using pieces_values first values

def Ended (rest : Str) : Prop := rest = [] ∨ (∃ t, rest = 44 :: t) ∨ ∃ t, rest = 41 :: t

theorem optionalMark_render (optional : Bool) {rest : Str} (h : Ended rest) :
    optionalMark ((if optional then str " ?" else []) ++ rest) = (optional, rest) := by
  cases optional with
  | true => rfl
  | false => obtain rfl | ⟨t, rfl⟩ | ⟨t, rfl⟩ := h <;> rfl

end

section

def foundAfter (fuel : Nat) (stack : List Str) (rest : Str) : List Attribute × Ending :=
  match skip stack rest with
  | none => ([], .broken)
  | some (stack, rest) => attributes fuel stack rest

variable {fuel : Nat} {stack : List Str} {rest : Str} {name : Word}

theorem attributes_round {desc : Str} (hne : desc ≠ []) : attributes (fuel + 1) stack desc =
    match desc.dropWhile (· ≠ 32) with
    | [] | [_] => ([], .malformed)
    | _ :: 40 :: rest => foundAfter fuel (desc.takeWhile (· ≠ 32) :: stack) rest
    | _ :: rest =>
      match kindOf rest with
      | none => ([], .malformed)
      | some none => ([], .broken)
      | some (some (kind, rest)) =>
        let (optional, rest) := optionalMark rest
        let (more, ending) := foundAfter fuel stack rest
        ({ name := qualified stack (desc.takeWhile (· ≠ 32)), kind, optional } :: more, ending) := by
  cases desc with
  | nil => exact absurd rfl hne
  | cons b desc => rfl

theorem attributes_group (name : Word) (rest : Str) : attributes (fuel + 1) stack (name.text ++ 32 :: 40 :: rest) =
    foundAfter fuel (name.text :: stack) rest := by
  obtain ⟨htake, hdrop⟩ := name.scan (40 :: rest)
  rw [attributes_round (by simp), htake, hdrop]
  rfl

theorem attributes_leaf (name : Word) (shape : Shape) (optional : Bool) {rest : Str} (h : Ended rest) :
    attributes (fuel + 1) stack
      (name.text ++ 32 :: (shape.render ++ ((if optional then str " ?" else []) ++ rest))) =
      ({ name := qualified stack name.text, kind := shape.kind, optional } :: (foundAfter fuel stack rest).1,
        (foundAfter fuel stack rest).2) := by
  have hkind := kindOf_render shape ((if optional then str " ?" else []) ++ rest)
  obtain ⟨htake, hdrop⟩ := name.scan (shape.render ++ ((if optional then str " ?" else []) ++ rest))
  rw [attributes_round (by simp), htake, hdrop]
  have hshape : ∃ b t, shape.render ++ ((if optional then str " ?" else []) ++ rest) = b :: t ∧ b ≠ 40 := by
    cases shape <;> exact ⟨_, _, rfl, by decide⟩
  obtain ⟨b, t, htext, hb⟩ := hshape
  rw [htext] at hkind ⊢
  split
  · next heq => cases heq
  · next heq => cases heq
  · next heq =>
    cases heq
    exact absurd rfl hb
  · next heq =>
    cases heq
    simp only [hkind, optionalMark_render optional h]

end

section

theorem qualified_stackOf (groups : List Word) (name : Word) :
    qualified (stackOf groups) name.text = Forest.dotted groups name := by
  rw [qualified, stackOf, List.foldl_reverse, Forest.dotted]
  induction groups with
  | nil => exact List.intercalate_singleton.symm
  | cons outer groups ih =>
    rw [List.map_cons, List.foldr_cons, ih, List.cons_append, List.map_cons, List.intercalate_cons_of_ne_nil (by simp)]

def Closed (rest : Str) : Prop := rest = [] ∨ ∃ t, rest = 41 :: t

def prepend (as : List Attribute) (found : List Attribute × Ending) : List Attribute × Ending :=
  (as ++ found.1, found.2)

theorem prepend_append (as bs : List Attribute) (found : List Attribute × Ending) :
    prepend (as ++ bs) found = prepend as (prepend bs found) := by
  rw [prepend, prepend, prepend, List.append_assoc]

/-- The walk finds the leaves of the forest, and goes on with what follows it. -/
def Finds (f : Forest) : Prop := ∀ (groups : List Word) (rest : Str) (fuel : Nat), Closed rest →
  attributes (f.rounds + fuel) (stackOf groups) (f.render ++ rest) =
    prepend (f.leavesIn groups) (foundAfter fuel (stackOf groups) rest)

variable {f : Forest} {groups : List Word} {rest : Str} {fuel : Nat}

theorem foundAfter_render (hne : f ≠ .nil) (h : Finds f) (hrest : Closed rest) :
    foundAfter (f.rounds + fuel) (stackOf groups) (f.render ++ rest) =
      prepend (f.leavesIn groups) (foundAfter fuel (stackOf groups) rest) := by
  obtain ⟨b, t, htext, hb⟩ := f.exists_cons_render hne
  have hfinds := h groups rest fuel hrest
  rw [htext, List.cons_append] at hfinds ⊢
  rw [foundAfter, skip_plain hb]
  exact hfinds

theorem foundAfter_continued (h : f ≠ .nil → Finds f) (hrest : Closed rest) :
    foundAfter (f.rounds + fuel) (stackOf groups) (f.continued f.render ++ rest) =
      prepend (f.leavesIn groups) (foundAfter fuel (stackOf groups) rest) := by
  by_cases hne : f = .nil
  · subst hne
    simp [Forest.rounds, Forest.continued, Forest.leavesIn, prepend]
  · obtain ⟨b, t, htext, hb⟩ := f.exists_cons_render hne
    have hfinds := h hne groups rest fuel hrest
    rw [Forest.continued_of_ne hne]
    rw [htext, List.cons_append] at hfinds ⊢
    rw [List.cons_append, List.cons_append, foundAfter, skip_comma hb]
    exact hfinds

theorem ended_continued (f : Forest) (hrest : Closed rest) : Ended (f.continued f.render ++ rest) := by
  by_cases hne : f = .nil
  · subst hne
    obtain rfl | ⟨t, rfl⟩ := hrest
    · exact .inl rfl
    · exact .inr (.inr ⟨t, rfl⟩)
  · rw [Forest.continued_of_ne hne]
    exact .inr (.inl ⟨_, rfl⟩)

theorem finds_leaf (name : Word) (shape : Shape) (optional : Bool) {next : Forest} (hnext : next ≠ .nil → Finds next) :
    Finds (.leaf name shape optional next) := by
  intro groups rest fuel hrest
  have htext : (Forest.leaf name shape optional next).render ++ rest = name.text ++
      32 :: (shape.render ++ ((if optional then str " ?" else []) ++ (next.continued next.render ++ rest))) := by
    simp only [Forest.render, List.append_assoc]
    rfl
  have hfuel : (Forest.leaf name shape optional next).rounds + fuel = next.rounds + fuel + 1 := by
    rw [Forest.rounds]
    omega
  rw [htext, hfuel, attributes_leaf name shape optional (ended_continued next hrest), foundAfter_continued hnext hrest,
    qualified_stackOf]
  rfl

theorem finds_group (name : Word) {children next : Forest} (hne : children ≠ .nil) (hchildren : Finds children)
    (hnext : next ≠ .nil → Finds next) : Finds (.group name children next) := by
  intro groups rest fuel hrest
  have htext : (Forest.group name children next).render ++ rest = name.text ++
      32 :: 40 :: (children.render ++ 41 :: (next.continued next.render ++ rest)) := by
    simp only [Forest.render, List.append_assoc]
    rfl
  have hfuel : (Forest.group name children next).rounds + fuel = children.rounds + (next.rounds + fuel) + 1 := by
    rw [Forest.rounds]
    omega
  -- the bracket takes the name of the group off the stack again
  have hclose : foundAfter (next.rounds + fuel) (stackOf (groups ++ [name])) (41 ::
      (next.continued next.render ++ rest)) =
      prepend (next.leavesIn groups) (foundAfter fuel (stackOf groups) rest) := by
    rw [stackOf_concat, foundAfter, skip_closing]
    exact foundAfter_continued hnext hrest
  rw [htext, hfuel, attributes_group, ← stackOf_concat, foundAfter_render hne hchildren (.inr ⟨_, rfl⟩), hclose,
    ← prepend_append]
  rfl

theorem finds_of_proper (f : Forest) (hf : f.Proper) (hne : f ≠ .nil) : Finds f := by
  induction f with
  | nil => exact absurd rfl hne
  | leaf name shape optional next ih => exact finds_leaf name shape optional (ih hf)
  | group name children next ihc ihn =>
    obtain ⟨hchildren, hpc, hpn⟩ := hf
    exact finds_group name hchildren (ihc hpc hchildren) (ihn hpn)

/-- The walk over a whole description. -/
theorem attributes_render (f : Forest) (hf : f.Proper) :
    attributes (f.render.length + 1) [] f.render = (f.leaves, .done) := by
  by_cases hne : f = .nil
  · subst hne
    rfl
  · have hrounds := f.rounds_le_length
    have hfinds := finds_of_proper f hf hne [] [] (f.render.length - f.rounds + 1) (.inl rfl)
    have hfuel : f.rounds + (f.render.length - f.rounds + 1) = f.render.length + 1 := by omega
    rw [List.append_nil, hfuel] at hfinds
    refine hfinds.trans ?_
    simp [prepend, foundAfter, stackOf, skip_nil, attributes, Forest.leaves]

end

end Abacus.Description.Server
