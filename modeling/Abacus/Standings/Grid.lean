import Abacus.Standings.Update

/-! # The grid of the standings

Each cell is in a header that is named after its row and column. The columns are read from the database before
the rows are read from the cache.
-/

namespace Abacus.Standings.Grid

open Library Library.Bytes Misc Database.Schema Database.Problems
open Client.Block Client.Action Client.Contest Update

structure Columns where
  problems : List Nat
  titles : List Str
  deriving DecidableEq

def columnsOf (c : Contest) : Columns :=
  let problems := getProblems c
  ⟨problems, columns.map str ++ problems.map fun p => (getProblemAttributes c p).getD (str "shortname") []⟩

def visible (standings : Standings) (uid : Nat) (seeAll : Bool) : List (Nat × StandingsData) :=
  (standings.toList.filter fun r => uid = 0 || r.1 = uid).filter fun r => seeAll || r.2.inStandings

def block (k : Columns) (c : Contest) (rows : List (Nat × StandingsData)) (mb : MessageBlock) : MessageBlock :=
  let mb := (setCells 0 k.titles mb).set (str "ncols") (decimal k.titles.length)
  let mb := rows.zipIdx.foldl (fun mb (r, i) => setStanding c k.problems (i + 1) r mb) mb
  mb.set (str "nrows") (decimal (rows.length + 1))

theorem getStandingsInternal_eq (c : Contest) (standings : Standings) (uid : Nat) (seeAll : Bool) (mb : MessageBlock) :
    getStandingsInternal c standings uid seeAll mb = block (columnsOf c) c (visible standings uid seeAll) mb := rfl

/-- A cell is missing if the block has no header of its name. -/
abbrev Row := List (Option Str)

def getRow (mb : MessageBlock) (r ncols : Nat) : Row := (List.range ncols).map fun j => mb.headers[cellName r j]?

def number (mb : MessageBlock) (name : String) : Nat := (readDigits (mb.get (str name))).getD 0

def rawHeader (mb : MessageBlock) : Row := getRow mb 0 (number mb "ncols")

def newData (mb : MessageBlock) : List Row :=
  (List.range (number mb "nrows" - 1)).map fun i => getRow mb (i + 1) (number mb "ncols")

section

theorem append_underscore_inj {r r' : Nat} {t t' : Str} (h : decimal r ++ 95 :: t = decimal r' ++ 95 :: t') :
    r = r' ∧ t = t' := by
  have hdigits : ∀ (r : Nat) (t : Str), (decimal r ++ 95 :: t).takeWhile isDigit = decimal r := by
    intro r t
    rw [decimal, List.takeWhile_append_of_pos (List.all_eq_true.mp (all_isDigit_decimalDigits r r)),
      List.takeWhile_cons_of_neg (by decide), List.append_nil]
  have hr : decimal r = decimal r' := by rw [← hdigits r t, h, hdigits]
  rw [hr] at h
  exact ⟨decimal_inj hr, (List.cons.inj (List.append_cancel_left h)).2⟩

theorem cellName_inj {r r' j j' : Nat} (h : cellName r j = cellName r' j') : r = r' ∧ j = j' := by
  simp only [cellName, List.append_assoc] at h
  obtain ⟨hr, hj⟩ := append_underscore_inj (List.append_cancel_left h)
  exact ⟨hr, decimal_inj hj⟩

theorem ne_cellName {name : Str} (h : name.head? ≠ some 114) (r j : Nat) : name ≠ cellName r j := by
  rintro rfl
  exact h rfl

theorem getElem?_set (mb : MessageBlock) (name value other : Str) :
    (mb.set name value).headers[other]? = if name = other then some value else mb.headers[other]? := by
  rw [MessageBlock.set]
  exact Table.getElem?_insert_row ..

def Shows (mb : MessageBlock) (r : Nat) (cells : List Str) : Prop :=
  ∀ j < cells.length, mb.headers[cellName r j]? = cells[j]?

variable {mb : MessageBlock} {r : Nat} {cells : List Str}

theorem Shows.set_name (h : Shows mb r cells) {name : Str} (hname : name.head? ≠ some 114) (value : Str) :
    Shows (mb.set name value) r cells := by
  intro j hj
  rw [getElem?_set, if_neg (ne_cellName hname r j)]
  exact h j hj

theorem Shows.set_other (h : Shows mb r cells) {r' : Nat} (hr : r' ≠ r) (j' : Nat) (value : Str) :
    Shows (mb.set (cellName r' j') value) r cells := by
  intro j hj
  rw [getElem?_set, if_neg fun heq => hr (cellName_inj heq).1]
  exact h j hj

theorem Shows.set_cell (h : Shows mb r cells) (j' : Nat) (value : Str) :
    Shows (mb.set (cellName r j') value) r (cells.set j' value) := by
  intro j hj
  rw [List.length_set] at hj
  rw [getElem?_set, List.getElem?_set]
  by_cases hcell : j' = j
  · subst hcell
    rw [if_pos rfl, if_pos rfl, if_pos hj]
  · rw [if_neg hcell, if_neg fun heq => hcell (cellName_inj heq).2]
    exact h j hj

theorem shows_setCells (r : Nat) (cells : List Str) (mb : MessageBlock) : Shows (setCells r cells mb) r cells := by
  induction cells using List.reverseRecOn with
  | nil => exact fun j hj => absurd hj (Nat.not_lt_zero j)
  | append_singleton cells cell ih =>
    have hlast : setCells r (cells ++ [cell]) mb = (setCells r cells mb).set (cellName r cells.length) cell := by
      rw [setCells, List.zipIdx_append, List.foldl_append]
      simp [setCells]
    rw [hlast]
    intro j hj
    rw [getElem?_set]
    by_cases hj' : cells.length = j
    · rw [if_pos (by rw [hj']), ← hj', List.getElem?_concat_length]
    · have hlt : j < cells.length := by
        rw [List.length_append, List.length_singleton] at hj
        omega
      rw [if_neg fun heq => hj' (cellName_inj heq).2, List.getElem?_append_left hlt]
      exact ih j hlt

theorem Shows.setCells_other (h : Shows mb r cells) {r' : Nat} (hr : r' ≠ r) (others : List Str) :
    Shows (setCells r' others mb) r cells := by
  rw [setCells]
  generalize others.zipIdx = l
  induction l generalizing mb with
  | nil => exact h
  | cons x l ih => exact ih (h.set_other hr x.2 x.1)

end

section

variable (c : Contest) (problems : List Nat)

def rowCells (r : Nat × StandingsData) : List Str :=
  let cells := r.2.tries.toList.foldl
    (fun cells (problem, tries) => cells.set (problemColumn problems problem) (Misc.toString tries))
    (standingCells c problems r.1 r.2)
  cells.set 5 (Misc.toString r.2.points)

theorem length_rowCells (r : Nat × StandingsData) :
    (rowCells c problems r).length = columns.length + problems.length := by
  have hfold : ∀ (l : List (Nat × Int)) (cells : List Str),
      (l.foldl (fun cells x => cells.set (problemColumn problems x.1) (Misc.toString x.2)) cells).length =
          cells.length := by
    intro l
    induction l with
    | nil => exact fun _ => rfl
    | cons x l ih =>
      intro cells
      rw [List.foldl_cons, ih, List.length_set]
  rw [rowCells, List.length_set, hfold, standingCells, List.length_append, List.length_map]
  rfl

theorem id_rowCells {r : Nat × StandingsData} (h : ∀ p ∈ r.2.tries, p ∈ problems) :
    (rowCells c problems r)[0]? = some (decimal r.1) := by
  have hfold : ∀ (l : List (Nat × Int)) (cells : List Str), (∀ x ∈ l, x.1 ∈ problems) →
      (l.foldl (fun cells x => cells.set (problemColumn problems x.1) (Misc.toString x.2)) cells)[0]? = cells[0]? := by
    intro l
    induction l with
    | nil => exact fun _ _ => rfl
    | cons x l ih =>
      intro cells hl
      have hcolumn : problemColumn problems x.1 ≠ 0 := by
        rw [problemColumn, if_pos (hl x (.head _))]
        exact Nat.ne_of_gt (Nat.add_pos_left (by decide) _)
      rw [List.foldl_cons, ih _ fun y hy => hl y (.tail _ hy), List.getElem?_set_ne hcolumn]
  rw [rowCells, List.getElem?_set_ne (by decide), hfold]
  · rfl
  · intro x hx
    exact h x.1 (Table.mem_iff_exists_row.mpr ⟨x.2, Std.ExtTreeMap.mem_toList_iff_getElem?_eq_some.mp hx⟩)

theorem shows_setStanding (row : Nat) (r : Nat × StandingsData) (mb : MessageBlock) :
    Shows (setStanding c problems row r mb) row (rowCells c problems r) := by
  have hfold : ∀ (l : List (Nat × Int)) (mb : MessageBlock) (cells : List Str), Shows mb row cells →
      Shows (l.foldl (fun mb x => mb.set (cellName row (problemColumn problems x.1)) (Misc.toString x.2)) mb) row
        (l.foldl (fun cells x => cells.set (problemColumn problems x.1) (Misc.toString x.2)) cells) := by
    intro l
    induction l with
    | nil => exact fun _ _ h => h
    | cons x l ih => exact fun mb cells h => ih _ _ (h.set_cell _ _)
  exact (hfold _ _ _ (shows_setCells row (standingCells c problems r.1 r.2) mb)).set_cell 5 _

theorem Shows.setStanding_other {mb : MessageBlock} {row : Nat} {cells : List Str} (h : Shows mb row cells) {row' : Nat}
    (hrow : row' ≠ row) (r : Nat × StandingsData) : Shows (setStanding c problems row' r mb) row cells := by
  have hfold : ∀ (l : List (Nat × Int)) (mb : MessageBlock), Shows mb row cells →
      Shows (l.foldl (fun mb x => mb.set (cellName row' (problemColumn problems x.1)) (Misc.toString x.2)) mb) row
          cells := by
    intro l
    induction l with
    | nil => exact fun _ h => h
    | cons x l ih => exact fun mb h => ih _ (h.set_other hrow _ _)
  exact (hfold _ _ (h.setCells_other hrow _)).set_other hrow 5 _

theorem shows_rows (rows : List (Nat × StandingsData)) {mb : MessageBlock} {titles : List Str} (h : Shows mb 0 titles) :
    Shows (rows.zipIdx.foldl (fun mb (r, i) => setStanding c problems (i + 1) r mb) mb) 0 titles ∧
      ∀ i r, rows[i]? = some r →
        Shows (rows.zipIdx.foldl (fun mb (r, i) => setStanding c problems (i + 1) r mb) mb) (i + 1)
          (rowCells c problems r) := by
  induction rows using List.reverseRecOn with
  | nil => exact ⟨h, nofun⟩
  | append_singleton rows last ih =>
    obtain ⟨htitles, hrows⟩ := ih
    rw [List.zipIdx_append, List.foldl_append, List.zipIdx_singleton, List.foldl_cons, List.foldl_nil, Nat.zero_add]
    refine ⟨htitles.setStanding_other c problems (Nat.succ_ne_zero _) last, fun i r hi => ?_⟩
    obtain hlt | hge := Nat.lt_or_ge i rows.length
    · rw [List.getElem?_append_left hlt] at hi
      exact (hrows i r hi).setStanding_other c problems (by omega) last
    · obtain ⟨rfl, rfl⟩ : i = rows.length ∧ last = r := by
        rw [List.getElem?_append_right hge, List.getElem?_singleton] at hi
        split at hi
        · exact ⟨by omega, Option.some.inj hi⟩
        · cases hi
      exact shows_setStanding c problems _ _ _

end

section

variable {k : Columns} {c : Contest} {rows : List (Nat × StandingsData)} {mb : MessageBlock}

theorem getRow_of_shows {r : Nat} {cells : List Str} (h : Shows mb r cells) :
    getRow mb r cells.length = cells.map some := by
  apply List.ext_getElem?
  intro j
  rw [getRow, List.getElem?_map, List.getElem?_map]
  obtain hlt | hge := Nat.lt_or_ge j cells.length
  · rw [List.getElem?_range hlt, List.getElem?_eq_getElem hlt, Option.map_some, Option.map_some, h j hlt,
      List.getElem?_eq_getElem hlt]
  · rw [List.getElem?_eq_none (by rwa [List.length_range]), List.getElem?_eq_none hge]
    rfl

theorem get_set_self (mb : MessageBlock) (name value : Str) : (mb.set name value).get name = value := by
  rw [MessageBlock.get, Std.ExtTreeMap.getD_eq_getD_getElem?, getElem?_set, if_pos rfl, Option.getD_some]

theorem get_set_of_ne {name other : Str} (h : name ≠ other) (mb : MessageBlock) (value : Str) :
    (mb.set name value).get other = mb.get other := by
  rw [MessageBlock.get, MessageBlock.get, Std.ExtTreeMap.getD_eq_getD_getElem?, Std.ExtTreeMap.getD_eq_getD_getElem?,
    getElem?_set, if_neg h]

theorem get_setStanding (c : Contest) (problems : List Nat) (row : Nat) (r : Nat × StandingsData) (mb : MessageBlock) :
    (setStanding c problems row r mb).get (str "ncols") = mb.get (str "ncols") := by
  have hcell : ∀ (mb : MessageBlock) (j : Nat) (value : Str),
      (mb.set (cellName row j) value).get (str "ncols") = mb.get (str "ncols") :=
    fun mb j value => get_set_of_ne (ne_cellName (by decide) row j).symm mb value
  have hfold : ∀ {α : Type} (l : List α) (col : α → Nat) (value : α → Str) (mb : MessageBlock),
      (l.foldl (fun mb x => mb.set (cellName row (col x)) (value x)) mb).get (str "ncols") = mb.get (str "ncols") := by
    intro α l col value
    induction l with
    | nil => exact fun _ => rfl
    | cons x l ih =>
      intro mb
      rw [List.foldl_cons, ih, hcell]
  rw [setStanding, hcell]
  exact (hfold _ _ _ _).trans (hfold _ _ _ _)

theorem get_rows (c : Contest) (problems : List Nat) (rows : List (Nat × StandingsData)) (mb : MessageBlock) :
    (rows.zipIdx.foldl (fun mb (r, i) => setStanding c problems (i + 1) r mb) mb).get (str "ncols") =
      mb.get (str "ncols") := by
  generalize rows.zipIdx = l
  induction l generalizing mb with
  | nil => rfl
  | cons x l ih => exact (ih _).trans (get_setStanding c problems _ _ mb)

theorem get_ncols_block : (block k c rows mb).get (str "ncols") = decimal k.titles.length := by
  rw [block, get_set_of_ne (by decide), get_rows, get_set_self]

theorem get_nrows_block : (block k c rows mb).get (str "nrows") = decimal (rows.length + 1) := get_set_self _ _ _

theorem ncols_block : number (block k c rows mb) "ncols" = k.titles.length := by
  rw [number, get_ncols_block, readDigits_decimal, Option.getD_some]

theorem nrows_block : number (block k c rows mb) "nrows" = rows.length + 1 := by
  rw [number, get_nrows_block, readDigits_decimal, Option.getD_some]

theorem shows_block : Shows (block k c rows mb) 0 k.titles ∧
    ∀ i r, rows[i]? = some r → Shows (block k c rows mb) (i + 1) (rowCells c k.problems r) := by
  obtain ⟨htitles, hrows⟩ := shows_rows c k.problems rows
    ((shows_setCells 0 k.titles mb).set_name (by decide : (str "ncols").head? ≠ some 114) (decimal k.titles.length))
  exact ⟨htitles.set_name (by decide) _, fun i r hi => (hrows i r hi).set_name (by decide) _⟩

theorem rawHeader_block : rawHeader (block k c rows mb) = k.titles.map some := by
  rw [rawHeader, ncols_block]
  exact getRow_of_shows shows_block.1

theorem newData_block (hk : k.titles.length = columns.length + k.problems.length) :
    newData (block k c rows mb) = rows.map fun r => (rowCells c k.problems r).map some := by
  apply List.ext_getElem?
  intro i
  rw [newData, nrows_block, Nat.add_sub_cancel, List.getElem?_map, List.getElem?_map]
  obtain hlt | hge := Nat.lt_or_ge i rows.length
  · have hrow : rows[i]? = some rows[i] := List.getElem?_eq_getElem hlt
    have hshows : Shows (block k c rows mb) (i + 1) (rowCells c k.problems rows[i]) := shows_block.2 i rows[i] hrow
    have hread := getRow_of_shows hshows
    rw [length_rowCells, ← hk] at hread
    rw [List.getElem?_range hlt, hrow, Option.map_some, Option.map_some, ncols_block, hread]
  · rw [List.getElem?_eq_none (by rwa [List.length_range]), List.getElem?_eq_none hge]
    rfl

theorem length_titles (c : Contest) : (columnsOf c).titles.length = columns.length + (columnsOf c).problems.length := by
  simp only [columnsOf, List.length_append, List.length_map]

end

end Abacus.Standings.Grid
