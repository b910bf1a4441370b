import Abacus.Client.Users
import Abacus.Standings.Grid
import Abacus.Standings.Incremental

/-! # The standings in the client tool

The tool makes a score of each row of the grid. It takes the points for an unsigned number, so a row with negative
points cannot be read.
-/

namespace Abacus.Standings.Tool

open Library Library.Bytes Misc Database.Schema Database.Problems Database.People
open Client.Block Client.Action Client.Contest Update Grid

structure Standing where
  id : Nat
  username : Str
  friendlyname : Str
  group : Str
  contestant : Bool
  totalTime : Int
  totalSolved : Int
  solved : List Int
  deriving DecidableEq

def gridFromMB (mb : MessageBlock) : Option (List (List Str)) := do
  let ncols ← fromStringI32 (mb.get (str "ncols"))
  let nrows ← fromStringI32 (mb.get (str "nrows"))
  return (List.range nrows.toNat).map fun r => (List.range ncols.toNat).map fun c => mb.get (cellName r c)

/-- The constructor fails on a number that is not in its range, or on a row that is too short. -/
def Standing.ofRow : List Str → Option Standing
  | id :: username :: friendlyname :: group :: contestant :: points :: time :: tries => do
    let id ← fromStringU32 id
    let contestant ← fromStringI32 contestant
    let totalTime ← fromStringTime time
    let totalSolved ← fromStringU32 points
    let solved ← tries.mapM fromStringI32
    return { id, username, friendlyname, group, contestant := contestant ≠ 0, totalTime,
             totalSolved := int32 totalSolved, solved }
  | _ => none

/-- The scores that `grid_to_standings` makes of the rows. -/
def standingsOf (grid : List (List Str)) : Option (List Standing) := grid.tail.mapM Standing.ofRow

section

variable {problems : List Nat}

theorem set_idxOf_map {β : Type} (hnodup : problems.Nodup) {p : Nat} (hp : p ∈ problems) (f : Nat → β) (v : β) :
    (problems.map f).set (problems.idxOf p) v = problems.map (Function.update f p v) := by
  induction problems with
  | nil => exact absurd hp List.not_mem_nil
  | cons q problems ih =>
    obtain ⟨hq, hnodup⟩ := List.nodup_cons.mp hnodup
    obtain rfl | hne := eq_or_ne q p
    · have hsame : problems.map (Function.update f q v) = problems.map f := by
        apply List.map_congr_left
        intro r hr
        exact Function.update_of_ne (ne_of_mem_of_not_mem hr hq) v f
      rw [List.idxOf_cons_self, List.map_cons, List.set_cons_zero, List.map_cons, Function.update_self, hsame]
    · have hmem := (List.mem_cons.mp hp).resolve_left hne.symm
      rw [List.idxOf_cons_ne problems hne, List.map_cons, List.set_cons_succ, ih hnodup hmem, List.map_cons,
        Function.update_of_ne hne]

theorem foldl_set_problemColumn (hnodup : problems.Nodup) {first : List Str} (hfirst : first.length = columns.length)
    (l : List (Nat × Int)) (hl : ∀ x ∈ l, x.1 ∈ problems) (f : Nat → Str) :
    l.foldl (fun cells x => cells.set (problemColumn problems x.1) (Misc.toString x.2)) (first ++ problems.map f) =
      first ++ problems.map (l.foldl (fun f x => Function.update f x.1 (Misc.toString x.2)) f) := by
  induction l generalizing f with
  | nil => rfl
  | cons x l ih =>
    obtain ⟨hx, hl⟩ := List.forall_mem_cons.mp hl
    rw [List.foldl_cons, List.foldl_cons, problemColumn, if_pos hx, List.set_append_right _ _ (by omega),
      hfirst, Nat.add_sub_cancel_left, set_idxOf_map hnodup hx, ih hl]

theorem foldl_update_of_notMem {l : List (Nat × Int)} {p : Nat} (hp : p ∉ l.map Prod.fst) (f : Nat → Str) :
    l.foldl (fun f x => Function.update f x.1 (Misc.toString x.2)) f p = f p := by
  induction l generalizing f with
  | nil => rfl
  | cons x l ih =>
    rw [List.map_cons, List.mem_cons, not_or] at hp
    obtain ⟨hne, hp⟩ := hp
    rw [List.foldl_cons, ih hp, Function.update_of_ne hne]

theorem foldl_update_of_mem {l : List (Nat × Int)} (hl : (l.map Prod.fst).Nodup) {x : Nat × Int} (hx : x ∈ l)
    (f : Nat → Str) : l.foldl (fun f x => Function.update f x.1 (Misc.toString x.2)) f x.1 = Misc.toString x.2 := by
  induction l generalizing f with
  | nil => exact absurd hx List.not_mem_nil
  | cons y l ih =>
    obtain ⟨hy, hl⟩ := List.nodup_cons.mp hl
    rw [List.foldl_cons]
    obtain rfl | hx := List.mem_cons.mp hx
    · rw [foldl_update_of_notMem hy, Function.update_self]
    · exact ih hl hx _

theorem foldl_update_tries (tries : Table Nat Int) (p : Nat) :
    tries.toList.foldl (fun f x => Function.update f x.1 (Misc.toString x.2)) (fun _ => str "0") p =
      Misc.toString (tries.getD p 0) := by
  rw [Std.ExtTreeMap.getD_eq_getD_getElem?]
  cases hp : tries[p]? with
  | none =>
    rw [foldl_update_of_notMem]
    · rfl
    · rw [Std.ExtTreeMap.map_fst_toList_eq_keys, Std.ExtTreeMap.mem_keys]
      rintro hmem
      obtain ⟨v, hv⟩ := Table.mem_iff_exists_row.mp hmem
      rw [hp] at hv
      cases hv
  | some v =>
    have hnodup : (tries.toList.map Prod.fst).Nodup := by
      rw [Std.ExtTreeMap.map_fst_toList_eq_keys]
      exact Std.ExtTreeMap.nodup_keys
    exact foldl_update_of_mem hnodup (Std.ExtTreeMap.mem_toList_iff_getElem?_eq_some.mpr hp) _

theorem rowCells_eq (c : Contest) (hnodup : problems.Nodup) (r : Nat × StandingsData)
    (h : ∀ p ∈ r.2.tries, p ∈ problems) : rowCells c problems r =
      [decimal r.1, username c r.1, friendlyname c r.1, groupname c (userGroup c r.1),
        str (if r.2.inStandings then "1" else "0"), Misc.toString r.2.points, Misc.toString r.2.time] ++
      problems.map fun p => Misc.toString (r.2.tries.getD p 0) := by
  have htried : ∀ x ∈ r.2.tries.toList, x.1 ∈ problems := fun x hx =>
    h x.1 (Table.mem_iff_exists_row.mpr ⟨x.2, Std.ExtTreeMap.mem_toList_iff_getElem?_eq_some.mp hx⟩)
  rw [rowCells, standingCells, foldl_set_problemColumn hnodup rfl _ htried]
  have hmap : problems.map
      (r.2.tries.toList.foldl (fun f x => Function.update f x.1 (Misc.toString x.2)) fun _ => str "0") =
      problems.map fun p => Misc.toString (r.2.tries.getD p 0) :=
    List.map_congr_left fun p _ => foldl_update_tries r.2.tries p
  rw [hmap]
  rfl

end

def shown (c : Contest) (r : Nat × StandingsData) : Standing where
  id := r.1
  username := username c r.1
  friendlyname := friendlyname c r.1
  group := groupname c (userGroup c r.1)
  contestant := r.2.inStandings
  totalTime := r.2.time
  totalSolved := r.2.points
  solved := (getProblems c).map fun p => r.2.tries.getD p 0

def InInt32 (z : Int) : Prop := -2147483648 ≤ z ∧ z ≤ 2147483647

instance (z : Int) : Decidable (InInt32 z) := inferInstanceAs (Decidable (_ ∧ _))

structure Typed (r : Nat × StandingsData) : Prop where
  id : r.1 < 4294967296
  points : InInt32 r.2.points
  time : -9223372036854775808 ≤ r.2.time ∧ r.2.time ≤ 9223372036854775807
  tries : ∀ x ∈ r.2.tries.toList, InInt32 x.2

theorem Typed.getD_tries {r : Nat × StandingsData} (h : Typed r) (p : Nat) : InInt32 (r.2.tries.getD p 0) := by
  rw [Std.ExtTreeMap.getD_eq_getD_getElem?]
  cases hp : r.2.tries[p]? with
  | none => exact ⟨by decide, by decide⟩
  | some n => exact h.tries (p, n) (Std.ExtTreeMap.mem_toList_iff_getElem?_eq_some.mpr hp)

theorem mapM_tries {problems : List Nat} {tries : Nat → Int} (h : ∀ p, InInt32 (tries p)) :
    (problems.map fun p => Misc.toString (tries p)).mapM fromStringI32 = some (problems.map tries) := by
  induction problems with
  | nil => rfl
  | cons p problems ih =>
    obtain ⟨hlow, hhigh⟩ := h p
    rw [List.map_cons, List.mapM_cons, ih, fromStringI32, fromString_toString, if_pos ⟨by omega, by omega, hlow, hhigh⟩]
    rfl

theorem ofRow_rowCells (c : Contest) {r : Nat × StandingsData} (htyped : Typed r)
    (h : ∀ p ∈ r.2.tries, p ∈ getProblems c) :
    Standing.ofRow (rowCells c (getProblems c) r) = if 0 ≤ r.2.points then some (shown c r) else none := by
  obtain ⟨hlow, hhigh⟩ := htyped.points
  obtain ⟨flag, hflag, hcontestant⟩ : ∃ flag, fromStringI32 (str (if r.2.inStandings then "1" else "0")) = some flag ∧
      decide (flag ≠ 0) = r.2.inStandings := by
    cases r.2.inStandings with
    | false => exact ⟨0, rfl, rfl⟩
    | true => exact ⟨1, rfl, rfl⟩
  have hnodup : (getProblems c).Nodup := Std.ExtTreeMap.nodup_keys
  rw [rowCells_eq c hnodup r h]
  simp only [List.cons_append, List.nil_append, Standing.ofRow]
  rw [fromStringU32_decimal htyped.id, hflag, fromStringTime, fromString_toString,
    if_pos ⟨htyped.time.1, htyped.time.2, htyped.time⟩, mapM_tries htyped.getD_tries, fromStringU32,
    fromString_toString]
  by_cases hpos : 0 ≤ r.2.points
  · have hint : int32 (r.2.points.toNat : Int) = r.2.points := by
      rw [Int.toNat_of_nonneg hpos]
      exact Int.bmod_eq_of_le (by omega) (by omega)
    rw [if_pos ⟨by omega, by omega, hpos, by omega⟩, if_pos hpos]
    simp only [Option.map_some, Option.bind_eq_bind, Option.bind_some, hint, hcontestant]
    rfl
  · rw [if_neg fun hrange => hpos hrange.2.2.1, if_neg hpos]
    rfl

section

variable {k : Columns} {c : Contest} {rows : List (Nat × StandingsData)} {mb : MessageBlock}

theorem map_get_of_shows {r : Nat} {cells : List Str} (h : Shows mb r cells) :
    ((List.range cells.length).map fun j => mb.get (cellName r j)) = cells := by
  apply List.ext_getElem?
  intro j
  rw [List.getElem?_map]
  obtain hlt | hge := Nat.lt_or_ge j cells.length
  · rw [List.getElem?_range hlt, Option.map_some, MessageBlock.get, Std.ExtTreeMap.getD_eq_getD_getElem?, h j hlt,
      List.getElem?_eq_getElem hlt, Option.getD_some]
  · rw [List.getElem?_eq_none (by rwa [List.length_range]), List.getElem?_eq_none hge]
    rfl

theorem fromStringI32_decimal (n : Nat) :
    fromStringI32 (decimal n) = if n ≤ 2147483647 then some (n : Int) else none := by
  rw [fromStringI32, ← toString_natCast, fromString_toString]
  split
  · rw [if_pos (by omega)]
  · rw [if_neg (by omega)]

theorem gridFromMB_block (hk : k.titles.length = columns.length + k.problems.length) :
    gridFromMB (block k c rows mb) = if k.titles.length ≤ 2147483647 ∧ rows.length + 1 ≤ 2147483647 then
      some (k.titles :: rows.map (rowCells c k.problems)) else none := by
  have hrows : ((List.range (rows.length + 1)).map fun r =>
      (List.range k.titles.length).map fun j => (block k c rows mb).get (cellName r j)) =
        k.titles :: rows.map (rowCells c k.problems) := by
    rw [List.range_succ_eq_map, List.map_cons, map_get_of_shows shows_block.1, List.map_map]
    congr 1
    apply List.ext_getElem?
    intro i
    rw [List.getElem?_map, List.getElem?_map]
    obtain hlt | hge := Nat.lt_or_ge i rows.length
    · have hshows : Shows (block k c rows mb) (i + 1) (rowCells c k.problems rows[i]) :=
        shows_block.2 i rows[i] (List.getElem?_eq_getElem hlt)
      have hread := map_get_of_shows hshows
      rw [length_rowCells, ← hk] at hread
      rw [List.getElem?_range hlt, List.getElem?_eq_getElem hlt, Option.map_some, Option.map_some]
      exact congrArg some hread
    · rw [List.getElem?_eq_none (by rwa [List.length_range]), List.getElem?_eq_none hge]
      rfl
  rw [gridFromMB, get_ncols_block, get_nrows_block, fromStringI32_decimal, fromStringI32_decimal]
  by_cases hcols : k.titles.length ≤ 2147483647
  · rw [if_pos hcols]
    by_cases hcount : rows.length + 1 ≤ 2147483647
    · rw [if_pos hcount, if_pos ⟨hcols, hcount⟩, ← hrows]
      rfl
    · rw [if_neg hcount]
      exact (if_neg fun hboth => hcount hboth.2).symm
  · rw [if_neg hcols]
    exact (if_neg fun hboth => hcols hboth.1).symm

end

/-- The tool reads the standings of a view without an exception, and gets the scores of its rows. -/
def ReadBack (c : Contest) (standings : Standings) (uid : Nat) (seeAll : Bool) (mb : MessageBlock) : Prop :=
  (gridFromMB (getStandingsInternal c standings uid seeAll mb)).bind standingsOf =
    some ((visible standings uid seeAll).map (shown c))

theorem mapM_ofRow_iff {c : Contest} {rows : List (Nat × StandingsData)} (htyped : ∀ r ∈ rows, Typed r)
    (htried : ∀ r ∈ rows, ∀ p ∈ r.2.tries, p ∈ getProblems c) :
    (rows.map (rowCells c (getProblems c))).mapM Standing.ofRow = some (rows.map (shown c)) ↔ ∀ r ∈ rows,
      0 ≤ r.2.points := by
  induction rows with
  | nil => exact iff_of_true rfl (List.forall_mem_nil _)
  | cons r rows ih =>
    obtain ⟨hr, htyped⟩ := List.forall_mem_cons.mp htyped
    obtain ⟨hp, htried⟩ := List.forall_mem_cons.mp htried
    rw [List.forall_mem_cons, ← ih htyped htried, List.map_cons, List.mapM_cons, ofRow_rowCells c hr hp, List.map_cons]
    by_cases hpos : 0 ≤ r.2.points
    · rw [if_pos hpos, and_iff_right hpos]
      cases hrest : (rows.map (rowCells c (getProblems c))).mapM Standing.ofRow with
      | none => exact iff_of_false (by simp) (by simp)
      | some read => simp
    · rw [if_neg hpos]
      exact iff_of_false (by simp) fun hall => hpos hall.1

/-- The standings are read back if and only if no points are negative, and an `int` can count the rows and the
columns. -/
theorem readBack_iff (c : Contest) (standings : Standings) (uid : Nat) (seeAll : Bool) (mb : MessageBlock)
    (htyped : ∀ r ∈ standings.toList, Typed r) (htried : ∀ r ∈ standings.toList, ∀ p ∈ r.2.tries, p ∈ getProblems c) :
    ReadBack c standings uid seeAll mb ↔ (∀ r ∈ visible standings uid seeAll, 0 ≤ r.2.points) ∧
      columns.length + (getProblems c).length ≤ 2147483647 ∧
        (visible standings uid seeAll).length + 1 ≤ 2147483647 := by
  have hvisible : ∀ r ∈ visible standings uid seeAll, r ∈ standings.toList :=
    fun r hr => List.mem_of_mem_filter (List.mem_of_mem_filter hr)
  have hrows := mapM_ofRow_iff (fun r hr => htyped r (hvisible r hr)) fun r hr => htried r (hvisible r hr)
  have htitles : (columnsOf c).titles.length = columns.length + (getProblems c).length := length_titles c
  rw [ReadBack, getStandingsInternal_eq, gridFromMB_block (length_titles c), htitles, ← hrows]
  split
  · next hcount =>
    rw [Option.bind_some, and_iff_left hcount]
    rfl
  · next hcount => exact iff_of_false (by simp) fun hall => hcount hall.2

section

open Scoring Incremental

def twoProblems : Contest where
  __ := threeSubmissions
  problem := (∅ : Table Nat Problem)
    |>.insert 1 { updated := 10, type := str "tcprob" }
    |>.insert 2 { updated := 10, type := str "tcprob" }

def opened : Messages.Server := { started with db := ⟨.empty, twoProblems⟩ }

theorem typed_opened : ∀ r ∈ opened.memory.cache.final.toList, Typed r := by
  have hrange : ∀ r ∈ opened.memory.cache.final.toList, r.1 < 4294967296 ∧ InInt32 r.2.points ∧
      (-9223372036854775808 ≤ r.2.time ∧ r.2.time ≤ 9223372036854775807) ∧ ∀ x ∈ r.2.tries.toList, InInt32 x.2 := by
    decide +kernel
  intro r hr
  obtain ⟨hid, hpoints, htime, htries⟩ := hrange r hr
  exact ⟨hid, hpoints, htime, htries⟩

theorem readBack_opened : ReadBack twoProblems opened.memory.cache.final 0 true .ok := by
  have htried : ∀ r ∈ opened.memory.cache.final.toList, ∀ x ∈ r.2.tries.toList, x.1 ∈ getProblems twoProblems := by
    decide +kernel
  refine (readBack_iff twoProblems opened.memory.cache.final 0 true .ok typed_opened fun r hr p hp => ?_).mpr
    ⟨by decide +kernel, by decide +kernel, by decide +kernel⟩
  obtain ⟨n, hn⟩ := Table.mem_iff_exists_row.mp hp
  exact htried r hr (p, n) (Std.ExtTreeMap.mem_toList_iff_getElem?_eq_some.mpr hn)

def setbonusRequest : MessageBlock :=
  (((MessageBlock.ofAction (str "setbonus")).set (str "user_id") (str "3")).set (str "points") (str "-2")).set
    (str "seconds") (str "0")

def bonusArrival : Messages.Arrival where
  now := 20100
  key := (1, 1)
  message := .bonus { userId := 3, points := -2, seconds := 0 }

/-- The bonus is accepted, and then the standings cannot be read. -/
theorem not_readBack_bonus : ∃ s,
    (Client.Users.actSetbonus setbonusRequest).result opened.db = .ok (.message bonusArrival.message .ok) ∧
      Messages.processAt sampleHost opened bonusArrival = some s ∧
      (s.memory.cache.final[3]?).map StandingsData.points = some (-1) ∧
      (∀ r ∈ s.memory.cache.final.toList, ∀ x ∈ r.2.tries.toList, x.1 ∈ getProblems s.db.contest) ∧
      (gridFromMB (getStandingsInternal s.db.contest s.memory.cache.final 0 true .ok)).bind standingsOf = none ∧
      ¬ReadBack s.db.contest s.memory.cache.final 0 true .ok := by
  have hstep : ∃ s, Messages.processAt sampleHost opened bonusArrival = some s ∧
      (s.memory.cache.final[3]?).map StandingsData.points = some (-1) ∧
      (∀ r ∈ s.memory.cache.final.toList, ∀ x ∈ r.2.tries.toList, x.1 ∈ getProblems s.db.contest) ∧
      (gridFromMB (getStandingsInternal s.db.contest s.memory.cache.final 0 true .ok)).bind standingsOf = none := by
    decide +kernel
  obtain ⟨s, hstep, hpoints, htried, hread⟩ := hstep
  refine ⟨s, rfl, hstep, hpoints, htried, hread, fun hback => ?_⟩
  rw [ReadBack, hread] at hback
  cases hback

end

end Abacus.Standings.Tool
