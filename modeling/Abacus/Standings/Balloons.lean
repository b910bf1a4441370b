import Abacus.Standings.Ranking

/-! # Balloons

The tool walks over the old and the new scores by the number of the user, and queues an event for each problem
that is solved in the new row of a contestant and not in the old one.
-/

namespace Abacus.Standings.Balloons

open Library Library.Bytes Tool Ranking

structure BalloonEvent where
  time : Int
  contestant : Str
  group : Str
  problem : Str
  deriving DecidableEq

def rawSolved : Nat := 7

/-- There is no result if the header is too short for a problem that is solved. -/
def solvedNames (header : List Str) (row : Row) : Option (List Str) :=
  (row.score.solved.zipIdx.filter fun x => x.1 > 0).mapM fun x => header[rawSolved + x.2]?

/-- The old row that the walk stands before, if it is that of the user. -/
def matching (id : Nat) : List (Nat × Row) → Option Row
  | [] => none
  | j :: _ => if id = j.1 then some j.2 else none

def newlySolved (old cur : ToolStandings) (row : Row) (seen : Option Row) : Option (Table Str Unit) := do
  let solved ← solvedNames cur.header row
  let before ← seen.elim (some []) (solvedNames old.header)
  return before.foldl (fun names name => names.erase name) (Table.insertAll id (fun _ => ()) ∅ solved)

def event (time : Int) (row : Row) (problem : Str) : BalloonEvent :=
  { time, contestant := row.score.username, group := str "unknown", problem }

def walk (old cur : ToolStandings) (group : Option Str) (time : Int) :
    List (Nat × Row) → List (Nat × Row) → Option (List BalloonEvent)
  | [], _ => some []
  | i :: rows, j =>
    if group.any (i.2.score.group ≠ ·) then walk old cur group time rows j
    else do
      let j := j.dropWhile fun x => x.1 < i.1
      let solved ← newlySolved old cur i.2 (matching i.1 j)
      let events ← walk old cur group time rows j
      return solved.keys.map (event time i.2) ++ events

def queueBalloons (old cur : ToolStandings) (group : Option Str) (time : Int) (queue : List BalloonEvent) :
    Option (List BalloonEvent × Nat) := do
  let events ← walk old cur group time cur.scores.toList old.scores.toList
  return (queue ++ events, events.length)

/-- No row is longer than the header. -/
def Fits (o : ToolStandings) : Prop :=
  ∀ (id : Nat) (row : Row), o.scores[id]? = some row → row.raw.length ≤ o.header.length

def Solved (header : List Str) (row : Row) (problem : Str) : Prop :=
  ∃ (k : Nat) (tries : Int), row.score.solved[k]? = some tries ∧ 0 < tries ∧ header[rawSolved + k]? = some problem

structure Gained (old cur : ToolStandings) (group : Option Str) (id : Nat) (row : Row) (problem : Str) : Prop where
  found : cur.scores[id]? = some row
  passes : ∀ g ∈ group, row.score.group = g
  solved : Solved cur.header row problem
  unsolved : ∀ before : Row, old.scores[id]? = some before → ¬Solved old.header before problem

section

theorem mapM_eq_filterMap {α β : Type} {f : α → Option β} {l : List α} (h : ∀ x ∈ l, (f x).isSome) :
    l.mapM f = some (l.filterMap f) := by
  induction l with
  | nil => rfl
  | cons x l ih =>
    obtain ⟨hx, hl⟩ := List.forall_mem_cons.mp h
    obtain ⟨b, hb⟩ := Option.isSome_iff_exists.mp hx
    rw [List.mapM_cons, hb, ih hl, List.filterMap_cons_some hb]
    rfl

theorem length_of_mapM {α β : Type} {f : α → Option β} {l : List α} {l' : List β} (h : l.mapM f = some l') :
    l'.length = l.length := by
  induction l generalizing l' with
  | nil =>
    cases h
    rfl
  | cons a l ih =>
    rw [List.mapM_cons] at h
    obtain ⟨b, -, h⟩ := Option.bind_eq_some_iff.mp h
    obtain ⟨rest, hrest, h⟩ := Option.bind_eq_some_iff.mp h
    cases h
    exact congrArg (· + 1) (ih hrest)

theorem length_raw (row : Row) : row.raw.length = rawSolved + row.score.solved.length := by
  have hmade := row.made
  unfold Standing.ofRow at hmade
  split at hmade
  · next tries hraw =>
    simp only [Option.bind_eq_bind, Option.bind_eq_some_iff] at hmade
    obtain ⟨_, -, _, -, _, -, _, -, solved, hsolved, hscore⟩ := hmade
    rw [hraw, ← Option.some.inj hscore]
    simp only [List.length_cons, rawSolved, length_of_mapM hsolved]
    omega
  · cases hmade

theorem solvedNames_spec {header : List Str} {row : Row} (h : row.raw.length ≤ header.length) :
    ∃ names, solvedNames header row = some names ∧ ∀ problem, problem ∈ names ↔ Solved header row problem := by
  refine ⟨_, mapM_eq_filterMap fun x hx => ?_, fun problem => ?_⟩
  · have hk := List.mem_zipIdx_iff_getElem?.mp (List.mem_filter.mp hx).1
    have hlt := (List.getElem?_eq_some_iff.mp hk).1
    have hlength := length_raw row
    rw [List.getElem?_eq_getElem (by omega)]
    rfl
  · simp only [List.mem_filterMap, List.mem_filter, Prod.exists, List.mem_zipIdx_iff_getElem?, decide_eq_true_eq,
      Solved]
    grind

theorem mem_foldl_erase {names : List Str} {t : Table Str Unit} {problem : Str} :
    problem ∈ names.foldl (fun t name => t.erase name) t ↔ problem ∈ t ∧ problem ∉ names := by
  induction names generalizing t with
  | nil => simp
  | cons name names ih =>
    rw [List.foldl_cons, ih, Std.ExtTreeMap.mem_erase, List.mem_cons, ne_eq, Std.LawfulEqOrd.compare_eq_iff_eq]
    grind

theorem newlySolved_spec {old cur : ToolStandings} (hold : Fits old) {id : Nat} {row : Row}
    (hrow : row.raw.length ≤ cur.header.length)
    {seen : Option Row} (hseen : ∀ before, seen = some before ↔ old.scores[id]? = some before) :
    ∃ names, newlySolved old cur row seen = some names ∧ ∀ problem, problem ∈ names ↔ Solved cur.header row problem ∧
      ∀ before : Row, old.scores[id]? = some before → ¬Solved old.header before problem := by
  obtain ⟨solved, hsolved, hmem⟩ := solvedNames_spec hrow
  obtain ⟨erased, herased, hmem'⟩ : ∃ erased, seen.elim (some []) (solvedNames old.header) = some erased ∧
      ∀ problem, problem ∈ erased ↔ ∃ before ∈ seen, Solved old.header before problem := by
    cases seen with
    | none => exact ⟨[], rfl, by simp⟩
    | some before =>
      obtain ⟨names, hnames, hbefore⟩ := solvedNames_spec (hold id before ((hseen before).mp rfl))
      exact ⟨names, hnames, by simpa using hbefore⟩
  refine ⟨_, by rw [newlySolved, hsolved, herased]; rfl, fun problem => ?_⟩
  rw [mem_foldl_erase, Table.mem_insertAll, hmem']
  simp only [← hseen, Std.ExtTreeMap.not_mem_empty, id_eq, exists_eq_right, false_or, hmem, Option.mem_def, not_exists,
    not_and]

end

section

variable {j : List (Nat × Row)} {id : Nat}

abbrev Ascending (rows : List (Nat × Row)) : Prop := rows.Pairwise fun a b => a.1 < b.1

theorem mem_dropWhile_iff (hj : Ascending j) {x : Nat × Row} (hle : id ≤ x.1) :
    x ∈ j.dropWhile (fun x => x.1 < id) ↔ x ∈ j := by
  induction j with
  | nil => rfl
  | cons y j ih =>
    rw [List.dropWhile_cons]
    split
    · next hlt =>
      rw [ih (List.pairwise_cons.mp hj).2, List.mem_cons]
      have hne : x ≠ y := by
        rintro rfl
        exact absurd (of_decide_eq_true hlt) (by omega)
      simp only [hne, false_or]
    · rfl

theorem matching_eq_some_iff (hj : Ascending j) {before : Row} :
    matching id (j.dropWhile fun x => x.1 < id) = some before ↔ (id, before) ∈ j := by
  rw [← mem_dropWhile_iff hj (le_refl id)]
  have hrest : Ascending (j.dropWhile fun x => x.1 < id) := hj.sublist (List.dropWhile_sublist _)
  cases hdrop : j.dropWhile fun x => x.1 < id with
  | nil => simp [matching]
  | cons y j' =>
    have hhead : ¬y.1 < id := by
      have hnot := List.head?_dropWhile_not (fun x : Nat × Row => decide (x.1 < id)) j
      simpa [hdrop] using hnot
    rw [hdrop] at hrest
    have htail := (List.pairwise_cons.mp hrest).1
    rw [matching, List.mem_cons]
    split
    · next heq =>
      subst heq
      have hlater : (y.1, before) ∉ j' := fun h => (htail _ h).ne rfl
      simp [hlater, Prod.ext_iff, eq_comm]
    · next hne =>
      have hlater : (id, before) ∉ j' := fun h => by
        have := htail _ h
        omega
      simp [hlater, Prod.ext_iff, hne]

variable {old cur : ToolStandings} {rows : List (Nat × Row)}

theorem walk_spec (hold : Fits old) (hcur : Fits cur) (group : Option Str) (time : Int) (hrows : Ascending rows)
    (hj : Ascending j) (hscores : ∀ i ∈ rows, cur.scores[i.1]? = some i.2)
    (hbefore : ∀ i ∈ rows, ∀ before, (i.1, before) ∈ j ↔ old.scores[i.1]? = some before) :
    ∃ gained : List (Nat × Row × Str), (gained.map fun x => (x.1, x.2.2)).Nodup ∧
      (∀ id row problem, (id, row, problem) ∈ gained ↔ (id, row) ∈ rows ∧ Gained old cur group id row problem) ∧
      walk old cur group time rows j = some (gained.map fun x => event time x.2.1 x.2.2) := by
  induction rows generalizing j with
  | nil => exact ⟨[], .nil, by simp, rfl⟩
  | cons i rows ih =>
    obtain ⟨hfirst, hrows⟩ := List.pairwise_cons.mp hrows
    obtain ⟨hscore, hscores⟩ := List.forall_mem_cons.mp hscores
    obtain ⟨hseen, hbefore⟩ := List.forall_mem_cons.mp hbefore
    rw [walk]
    split
    · next hfilter =>
      obtain ⟨gained, hnodup, hmem, hwalk⟩ := ih hrows hj hscores hbefore
      refine ⟨gained, hnodup, fun id row problem => (hmem id row problem).trans ?_, hwalk⟩
      refine and_congr_left fun h => ⟨.tail _, fun hin => (List.mem_cons.mp hin).resolve_left ?_⟩
      rintro rfl
      obtain ⟨g, rfl, hne⟩ := (Option.any_eq_true _ _).mp hfilter
      exact absurd (h.passes g rfl) (of_decide_eq_true hne)
    · next hfilter =>
      have hpasses : ∀ g ∈ group, i.2.score.group = g := by
        rintro g rfl
        simpa using hfilter
      have hlater : ∀ x ∈ rows, ∀ before,
          (x.1, before) ∈ j.dropWhile (fun x => x.1 < i.1) ↔ old.scores[x.1]? = some before :=
        fun x hx before => (mem_dropWhile_iff (x := (x.1, before)) hj (hfirst x hx).le).trans (hbefore x hx before)
      obtain ⟨gained, hnodup, hmem, hwalk⟩ := ih hrows (hj.sublist (List.dropWhile_sublist _)) hscores hlater
      obtain ⟨names, hnames, hsolved⟩ := newlySolved_spec hold (hcur i.1 i.2 hscore) fun before =>
        (matching_eq_some_iff hj).trans (hseen before)
      refine ⟨names.keys.map (fun problem => (i.1, i.2, problem)) ++ gained, ?_, fun id row problem => ?_, ?_⟩
      · rw [List.map_append, List.map_map]
        refine List.nodup_append.mpr ⟨Std.ExtTreeMap.nodup_keys.map fun _ _ h => (Prod.mk.inj h).2, hnodup, ?_⟩
        rintro _ hx _ hy rfl
        obtain ⟨_, -, rfl⟩ := List.mem_map.mp hx
        obtain ⟨⟨id, row, problem⟩, hy, heq⟩ := List.mem_map.mp hy
        have hlt := hfirst _ ((hmem id row problem).mp hy).1
        exact hlt.ne (Prod.mk.inj heq).1.symm
      · rw [List.mem_append, hmem, List.mem_map, List.mem_cons]
        constructor
        · rintro (⟨name, hname, heq⟩ | ⟨hin, hgained⟩)
          · cases heq
            obtain ⟨hyes, hno⟩ := (hsolved problem).mp (Std.ExtTreeMap.mem_keys.mp hname)
            exact ⟨.inl rfl, hscore, hpasses, hyes, hno⟩
          · exact ⟨.inr hin, hgained⟩
        · rintro ⟨heq | hin, hgained⟩
          · cases heq
            exact .inl ⟨problem,
              Std.ExtTreeMap.mem_keys.mpr ((hsolved problem).mpr ⟨hgained.solved, hgained.unsolved⟩), rfl⟩
          · exact .inr ⟨hin, hgained⟩
      · simp only [hnames, hwalk, Option.bind_eq_bind, Option.bind_some, Option.pure_def, List.map_append, List.map_map]
        rfl

theorem ascending_toList (t : Table Nat Row) : Ascending t.toList :=
  Std.ExtTreeMap.ordered_keys_toList.imp fun h => Nat.compare_eq_lt.mp h

end

/-- One event is queued for each problem that a contestant of the group has gained, and no other. -/
theorem queueBalloons_spec (old cur : ToolStandings) (hold : Fits old) (hcur : Fits cur) (group : Option Str)
    (time : Int) (queue : List BalloonEvent) :
    ∃ gained : List (Nat × Row × Str), (gained.map fun x => (x.1, x.2.2)).Nodup ∧
      (∀ id row problem, (id, row, problem) ∈ gained ↔ Gained old cur group id row problem) ∧
      queueBalloons old cur group time queue =
        some (queue ++ gained.map (fun x => event time x.2.1 x.2.2), gained.length) := by
  obtain ⟨gained, hnodup, hmem, hwalk⟩ := walk_spec hold hcur group time (ascending_toList cur.scores)
    (ascending_toList old.scores) (fun i hi => Std.ExtTreeMap.mem_toList_iff_getElem?_eq_some.mp hi)
    fun i _ before => Std.ExtTreeMap.mem_toList_iff_getElem?_eq_some
  refine ⟨gained, hnodup, fun id row problem => (hmem id row problem).trans ?_, ?_⟩
  · exact and_iff_right_of_imp fun h => Std.ExtTreeMap.mem_toList_iff_getElem?_eq_some.mpr h.found
  · rw [queueBalloons, hwalk, Option.bind_eq_bind, Option.bind_some, Option.pure_def, List.length_map]

def sampleCells (b : String) : List Str := ["1", "ann", "Ann", "x", "1", "1", "60", "1", b].map str

def beforeRow : Row := ⟨sampleCells "0", ⟨1, str "ann", str "Ann", str "x", true, 60, 1, [1, 0]⟩, by decide, rfl⟩

def afterRow : Row := ⟨sampleCells "2", ⟨1, str "ann", str "Ann", str "x", true, 60, 1, [1, 2]⟩, by decide, rfl⟩

def sampleStandings (row : Row) : ToolStandings :=
  ⟨["Id", "Username", "Name", "Group", "Contestant", "Solved", "Time", "A", "B"].map str, [⟨0, 1⟩],
    Std.ExtTreeMap.ofList [(1, row)]⟩

theorem fits_sampleStandings {row : Row} (h : ∀ i ∈ (sampleStandings row).scores.toList, i.2.raw.length ≤ 9) :
    Fits (sampleStandings row) := fun id r hr => h (id, r) (Std.ExtTreeMap.mem_toList_iff_getElem?_eq_some.mpr hr)

/-- The user had solved the first problem before. -/
theorem queueBalloons_sample :
    queueBalloons (sampleStandings beforeRow) (sampleStandings afterRow) (some (str "x")) 0 [] =
        some ([event 0 afterRow (str "B")], 1) ∧
      ∃ gained : List (Nat × Row × Str), (gained.map fun x => (x.1, x.2.2)).Nodup ∧ ∀ id row problem,
        (id, row, problem) ∈ gained ↔
        Gained (sampleStandings beforeRow) (sampleStandings afterRow) (some (str "x")) id row problem := by
  obtain ⟨gained, hnodup, hmem, -⟩ := queueBalloons_spec (sampleStandings beforeRow) (sampleStandings afterRow)
    (fits_sampleStandings (by decide)) (fits_sampleStandings (by decide)) (some (str "x")) 0 []
  exact ⟨by decide, gained, hnodup, hmem⟩

end Abacus.Standings.Balloons
