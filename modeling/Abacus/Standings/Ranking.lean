import Abacus.Standings.Tool

/-! # The ranking of the standings in the clients

A `Standings` of the tool has its scores in a map, and a ranking of them whose items are
iterators into the map. A new row is put into the map in place, and a copy gets a ranking of
its own. The page in the browser ranks the rows by the texts of their cells, and subtracts
the numbers in them as floating point numbers.
-/

namespace Abacus.Standings.Ranking

open Library Library.Bytes Misc Tool

section

/-- The values by which strings are compared, the bytes being unsigned. -/
def units (s : Str) : List Nat := s.map UInt8.toNat

def rankingStable (a b : Standing) : Bool :=
  if a.totalSolved ≠ b.totalSolved then a.totalSolved > b.totalSolved
  else if a.totalTime ≠ b.totalTime then a.totalTime < b.totalTime
  else units a.username < units b.username

theorem rankingStable_iff {a b : Standing} : rankingStable a b = true ↔ b.totalSolved < a.totalSolved ∨
    a.totalSolved = b.totalSolved ∧ (a.totalTime < b.totalTime ∨
      a.totalTime = b.totalTime ∧ units a.username < units b.username) := by
  unfold rankingStable
  split
  · next hsolved => simp only [decide_eq_true_eq, gt_iff_lt, hsolved, false_and, or_false]
  · next hsolved =>
    rw [not_not] at hsolved
    split
    · next htime => simp only [hsolved, decide_eq_true_eq, lt_irrefl, htime, false_and, or_false, true_and, false_or]
    · next htime => simp only [hsolved, not_not.mp htime, decide_eq_true_eq, lt_irrefl, true_and, false_or]

theorem strictWeak_rankingStable {α : Type} (score : α → Standing) :
    StrictWeak fun x y => rankingStable (score x) (score y) where
  asymm x y h := by
    rw [rankingStable_iff] at h
    rw [Bool.eq_false_iff, Ne, rankingStable_iff]
    have hname := lt_asymm (a := units (score x).username) (b := units (score y).username)
    grind
  trans x y z h h' := by
    rw [Bool.eq_false_iff, Ne, rankingStable_iff] at h h' ⊢
    have hname : ¬units (score y).username < units (score x).username →
        ¬units (score z).username < units (score y).username →
            ¬units (score z).username < units (score x).username := by
      simp only [not_lt]
      exact fun h h' => h.trans h'
    grind

end

section

/-- An entry of the map, which the constructor of `Standing` has made from the cells of a contestant. -/
structure Row where
  raw : List Str
  score : Standing
  made : Standing.ofRow raw = some score
  contestant : score.contestant = true

@[ext] structure Iterator where
  object : Nat
  key : Nat
  deriving DecidableEq

structure ToolStandings where
  header : List Str
  ordered : List Iterator
  scores : Table Nat Row

/-- The objects by their addresses. -/
abbrev State := List ToolStandings

/-- An exception ends the tool. -/
inductive Fault
  | exception
  | noObject
  | dangling
  deriving DecidableEq

def deref (s : State) (i : Iterator) : Except Fault (Iterator × Row) :=
  match (s[i.object]?).bind fun o => o.scores[i.key]? with
  | some row => .ok (i, row)
  | none => .error .dangling

variable (sorter : Sorter (Iterator × Row))

def compareStanding (a b : Iterator × Row) : Bool := rankingStable a.2.score b.2.score

def sortOrdered (s : State) (address : Nat) : Except Fault State :=
  match s[address]? with
  | none => .error .noObject
  | some o => do
    let view ← o.ordered.mapM (deref s)
    return s.set address { o with ordered := (sorter.sort compareStanding view).map Prod.fst }

def assign (s : State) (address source : Nat) : Except Fault State :=
  match s[source]? with
  | none => .error .noObject
  | some o => sortOrdered sorter (s.set address { o with ordered := o.scores.keys.map (Iterator.mk address) }) address

def addRow (address : Nat) (o : ToolStandings) (cells : List Str) : Except Fault ToolStandings :=
  match h : Standing.ofRow cells with
  | none => .error .exception
  | some score =>
    if hcontestant : score.contestant = true then
      let scores := o.scores.insert score.id ⟨cells, score, h, hcontestant⟩
      if score.id ∈ o.scores then .ok { o with scores }
      else .ok { o with scores, ordered := o.ordered ++ [⟨address, score.id⟩] }
    else .ok o

def gridToStandings (s : State) (address : Nat) : List (List Str) → Except Fault State
  | [] => .ok s
  | header :: rows =>
    match s[address]? with
    | none => .error .noObject
    | some o => do
      let o ← rows.foldlM (addRow address) { o with header }
      sortOrdered sorter (s.set address o) address

inductive Op
  | construct
  | copy (source : Nat)
  | assign (address source : Nat)
  | grid (address : Nat) (cells : List (List Str))

def Op.rows : Op → List (List Str)
  | .grid _ cells => cells.tail
  | _ => []

def step (s : State) : Op → Except Fault State
  | .construct => .ok (s ++ [⟨[], [], ∅⟩])
  | .copy source =>
    if source < s.length then assign sorter (s ++ [⟨[], [], ∅⟩]) s.length source else .error .noObject
  | .assign address source => assign sorter s address source
  | .grid address cells => gridToStandings sorter s address cells

def run (ops : List Op) : Except Fault State := ops.foldlM (step sorter) []

end

section

/-- How the browser holds a text is known for ASCII: its code units are the bytes. -/
structure Browser where
  text : Str → List Nat
  ascii : ∀ s : Str, (∀ b ∈ s, b < 128) → text s = units s

/-- The floating point number with 53 bits that is nearest to an integer, and of two the even one. -/
def toDouble (z : Int) : Int :=
  let ulp := 2 ^ (z.natAbs.log2 - 52)
  let quotient := z.natAbs / ulp
  let rest := z.natAbs % ulp
  z.sign * ↑((if ulp < 2 * rest ∨ ulp = 2 * rest ∧ quotient % 2 = 1 then quotient + 1 else quotient) * ulp)

/-- The text as a number, or nothing for `NaN`. -/
def number (cell : Str) : Option Int := (readSigned (cell.dropWhile isSpace)).map toDouble

/-- The sign of the difference. A `NaN` counts as 0. -/
def minus (x y : Str) : Int := ((number x).bind fun m => (number y).map fun n => m - n).getD 0

def rawUsername : Nat := 1

def rawTotalSolved : Nat := 5

def rawTotalTime : Nat := 6

def compareScore (browser : Browser) (arr₁ arr₂ : List Str) : Int :=
  let cell (arr : List Str) (i : Nat) : Str := arr.getD i []
  if browser.text (cell arr₁ rawTotalSolved) ≠ browser.text (cell arr₂ rawTotalSolved) then
    minus (cell arr₂ rawTotalSolved) (cell arr₁ rawTotalSolved)
  else if browser.text (cell arr₁ rawTotalTime) ≠ browser.text (cell arr₂ rawTotalTime) then
    minus (cell arr₁ rawTotalTime) (cell arr₂ rawTotalTime)
  else
    let username₁ := browser.text (cell arr₁ rawUsername)
    let username₂ := browser.text (cell arr₂ rawUsername)
    if username₁ = username₂ then 0 else if username₁ < username₂ then -1 else 1

end

section

/-- The ranking has each entry of the map of its own object once. -/
structure Held (address : Nat) (o : ToolStandings) : Prop where
  nodup : o.ordered.Nodup
  mem : ∀ i, i ∈ o.ordered ↔ i.object = address ∧ i.key ∈ o.scores

structure Ranked (address : Nat) (o : ToolStandings) : Prop extends Held address o where
  sorted : o.ordered.Pairwise fun i j =>
    ∀ a b, o.scores[i.key]? = some a → o.scores[j.key]? = some b → rankingStable b.score a.score = false

variable {P : List Str → Prop} {s : State} {address : Nat} {o : ToolStandings} (sorter : Sorter (Iterator × Row))

def MadeFrom (P : List Str → Prop) (o : ToolStandings) : Prop :=
  ∀ (k : Nat) (row : Row), o.scores[k]? = some row → P row.raw

def Good (P : List Str → Prop) (s : State) : Prop :=
  ∀ (address : Nat) o, s[address]? = some o → Ranked address o ∧ MadeFrom P o

/-- No iterator dangles, and `Q` holds unless an exception ends the tool. -/
def Safe {α : Type} (Q : α → Prop) : Except Fault α → Prop
  | .ok a => Q a
  | .error fault => fault ≠ .dangling

theorem safe_bind {α β : Type} {Q : α → Prop} {R : β → Prop} {x : Except Fault α} {f : α → Except Fault β}
    (hx : Safe Q x) (hf : ∀ a, Q a → Safe R (f a)) : Safe R (x >>= f) := by
  cases x with
  | ok a => exact hf a hx
  | error fault => exact hx

theorem safe_foldlM {α β : Type} {Q : β → Prop} {f : β → α → Except Fault β} {l : List α}
    (hf : ∀ x ∈ l, ∀ b, Q b → Safe Q (f b x)) {b : β} (hb : Q b) : Safe Q (l.foldlM f b) := by
  induction l generalizing b with
  | nil => exact hb
  | cons x l ih =>
    obtain ⟨hx, hl⟩ := List.forall_mem_cons.mp hf
    rw [List.foldlM_cons]
    exact safe_bind (hx b hb) fun b hb => ih hl hb

theorem mapM_deref (ho : s[address]? = some o) {l : List Iterator}
    (hl : ∀ i ∈ l, i.object = address ∧ i.key ∈ o.scores) :
    ∃ view, l.mapM (deref s) = .ok view ∧ view.map Prod.fst = l ∧ ∀ x ∈ view, o.scores[x.1.key]? = some x.2 := by
  induction l with
  | nil => exact ⟨[], rfl, rfl, nofun⟩
  | cons i l ih =>
    obtain ⟨⟨hobject, hkey⟩, hl⟩ := List.forall_mem_cons.mp hl
    obtain ⟨row, hrow⟩ := Table.mem_iff_exists_row.mp hkey
    obtain ⟨view, hview, hfst, hrows⟩ := ih hl
    have hderef : deref s i = .ok (i, row) := by
      rw [deref, hobject, ho, Option.bind_some, hrow]
    refine ⟨(i, row) :: view, ?_, congrArg (i :: ·) hfst, List.forall_mem_cons.mpr ⟨hrow, hrows⟩⟩
    rw [List.mapM_cons, hderef, hview]
    rfl

theorem sortOrdered_spec (ho : s[address]? = some o) (h : Held address o) :
    ∃ ordered,
      sortOrdered sorter s address = .ok (s.set address { o with ordered }) ∧ Ranked address { o with ordered } := by
  obtain ⟨view, hview, hfst, hrows⟩ := mapM_deref ho fun i hi => (h.mem i).mp hi
  have hsort := sorter.perm compareStanding view
  have hperm : ((sorter.sort compareStanding view).map Prod.fst).Perm o.ordered := hfst ▸ hsort.map Prod.fst
  refine ⟨_, ?_, ⟨hperm.nodup_iff.mpr h.nodup, fun i => hperm.mem_iff.trans (h.mem i)⟩, ?_⟩
  · rw [sortOrdered, ho]
    dsimp only
    rw [hview]
    rfl
  · refine List.pairwise_map.mpr ((sorter.sorted _ (strictWeak_rankingStable fun x => x.2.score) view).imp_of_mem ?_)
    intro x y hx hy hxy a b ha hb
    obtain rfl := Option.some.inj ((hrows x (hsort.mem_iff.mp hx)).symm.trans ha)
    obtain rfl := Option.some.inj ((hrows y (hsort.mem_iff.mp hy)).symm.trans hb)
    exact hxy

theorem safe_sortOrdered (hs : Good P s) (h : Held address o) (hfrom : MadeFrom P o) :
    Safe (Good P) (sortOrdered sorter (s.set address o) address) := by
  by_cases hlt : address < s.length
  · obtain ⟨ordered, hsort, hranked⟩ := sortOrdered_spec sorter (List.getElem?_set_self hlt) h
    rw [hsort, List.set_set]
    intro other o' ho'
    rw [List.getElem?_set] at ho'
    split at ho'
    · next heq =>
      cases ho'
      exact ⟨heq ▸ hranked, hfrom⟩
    · exact hs other o' ho'
  · rw [sortOrdered, List.getElem?_eq_none (by simpa using hlt)]
    exact nofun

theorem held_addRow {cells : List Str} (hcells : P cells) (h : Held address o ∧ MadeFrom P o) :
    Safe (fun o => Held address o ∧ MadeFrom P o) (addRow address o cells) := by
  obtain ⟨hheld, hfrom⟩ := h
  have hinsert {id : Nat} {row : Row} (hrow : P row.raw) (k : Nat) (row' : Row)
      (hget : (o.scores.insert id row)[k]? = some row') : P row'.raw := by
    rw [Table.getElem?_insert_row] at hget
    split at hget
    · cases hget
      exact hrow
    · exact hfrom k row' hget
  unfold addRow
  split
  · exact nofun
  · next score hscore =>
    split
    · dsimp only
      split
      · next hmem =>
        refine ⟨⟨hheld.nodup, fun i => (hheld.mem i).trans (and_congr_right fun _ => ?_)⟩, hinsert hcells⟩
        rw [Table.mem_insert_row]
        exact ⟨.inr, Or.rec (fun heq => heq ▸ hmem) id⟩
      · next hnew =>
        refine ⟨⟨?_, fun i => ?_⟩, hinsert hcells⟩
        · refine List.nodup_append.mpr ⟨hheld.nodup, List.nodup_singleton _, ?_⟩
          rintro i hi _ hj rfl
          rw [List.mem_singleton.mp hj] at hi
          exact hnew ((hheld.mem _).mp hi).2
        · rw [List.mem_append, List.mem_singleton, hheld.mem, Table.mem_insert_row, Iterator.ext_iff]
          grind
    · exact ⟨hheld, hfrom⟩

theorem held_keys (address : Nat) (o : ToolStandings) :
    Held address { o with ordered := o.scores.keys.map (Iterator.mk address) } where
  nodup := Std.ExtTreeMap.nodup_keys.map fun _ _ h => (Iterator.mk.inj h).2
  mem i := by
    simp only [List.mem_map, Std.ExtTreeMap.mem_keys, Iterator.ext_iff]
    grind

theorem safe_assign (hs : Good P s) (address source : Nat) : Safe (Good P) (assign sorter s address source) := by
  unfold assign
  split
  · exact nofun
  · next o ho => exact safe_sortOrdered sorter hs (held_keys address o) (hs source o ho).2

theorem good_construct (hs : Good P s) : Good P (s ++ [⟨[], [], ∅⟩]) := by
  intro address o ho
  rw [List.getElem?_append] at ho
  split at ho
  · exact hs address o ho
  · obtain rfl := List.mem_singleton.mp (List.mem_of_getElem? ho)
    exact ⟨⟨⟨.nil, fun i => by simp⟩, .nil⟩, fun k row hrow => by simp at hrow⟩

theorem safe_step (hs : Good P s) (op : Op) (hop : ∀ cells ∈ op.rows, P cells) : Safe (Good P) (step sorter s op) := by
  cases op with
  | construct => exact good_construct hs
  | copy source =>
    dsimp only [step]
    split
    · exact safe_assign sorter (good_construct hs) _ _
    · exact nofun
  | assign address source => exact safe_assign sorter hs address source
  | grid address cells =>
    cases cells with
    | nil => exact hs
    | cons header rows =>
      dsimp only [step, gridToStandings]
      split
      · exact nofun
      · next o ho =>
        obtain ⟨hranked, hfrom⟩ := hs address o ho
        refine safe_bind (safe_foldlM (fun cells hcells o h => held_addRow (hop cells hcells) h) ?_) fun o h =>
          safe_sortOrdered sorter hs h.1 h.2
        exact ⟨⟨hranked.nodup, hranked.mem⟩, hfrom⟩

/-- What a run of the tool keeps: an object has its own entries in its ranking, and they are rows that it was given. -/
theorem safe_run (ops : List Op) : Safe (Good (· ∈ ops.flatMap Op.rows)) (run sorter ops) := by
  refine safe_foldlM (fun op hop s hs => safe_step sorter hs op fun cells hcells => ?_) fun address o ho => ?_
  · exact List.mem_flatMap.mpr ⟨op, hop, hcells⟩
  · cases ho

end

section

/-- The numbers are as the server writes them, and the browser can hold them. -/
structure Sent (cells : List Str) : Prop where
  solved : ∃ n : Nat, cells.getD rawTotalSolved [] = decimal n ∧ n ≤ 2147483647
  time : ∃ z : Int, cells.getD rawTotalTime [] = Misc.toString z ∧ z.natAbs ≤ 9007199254740992

theorem toDouble_eq {z : Int} (h : z.natAbs ≤ 9007199254740992) : toDouble z = z := by
  obtain hlt | heq := Nat.lt_or_eq_of_le h
  · have hlog : z.natAbs.log2 - 52 = 0 := by
      obtain hzero | hne := Nat.eq_zero_or_pos z.natAbs
      · rw [hzero]
        rfl
      · have hbits := (Nat.log2_lt (k := 53) (by omega)).mpr hlt
        omega
    simp [toDouble, hlog, Nat.mod_one]
    rw [Int.abs_eq_natAbs, Int.sign_mul_natAbs]
  · obtain rfl | rfl := Int.natAbs_eq_iff.mp heq <;> rfl

theorem fromStringTime_toString {z : Int} (h : z.natAbs ≤ 9007199254740992) :
    fromStringTime (Misc.toString z) = some z := by
  rw [fromStringTime, fromString_toString, if_pos (by omega)]

theorem number_toString {z : Int} (h : z.natAbs ≤ 9007199254740992) : number (Misc.toString z) = some z := by
  have hread := (Option.filter_eq_some_iff.mp (fromStringTime_toString h)).1
  rw [number, hread, Option.map_some, toDouble_eq h]

theorem minus_toString {y z : Int} (hy : y.natAbs ≤ 9007199254740992) (hz : z.natAbs ≤ 9007199254740992) :
    minus (Misc.toString y) (Misc.toString z) = y - z := by
  rw [minus, number_toString hy, number_toString hz]
  rfl

theorem ascii_toString (z : Int) : ∀ b ∈ Misc.toString z, b < 128 := by
  have hdecimal (n : Nat) : ∀ b ∈ decimal n, b < 128 := by
    intro b hb
    have hdigit := List.all_eq_true.mp (all_isDigit_decimalDigits n n) b hb
    simp only [isDigit, Bool.and_eq_true, decide_eq_true_eq] at hdigit
    exact UInt8.lt_of_le_of_lt hdigit.2 (by decide)
  unfold Misc.toString
  split
  · exact List.forall_mem_cons.mpr ⟨by decide, hdecimal _⟩
  · exact hdecimal _

theorem text_toString_inj (browser : Browser) {y z : Int} (hy : y.natAbs ≤ 9007199254740992)
    (hz : z.natAbs ≤ 9007199254740992) : browser.text (Misc.toString y) = browser.text (Misc.toString z) ↔ y = z := by
  refine ⟨fun h => ?_, fun h => h ▸ rfl⟩
  rw [browser.ascii _ (ascii_toString y), browser.ascii _ (ascii_toString z)] at h
  have hsame := List.map_injective_iff.mpr (fun _ _ => UInt8.toNat_inj.mp) h
  exact Option.some.inj ((fromStringTime_toString hy).symm.trans (hsame ▸ fromStringTime_toString hz))

theorem Row.cells (row : Row) (h : Sent row.raw) :
    row.raw.getD rawUsername [] = row.score.username ∧
      (row.raw.getD rawTotalSolved [] = Misc.toString row.score.totalSolved ∧
        row.score.totalSolved.natAbs ≤ 9007199254740992) ∧
      row.raw.getD rawTotalTime [] = Misc.toString row.score.totalTime ∧
        row.score.totalTime.natAbs ≤ 9007199254740992 := by
  obtain ⟨⟨n, hn, hpoints⟩, z, hz, hseconds⟩ := h
  have hmade := row.made
  unfold Standing.ofRow at hmade
  split at hmade
  · next id username friendlyname group contestant points time tries hraw =>
    rw [hraw] at hn hz ⊢
    change points = _ at hn
    change time = _ at hz
    simp only [Option.bind_eq_bind, Option.bind_eq_some_iff] at hmade
    obtain ⟨_, -, _, -, t, ht, m, hm, _, -, hscore⟩ := hmade
    rw [hn, fromStringU32_decimal (by omega)] at hm
    rw [hz, fromStringTime_toString hseconds] at ht
    cases hm
    cases ht
    have hscore := Option.some.inj hscore
    have hint : Update.int32 n = n := Int.bmod_eq_of_le (by omega) (by omega)
    rw [hint] at hscore
    have hsolved : (n : Int) = row.score.totalSolved := congrArg Standing.totalSolved hscore
    have htime : z = row.score.totalTime := congrArg Standing.totalTime hscore
    have huser : username = row.score.username := congrArg Standing.username hscore
    rw [← hsolved, ← htime, ← huser, toString_natCast]
    exact ⟨rfl, ⟨hn, by omega⟩, hz, hseconds⟩
  · cases hmade

theorem compareScore_spec (browser : Browser) {a b : Row} (ha : Sent a.raw) (hb : Sent b.raw)
    (hname : ∀ c ∈ a.score.username, c < 128) (hname' : ∀ c ∈ b.score.username, c < 128) :
    (compareScore browser a.raw b.raw < 0 ↔ rankingStable a.score b.score = true) ∧
      (0 < compareScore browser a.raw b.raw ↔ rankingStable b.score a.score = true) := by
  obtain ⟨huser, ⟨hsolved, hpoints⟩, htime, hseconds⟩ := a.cells ha
  obtain ⟨huser', ⟨hsolved', hpoints'⟩, htime', hseconds'⟩ := b.cells hb
  simp only [compareScore, huser, huser', hsolved, hsolved', htime, htime', Ne,
    text_toString_inj browser hpoints hpoints',
    text_toString_inj browser hseconds hseconds', minus_toString hpoints' hpoints, minus_toString hseconds hseconds',
    browser.ascii _ hname, browser.ascii _ hname', rankingStable_iff]
  have htotal := lt_trichotomy (units a.score.username) (units b.score.username)
  have hasymm := lt_asymm (a := units a.score.username) (b := units b.score.username)
  have hirrefl := lt_irrefl (units a.score.username)
  split
  · grind
  · split
    · grind
    · split
      · grind
      · split <;> grind

/-- The page orders the rows of an object as the tool does. -/
def Agrees (browser : Browser) (o : ToolStandings) : Prop :=
  ∀ (k k' : Nat) (a b : Row), o.scores[k]? = some a → o.scores[k']? = some b → (∀ c ∈ a.score.username, c < 128) →
    (∀ c ∈ b.score.username, c < 128) →
      (compareScore browser a.raw b.raw < 0 ↔ rankingStable a.score b.score = true) ∧
        (0 < compareScore browser a.raw b.raw ↔ rankingStable b.score a.score = true)

/-- In every run, no iterator dangles, each object has a ranking of its own entries, and the page has the same order if
the rows are as the server sends them. -/
theorem ranked_of_run (browser : Browser) (sorter : Sorter (Iterator × Row)) (ops : List Op) :
    run sorter ops ≠ .error .dangling ∧ ∀ s, run sorter ops = .ok s → ∀ (address : Nat) o, s[address]? = some o →
      Ranked address o ∧ ((∀ cells ∈ ops.flatMap Op.rows, Sent cells) → Agrees browser o) := by
  have hsafe := safe_run sorter ops
  constructor
  · intro herror
    rw [herror] at hsafe
    exact hsafe rfl
  · intro s hs address o ho
    rw [hs] at hsafe
    obtain ⟨hranked, hfrom⟩ := hsafe address o ho
    refine ⟨hranked, fun hsent k k' a b ha hb => ?_⟩
    exact compareScore_spec browser (hsent _ (hfrom k a ha)) (hsent _ (hfrom k' b hb))

section

def asciiBrowser : Browser where
  text := units
  ascii _ _ := rfl

def cellsOf (id username time : String) : List Str := [id, username, username, "none", "1", "3", time].map str

def twoRows (time : String) : List Op :=
  [.construct, .grid 0 [[], cellsOf "1" "ann" time, cellsOf "2" "bob" "9007199254740992"], .copy 0]

theorem sent_twoRows : ∀ cells ∈ (twoRows "100").flatMap Op.rows, Sent cells := by
  rintro cells (_ | ⟨_, _ | ⟨_, ⟨⟩⟩⟩)
  · exact ⟨⟨3, by decide, by decide⟩, 100, by decide, by decide⟩
  · exact ⟨⟨3, by decide, by decide⟩, 9007199254740992, by decide, by decide⟩

/-- The copy has iterators of its own. -/
theorem ranked_twoRows : ∃ s o, run .insertion (twoRows "100") = .ok s ∧ s[1]? = some o ∧
    o.ordered = [⟨1, 1⟩, ⟨1, 2⟩] ∧ Ranked 1 o ∧ Agrees asciiBrowser o := by
  have hview : (run .insertion (twoRows "100")).toOption.bind (fun s => (s[1]?).map ToolStandings.ordered) =
      some [⟨1, 1⟩, ⟨1, 2⟩] := by decide +kernel
  cases hrun : run .insertion (twoRows "100") with
  | error fault =>
    rw [hrun] at hview
    cases hview
  | ok s =>
    rw [hrun] at hview
    obtain ⟨o, ho, hordered⟩ := Option.map_eq_some_iff.mp hview
    obtain ⟨hranked, hagrees⟩ := (ranked_of_run asciiBrowser .insertion (twoRows "100")).2 s hrun 1 o ho
    exact ⟨s, o, rfl, ho, hordered, hranked, hagrees sent_twoRows⟩

/-- The two times are one number in the browser. -/
theorem not_agrees_twoRows :
    ¬∀ browser sorter ops s, run sorter ops = .ok s → ∀ (address : Nat) o, s[address]? = some o →
    Ranked address o ∧ Agrees browser o := by
  intro hall
  have hrows : (run .insertion (twoRows "9007199254740993")).toOption.bind (fun s => (s[0]?).bind fun o =>
      (o.scores[1]?).bind fun a => (o.scores[2]?).map fun b =>
        (a.score.username, b.score.username, rankingStable b.score a.score, compareScore asciiBrowser a.raw b.raw)) =
      some (str "ann", str "bob", true, 0) := by decide +kernel
  obtain ⟨s, hs, hrows⟩ := Option.bind_eq_some_iff.mp hrows
  obtain ⟨o, ho, hrows⟩ := Option.bind_eq_some_iff.mp hrows
  obtain ⟨a, ha, hrows⟩ := Option.bind_eq_some_iff.mp hrows
  obtain ⟨b, hb, hrows⟩ := Option.map_eq_some_iff.mp hrows
  obtain ⟨hann, hbob, hbefore, hequal⟩ : _ ∧ _ ∧ _ ∧ _ := by simpa only [Prod.mk.injEq] using hrows
  cases hrun : run .insertion (twoRows "9007199254740993") with
  | error fault =>
    rw [hrun] at hs
    cases hs
  | ok s' =>
    have hagrees := (hall asciiBrowser .insertion _ s' hrun 0 o (by rw [hrun] at hs; cases hs; exact ho)).2
    have hsign := (hagrees 1 2 a b ha hb (by rw [hann]; decide +kernel) (by rw [hbob]; decide +kernel)).2.mpr hbefore
    rw [hequal] at hsign
    exact absurd hsign (by decide)

end

end

end Abacus.Standings.Ranking
