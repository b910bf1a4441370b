import Abacus.Library.Table
import Abacus.Messenger.Fragments
import Mathlib.Order.Interval.Finset.Nat

/-! # Putting fragments together

The receiver learns the number of fragments from the one that is marked as the last; before that it assumes
one more than the largest number it has seen.
-/

namespace Abacus.Messenger.Reassembly

open Library Library.Bytes Messenger.Fragments

/-- `st_fragment_collection`. There are fewer than `2 ^ 16` numbers, so the counts are no sums modulo `2 ^ 16`. -/
structure Collection where
  numFragments : Nat
  fragmentsReceived : Nat
  fragments : Table Nat Str

namespace Collection

def empty : Collection := ⟨0, 0, ∅⟩

def expect (c : Collection) (number : Nat) (lastfragment : Bool) : Collection :=
  if c.numFragments ≤ number then { c with numFragments := number + if lastfragment then 0 else 1 } else c

def add (c : Collection) (number : Nat) (data : Str) : Collection :=
  { c with fragmentsReceived := c.fragmentsReceived + 1, fragments := c.fragments.insert number data }

def blob (c : Collection) : Str := c.fragments.toList.flatMap Prod.snd

end Collection

abbrev FragmentMap := Table (Nat × Nat) Collection

def held (t : FragmentMap) (key : Nat × Nat) : Collection := t[key]?.getD .empty

/-- A packet after decryption, and what `hasMessage` says when it comes in. -/
structure Arrival where
  frame : Frame
  hasMessage : Bool

inductive Outcome (α : Type)
  | short
  | putAck (serverId messageId ackingServer : Nat)
  | badLength
  | badChecksum
  | sendAck (key : Nat × Nat)
  | duplicate
  | kept
  /-- All fragments are there, and `buildMessage` refuses their blob. -/
  | refused (key : Nat × Nat) (blob : Str)
  | message (key : Nat × Nat) (blob : Str) (m : α)
  deriving DecidableEq

section

variable {α : Type} (buildMessage : Str → Option α) (checksumSeed : Nat)

def collect (t : FragmentMap) (f : Frame) : FragmentMap × Outcome α :=
  let c := (held t f.key).expect f.number f.lastfragment
  if f.number ∈ c.fragments then (t.insert f.key c, .duplicate)
  else
    let c := c.add f.number f.data
    if c.fragmentsReceived = c.numFragments then
      match buildMessage c.blob with
      | none => (t.insert f.key c, .refused f.key c.blob)
      | some m => (t.erase f.key, .message f.key c.blob m)
    else (t.insert f.key c, .kept)

def receive (t : FragmentMap) (a : Arrival) : FragmentMap × Outcome α :=
  let f := a.frame
  if f.data.length = 0 then (t, .short)
  else if f.fragmentNum = 0 then (t, .putAck f.serverId f.messageId f.fragmentLen)
  else if f.data.length ≠ f.fragmentLen then (t, .badLength)
  else if f.dataChecksum ≠ checksum checksumSeed (f.data.take (f.fragmentLen % 65536)) then (t, .badChecksum)
  else if a.hasMessage then (t, .sendAck f.key)
  else collect buildMessage t f

/-- The fragments that are kept after some packets. They stay from one call of `getMessage` to the next. -/
def receiveAll (t : FragmentMap) (arrivals : List Arrival) : FragmentMap :=
  arrivals.foldl (fun t a => (receive buildMessage checksumSeed t a).1) t

/-- `getMessage`: the message with its key and blob, the fragments that are kept and the packets that are left. -/
def getMessage (t : FragmentMap) : List Arrival → Option ((Nat × Nat) × Str × α × FragmentMap × List Arrival)
  | [] => none
  | a :: rest =>
    match receive buildMessage checksumSeed t a with
    | (t, .message key blob m) => some (key, blob, m, t, rest)
    | (t, _) => getMessage t rest

end

section

variable {blob : Str} {n i : Nat} {c : Collection}

structure Gathered (blob : Str) (n : Nat) (c : Collection) : Prop where
  pieces : ∀ i data, c.fragments[i]? = some data → 0 < i ∧ i ≤ n ∧ data = Split.piece blob n (i - 1)
  received : c.fragmentsReceived = c.fragments.size
  le : c.numFragments ≤ n
  exact : n ∈ c.fragments → c.numFragments = n
  guess : n ∉ c.fragments → ∀ i ∈ c.fragments, i < c.numFragments

theorem gathered_empty (blob : Str) (n : Nat) : Gathered blob n .empty where
  pieces := by
    intro i data h
    cases h
  received := rfl
  le := Nat.zero_le n
  exact := fun h => absurd h Std.ExtTreeMap.not_mem_empty
  guess := fun _ i h => absurd h Std.ExtTreeMap.not_mem_empty

theorem fragments_expect (c : Collection) (i : Nat) (last : Bool) : (c.expect i last).fragments = c.fragments := by
  unfold Collection.expect
  split <;> rfl

theorem fragmentsReceived_expect (c : Collection) (i : Nat) (last : Bool) :
    (c.expect i last).fragmentsReceived = c.fragmentsReceived := by
  unfold Collection.expect
  split <;> rfl

variable {last : Bool}

theorem numFragments_expect (c : Collection) (hlast : last = true ↔ i = n) :
    (c.expect i last).numFragments =
      if c.numFragments ≤ i then if i = n then i else i + 1 else c.numFragments := by
  unfold Collection.expect
  split
  · simp only [hlast]
    split <;> rfl
  · rfl

theorem Gathered.expect (h : Gathered blob n c) (hlast : last = true ↔ i = n) (hmem : i ∈ c.fragments) :
    Gathered blob n (c.expect i last) := by
  obtain ⟨data, hdata⟩ := Table.mem_iff_exists_row.mp hmem
  obtain ⟨-, hi, -⟩ := h.pieces i data hdata
  have hle : c.numFragments ≤ n := h.le
  have hnum := numFragments_expect c hlast
  constructor
  case pieces =>
    rw [fragments_expect]
    exact h.pieces
  case received =>
    rw [fragments_expect, fragmentsReceived_expect]
    exact h.received
  case le =>
    rw [hnum]
    split_ifs <;> omega
  case exact =>
    rw [fragments_expect, hnum]
    intro hn
    have heq : c.numFragments = n := h.exact hn
    split_ifs <;> omega
  case guess =>
    rw [fragments_expect, hnum]
    intro hn j hj
    have hlt : i < c.numFragments := h.guess hn i hmem
    rw [if_neg (by omega)]
    exact h.guess hn j hj

theorem Gathered.add (h : Gathered blob n c) (hlast : last = true ↔ i = n) (hpos : 0 < i) (hi : i ≤ n)
    (hnew : i ∉ c.fragments) : Gathered blob n ((c.expect i last).add i (Split.piece blob n (i - 1))) := by
  have hle : c.numFragments ≤ n := h.le
  have hnum := numFragments_expect c hlast
  constructor
  case pieces =>
    intro j data hj
    simp only [Collection.add, fragments_expect, Table.getElem?_insert_row] at hj
    split at hj
    · next heq =>
      subst heq
      exact ⟨hpos, hi, (Option.some.inj hj).symm⟩
    · exact h.pieces j data hj
  case received =>
    simp only [Collection.add, fragments_expect, fragmentsReceived_expect, Std.ExtTreeMap.size_insert,
      Std.ExtTreeMap.contains_iff_mem, hnew, if_false, h.received]
  case le =>
    simp only [Collection.add, hnum]
    split_ifs <;> omega
  case exact =>
    simp only [Collection.add, fragments_expect, Table.mem_insert_row, hnum]
    rintro (heq | hn)
    · split_ifs <;> omega
    · have heq : c.numFragments = n := h.exact hn
      have hne : i ≠ n := fun h => hnew (h ▸ hn)
      rw [if_neg (by omega)]
      exact heq
  case guess =>
    simp only [Collection.add, fragments_expect, Table.mem_insert_row, hnum, not_or]
    rintro ⟨hne, hn⟩ j (rfl | hj)
    · rw [if_neg hne]
      split <;> omega
    · have hlt : j < c.numFragments := h.guess hn j hj
      rw [if_neg hne]
      split <;> omega

/-- The count of received fragments meets the expected one when all are there, and not before. -/
theorem Gathered.complete_iff (h : Gathered blob n c) (hmem : i ∈ c.fragments) :
    c.fragmentsReceived = c.numFragments ↔ ∀ j, 0 < j → j ≤ n → j ∈ c.fragments := by
  have hrange : ∀ j ∈ c.fragments, 0 < j ∧ j ≤ n := by
    intro j hj
    obtain ⟨data, hdata⟩ := Table.mem_iff_exists_row.mp hj
    obtain ⟨hpos, hle, -⟩ := h.pieces j data hdata
    exact ⟨hpos, hle⟩
  have hcard : c.fragments.keys.toFinset.card = c.fragmentsReceived := by
    rw [List.toFinset_card_of_nodup Std.ExtTreeMap.nodup_keys, Std.ExtTreeMap.length_keys, h.received]
  have hkeys : ∀ j, j ∈ c.fragments.keys.toFinset ↔ j ∈ c.fragments := by
    intro j
    rw [List.mem_toFinset, Std.ExtTreeMap.mem_keys]
  by_cases hn : n ∈ c.fragments
  · have hsub : c.fragments.keys.toFinset ⊆ Finset.Icc 1 n := by
      intro j hj
      rw [Finset.mem_Icc]
      exact hrange j ((hkeys j).mp hj)
    rw [h.exact hn, ← hcard]
    constructor
    · intro heq j hpos hle
      have hall : c.fragments.keys.toFinset = Finset.Icc 1 n := by
        apply Finset.eq_of_subset_of_card_le hsub
        rw [Nat.card_Icc, heq]
        omega
      rw [← hkeys, hall, Finset.mem_Icc]
      exact ⟨hpos, hle⟩
    · intro hall
      have heq : c.fragments.keys.toFinset = Finset.Icc 1 n := by
        apply Finset.Subset.antisymm hsub
        intro j hj
        obtain ⟨hpos, hle⟩ := Finset.mem_Icc.mp hj
        exact (hkeys j).mpr (hall j hpos hle)
      rw [heq, Nat.card_Icc]
      omega
  · -- the numbers are below the guess, and none of them is zero
    have hsub : c.fragments.keys.toFinset ⊆ Finset.Ico 1 c.numFragments := by
      intro j hj
      rw [Finset.mem_Ico]
      exact ⟨(hrange j ((hkeys j).mp hj)).1, h.guess hn j ((hkeys j).mp hj)⟩
    have hfew : c.fragments.keys.toFinset.card ≤ c.numFragments - 1 := by
      have hle := Finset.card_le_card hsub
      rwa [Nat.card_Ico] at hle
    have hlt : i < c.numFragments := h.guess hn i hmem
    obtain ⟨hpos, hle⟩ := hrange i hmem
    constructor
    · intro heq
      omega
    · intro hall
      exact absurd (hall n (by omega) le_rfl) hn

theorem Gathered.blob_eq (h : Gathered blob n c) (hn : 0 < n) (hall : ∀ j, 0 < j → j ≤ n → j ∈ c.fragments) :
    c.blob = blob := by
  have hlist : c.fragments.toList = (List.range n).map fun k => (k + 1, Split.piece blob n k) := by
    apply Table.toList_eq_of_ordered
    · rw [List.pairwise_map]
      apply List.pairwise_lt_range.imp
      intro a b hab
      exact Nat.compare_eq_lt.mpr (by omega)
    · intro i data
      rw [List.mem_map]
      constructor
      · rintro ⟨k, hk, heq⟩
        obtain ⟨rfl, rfl⟩ := Prod.mk.inj heq
        obtain ⟨data, hdata⟩ := Table.mem_iff_exists_row.mp (hall (k + 1) (by omega) (List.mem_range.mp hk))
        obtain ⟨-, -, rfl⟩ := h.pieces _ _ hdata
        exact hdata
      · intro hdata
        obtain ⟨hpos, hle, rfl⟩ := h.pieces _ _ hdata
        refine ⟨i - 1, List.mem_range.mpr (by omega), ?_⟩
        rw [Nat.sub_add_cancel hpos]
  rw [Collection.blob, hlist, List.flatMap_map]
  exact Split.flatMap_piece blob hn

end

section

variable {α : Type} {buildMessage : Str → Option α} {checksumSeed : Nat} {key : Nat × Nat} {blob : Str} {n i : Nat}
  {t : FragmentMap} {a : Arrival} {f : Frame}

def Outcome.assembled : Outcome α → Option ((Nat × Nat) × Str)
  | .refused key blob => some (key, blob)
  | .message key blob _ => some (key, blob)
  | _ => none

structure Carries (key : Nat × Nat) (blob : Str) (n i : Nat) (f : Frame) : Prop where
  key : f.key = key
  pos : 0 < i
  le : i ≤ n
  number : f.number = i
  last : f.lastfragment = true ↔ i = n
  data : f.data = Split.piece blob n (i - 1)

theorem held_insert (t : FragmentMap) (key other : Nat × Nat) (c : Collection) :
    held (t.insert key c) other = if key = other then c else held t other := by
  rw [held, Table.getElem?_insert_row]
  split <;> rfl

theorem held_erase (t : FragmentMap) (key other : Nat × Nat) :
    held (t.erase key) other = if key = other then .empty else held t other := by
  rw [held, Table.getElem?_erase_row]
  split <;> rfl

theorem collect_cases (buildMessage : Str → Option α) (t : FragmentMap) (f : Frame) :
    (f.number ∈ (held t f.key).fragments ∧
      collect buildMessage t f = (t.insert f.key ((held t f.key).expect f.number f.lastfragment), .duplicate)) ∨
    f.number ∉ (held t f.key).fragments ∧ ∃ c, c = ((held t f.key).expect f.number f.lastfragment).add f.number f.data ∧
      ((c.fragmentsReceived ≠ c.numFragments ∧ collect buildMessage t f = (t.insert f.key c, .kept)) ∨
      (c.fragmentsReceived = c.numFragments ∧ buildMessage c.blob = none ∧
        collect buildMessage t f = (t.insert f.key c, .refused f.key c.blob)) ∨
      ∃ m, c.fragmentsReceived = c.numFragments ∧ buildMessage c.blob = some m ∧
        collect buildMessage t f = (t.erase f.key, .message f.key c.blob m)) := by
  have hsame : ((held t f.key).expect f.number f.lastfragment).fragments = (held t f.key).fragments :=
    fragments_expect _ _ _
  simp only [collect, hsame]
  by_cases hmem : f.number ∈ (held t f.key).fragments
  · left
    exact ⟨hmem, if_pos hmem⟩
  · right
    refine ⟨hmem, _, rfl, ?_⟩
    rw [if_neg hmem]
    split
    · next heq =>
      right
      split
      · next hbuild => exact .inl ⟨heq, hbuild, rfl⟩
      · next m hbuild => exact .inr ⟨m, heq, hbuild, rfl⟩
    · next hne => exact .inl ⟨hne, rfl⟩

theorem held_collect_of_ne (h : f.key ≠ key) : held (collect buildMessage t f).1 key = held t key := by
  rcases collect_cases buildMessage t f with ⟨-, heq⟩ | ⟨-, c, -, ⟨-, heq⟩ | ⟨-, -, heq⟩ | ⟨m, -, -, heq⟩⟩
  · rw [heq, held_insert, if_neg h]
  · rw [heq, held_insert, if_neg h]
  · rw [heq, held_insert, if_neg h]
  · rw [heq, held_erase, if_neg h]

theorem assembled_collect {other : Nat × Nat} {blob' : Str}
    (h : (collect buildMessage t f).2.assembled = some (other, blob')) : other = f.key := by
  rcases collect_cases buildMessage t f with ⟨-, heq⟩ | ⟨-, c, -, ⟨-, heq⟩ | ⟨-, -, heq⟩ | ⟨m, -, -, heq⟩⟩
  · rw [heq] at h
    cases h
  · rw [heq] at h
    cases h
  · rw [heq] at h
    cases h
    rfl
  · rw [heq] at h
    cases h
    rfl

theorem collect_carries (h : Gathered blob n (held t key)) (hf : Carries key blob n i f) :
    Gathered blob n (held (collect buildMessage t f).1 key) ∧
      ∀ b, (collect buildMessage t f).2.assembled = some (key, b) → b = blob := by
  have hn : 0 < n := Nat.lt_of_lt_of_le hf.pos hf.le
  rcases collect_cases buildMessage t f with ⟨hmem, heq⟩ | ⟨hmem, c, hc, hcases⟩
  · rw [hf.number, hf.key] at hmem
    constructor
    · rw [heq, hf.key, hf.number, held_insert, if_pos rfl]
      exact h.expect hf.last hmem
    · intro b hb
      rw [heq] at hb
      cases hb
  · rw [hf.number, hf.key] at hmem
    rw [hf.number, hf.key, hf.data] at hc
    have hpart : Gathered blob n c := hc ▸ h.add hf.last hf.pos hf.le hmem
    have hin : i ∈ c.fragments := hc ▸ Table.mem_insert_row.mpr (.inl rfl)
    rcases hcases with ⟨-, heq⟩ | ⟨hall, -, heq⟩ | ⟨m, hall, -, heq⟩
    · constructor
      · rw [heq, hf.key, held_insert, if_pos rfl]
        exact hpart
      · intro b hb
        rw [heq] at hb
        cases hb
    · constructor
      · rw [heq, hf.key, held_insert, if_pos rfl]
        exact hpart
      · intro b hb
        rw [heq] at hb
        cases hb
        exact hpart.blob_eq hn ((hpart.complete_iff hin).mp hall)
    · constructor
      · rw [heq, hf.key, held_erase, if_pos rfl]
        exact gathered_empty blob n
      · intro b hb
        rw [heq] at hb
        cases hb
        exact hpart.blob_eq hn ((hpart.complete_iff hin).mp hall)

theorem collect_missing {m : α} (hbuild : buildMessage blob = some m) (h : Gathered blob n (held t key))
    (hf : Carries key blob n i f) (hmissing : ∃ j, 0 < j ∧ j ≤ n ∧ j ∉ (held t key).fragments) :
    ((∀ j, 0 < j → j ≤ n → j = i ∨ j ∈ (held t key).fragments) ∧
      collect buildMessage t f = (t.erase key, .message key blob m)) ∨
    (¬ ∀ j, 0 < j → j ≤ n → j = i ∨ j ∈ (held t key).fragments) ∧ (collect buildMessage t f).2.assembled = none ∧
      ∀ j, j ∈ (held (collect buildMessage t f).1 key).fragments ↔ j = i ∨ j ∈ (held t key).fragments := by
  have hn : 0 < n := Nat.lt_of_lt_of_le hf.pos hf.le
  rcases collect_cases buildMessage t f with ⟨hmem, heq⟩ | ⟨hmem, c, hc, hcases⟩
  · rw [hf.number, hf.key] at hmem
    right
    refine ⟨?_, by rw [heq]; rfl, ?_⟩
    · intro hall
      obtain ⟨j, hpos, hle, hj⟩ := hmissing
      rcases hall j hpos hle with rfl | hj'
      · exact hj hmem
      · exact hj hj'
    · intro j
      rw [heq, hf.key, hf.number, held_insert, if_pos rfl, fragments_expect, or_iff_right_of_imp]
      rintro rfl
      exact hmem
  · rw [hf.number, hf.key] at hmem
    rw [hf.number, hf.key, hf.data] at hc
    have hpart : Gathered blob n c := hc ▸ h.add hf.last hf.pos hf.le hmem
    have hkeys : ∀ j, j ∈ c.fragments ↔ j = i ∨ j ∈ (held t key).fragments := by
      intro j
      rw [hc, Collection.add, fragments_expect, Table.mem_insert_row, eq_comm]
    have hcomplete := hpart.complete_iff ((hkeys i).mpr (.inl rfl))
    simp only [hkeys] at hcomplete
    rcases hcases with ⟨hne, heq⟩ | ⟨hall, hnone, -⟩ | ⟨m', hall, hsome, heq⟩
    · right
      refine ⟨fun hall => hne (hcomplete.mpr hall), by rw [heq]; rfl, ?_⟩
      rw [heq, hf.key, held_insert, if_pos rfl]
      exact hkeys
    · rw [hpart.blob_eq hn (by simpa only [hkeys] using hcomplete.mp hall), hbuild] at hnone
      cases hnone
    · left
      have hblob : c.blob = blob := hpart.blob_eq hn (by simpa only [hkeys] using hcomplete.mp hall)
      rw [hblob, hbuild] at hsome
      obtain rfl := Option.some.inj hsome
      rw [hblob, hf.key] at heq
      exact ⟨hcomplete.mp hall, heq⟩

def Foreign (key : Nat × Nat) (a : Arrival) : Prop := a.frame.fragmentNum = 0 ∨ a.frame.key ≠ key

theorem receive_cases (buildMessage : Str → Option α) (checksumSeed : Nat) (t : FragmentMap) (a : Arrival) :
    ((receive buildMessage checksumSeed t a).1 = t ∧ (receive buildMessage checksumSeed t a).2.assembled = none) ∨
      a.frame.fragmentNum ≠ 0 ∧ receive buildMessage checksumSeed t a = collect buildMessage t a.frame := by
  simp only [receive]
  split_ifs with hshort hack
  · exact .inl ⟨rfl, rfl⟩
  · exact .inl ⟨rfl, rfl⟩
  · exact .inl ⟨rfl, rfl⟩
  · exact .inl ⟨rfl, rfl⟩
  · exact .inl ⟨rfl, rfl⟩
  · exact .inr ⟨hack, rfl⟩

theorem receive_foreign (buildMessage : Str → Option α) (checksumSeed : Nat) (t : FragmentMap) (ha : Foreign key a) :
    held (receive buildMessage checksumSeed t a).1 key = held t key ∧
      ∀ b, (receive buildMessage checksumSeed t a).2.assembled ≠ some (key, b) := by
  rcases receive_cases buildMessage checksumSeed t a with ⟨hsame, hnone⟩ | ⟨hnum, heq⟩
  · rw [hsame, hnone]
    exact ⟨rfl, fun b hb => by cases hb⟩
  · have hkey : a.frame.key ≠ key := ha.resolve_left hnum
    rw [heq]
    exact ⟨held_collect_of_ne hkey, fun b hb => hkey (assembled_collect hb).symm⟩

theorem receive_gathered (h : Gathered blob n (held t key)) (ha : Foreign key a ∨ ∃ i, Carries key blob n i a.frame) :
    Gathered blob n (held (receive buildMessage checksumSeed t a).1 key) ∧
      ∀ b, (receive buildMessage checksumSeed t a).2.assembled = some (key, b) → b = blob := by
  rcases ha with ha | ⟨i, hi⟩
  · obtain ⟨hheld, hnone⟩ := receive_foreign buildMessage checksumSeed t ha
    exact ⟨hheld ▸ h, fun b hb => absurd hb (hnone b)⟩
  · rcases receive_cases buildMessage checksumSeed t a with ⟨hsame, hnone⟩ | ⟨-, heq⟩
    · rw [hsame, hnone]
      exact ⟨h, fun b hb => by cases hb⟩
    · rw [heq]
      exact collect_carries h hi

end

section

variable {α : Type} {buildMessage : Str → Option α} {checksumSeed : Nat} {key : Nat × Nat} {blob b : Str} {n : Nat}
  {t : FragmentMap} {a : Arrival} {pre rest arrivals : List Arrival} {msg : α}

theorem receiveAll_concat (pre : List Arrival) (a : Arrival) : receiveAll buildMessage checksumSeed t (pre ++ [a]) =
    (receive buildMessage checksumSeed (receiveAll buildMessage checksumSeed t pre) a).1 := by
  rw [receiveAll, List.foldl_append]
  rfl

theorem receiveAll_gathered (h : Gathered blob n (held t key))
    (hall : ∀ a ∈ arrivals, Foreign key a ∨ ∃ i, Carries key blob n i a.frame) :
    Gathered blob n (held (receiveAll buildMessage checksumSeed t arrivals) key) := by
  induction arrivals generalizing t with
  | nil => exact h
  | cons a arrivals ih =>
    rw [List.forall_mem_cons] at hall
    exact ih (receive_gathered h hall.1).1 hall.2

theorem length_rest_of_getMessage {t' : FragmentMap}
    (h : getMessage buildMessage checksumSeed t arrivals = some (key, b, msg, t', rest)) :
    rest.length < arrivals.length := by
  induction arrivals generalizing t with
  | nil => cases h
  | cons a arrivals ih =>
    rw [getMessage] at h
    split at h
    · cases h
      exact Nat.lt_succ_self _
    · exact (ih h).trans (Nat.lt_succ_self _)

theorem getMessage_cons_iff :
    (∃ t', getMessage buildMessage checksumSeed t (a :: rest) = some (key, b, msg, t', rest)) ↔
      (receive buildMessage checksumSeed t a).2 = .message key b msg := by
  rw [getMessage]
  constructor
  · rintro ⟨t', h⟩
    split at h
    · next heq =>
      cases h
      rw [heq]
    · exact absurd (length_rest_of_getMessage h) (lt_irrefl _)
  · intro h
    split
    · next heq =>
      rw [heq] at h
      cases h
      exact ⟨_, rfl⟩
    · next hne heq =>
      rw [heq] at h
      exact absurd h (hne _ _ _)

end

variable {i : Nat}

section

variable {α : Type} {buildMessage : Str → Option α} {s : Settings} {shuffle : Shuffle} {m : Outgoing} {blob : Str}
  {n rounds : Nat} {dest : Bool} {frames : List Frame} {f : Frame} {t : FragmentMap} {a : Arrival}
  {pre rest : List Arrival}

theorem carries_fragment (hn : n < 2 ^ 15) (hpos : 0 < i) (hi : i ≤ n) :
    Carries m.key blob n i (fragment s m blob n i) where
  key := rfl
  pos := hpos
  le := hi
  number := number_fragment hn hi
  last := lastfragment_fragment hn hi
  data := data_fragment hpos

theorem fragmentNum_ne_zero (hn : n < 2 ^ 15) (hpos : 0 < i) (hi : i ≤ n) :
    (fragment s m blob n i).fragmentNum ≠ 0 := by
  intro hzero
  have hnumber : (fragment s m blob n i).number = i := number_fragment hn hi
  rw [Frame.number, hzero, Nat.zero_and] at hnumber
  omega

theorem receive_sent (h : Sent s m blob n frames) (hn : n < 2 ^ 15) (hf : a.frame ∈ frames)
    (hnew : a.hasMessage = false) (t : FragmentMap) :
    receive buildMessage s.checksumSeed t a = collect buildMessage t a.frame := by
  obtain ⟨i, hpos, hi, heq⟩ := h.exists_number hf
  have hlength : a.frame.data.length = a.frame.fragmentLen := heq ▸ length_data_fragment hpos hi
  have hdata : a.frame.data.length ≠ 0 := by
    rw [hlength, heq, fragmentLen_fragment hpos]
    exact (Split.size_pos h.pos h.le_length).ne'
  have hnum : a.frame.fragmentNum ≠ 0 := heq ▸ fragmentNum_ne_zero hn hpos hi
  have hsum : a.frame.dataChecksum = checksum s.checksumSeed (a.frame.data.take (a.frame.fragmentLen % 65536)) := by
    rw [heq]
    rfl
  simp only [receive]
  rw [if_neg hdata, if_neg hnum, if_neg (not_not.mpr hlength), if_neg (not_not.mpr hsum), hnew]
  rfl

def Complete (frames : List Frame) (arrivals : List Arrival) : Prop := ∀ f ∈ frames, ∃ a ∈ arrivals, a.frame = f

/-- The packets are fragments of one transmission of a new message, acknowledgements and packets for other messages. -/
def Interleaved (m : Outgoing) (frames : List Frame) (arrivals : List Arrival) : Prop :=
  ∀ a ∈ arrivals, (a.frame ∈ frames ∧ a.hasMessage = false) ∨ Foreign m.key a

theorem complete_sent_iff (h : Sent s m blob n frames) {arrivals : List Arrival} :
    Complete frames arrivals ↔ ∀ i, 0 < i → i ≤ n → ∃ a ∈ arrivals, a.frame = fragment s m blob n i := by
  constructor
  · intro hall i hpos hi
    exact hall _ (h.fragment_mem hpos hi)
  · intro hall f hf
    obtain ⟨i, hpos, hi, rfl⟩ := h.exists_number hf
    exact hall i hpos hi

theorem not_foreign_of_sent (h : Sent s m blob n frames) (hn : n < 2 ^ 15) (hf : a.frame ∈ frames) :
    ¬ Foreign m.key a := by
  obtain ⟨i, hpos, hi, heq⟩ := h.exists_number hf
  rintro (hzero | hkey)
  · exact fragmentNum_ne_zero hn hpos hi (heq ▸ hzero)
  · exact hkey (heq ▸ rfl)

structure Tracks (s : Settings) (m : Outgoing) (blob : Str) (n : Nat) (t : FragmentMap) (arrivals : List Arrival) :
    Prop where
  part : Gathered blob n (held t m.key)
  keys : ∀ j, 0 < j → j ≤ n → (j ∈ (held t m.key).fragments ↔ ∃ a ∈ arrivals, a.frame = fragment s m blob n j)

theorem tracks_nil (hstart : t[m.key]? = none) : Tracks s m blob n t [] := by
  have hempty : held t m.key = .empty := by
    rw [held, hstart]
    rfl
  constructor
  · exact hempty ▸ gathered_empty blob n
  · intro j _ _
    simp [hempty, Collection.empty]

theorem exists_concat_iff {P : Arrival → Prop} : (∃ x ∈ pre ++ [a], P x) ↔ (∃ x ∈ pre, P x) ∨ P a := by
  simp [or_and_right, exists_or]

theorem tracks_foreign (h : Sent s m blob n frames) (hn : n < 2 ^ 15) (ht : Tracks s m blob n t pre)
    (ha : Foreign m.key a) : Tracks s m blob n (receive buildMessage s.checksumSeed t a).1 (pre ++ [a]) ∧
      (Complete frames (pre ++ [a]) ↔ Complete frames pre) := by
  have hother : ∀ j, 0 < j → j ≤ n → a.frame ≠ fragment s m blob n j := by
    intro j hj hjn heq
    exact not_foreign_of_sent h hn (heq ▸ h.fragment_mem hj hjn) ha
  obtain ⟨hheld, -⟩ := receive_foreign buildMessage s.checksumSeed t ha
  constructor
  · constructor
    · exact hheld ▸ ht.part
    · intro j hj hjn
      rw [hheld, ht.keys j hj hjn, exists_concat_iff, or_iff_left (hother j hj hjn)]
  · simp only [complete_sent_iff h, exists_concat_iff]
    constructor
    · intro hall j hj hjn
      exact (hall j hj hjn).resolve_right (hother j hj hjn)
    · intro hall j hj hjn
      exact .inl (hall j hj hjn)

theorem tracks_sent (h : Sent s m blob n frames) (hn : n < 2 ^ 15) {msg : α} (hbuild : buildMessage blob = some msg)
    (ht : Tracks s m blob n t pre) (hpre : ¬ Complete frames pre) (hmem : a.frame ∈ frames)
    (hnew : a.hasMessage = false) :
    (Complete frames (pre ++ [a]) ∧ (receive buildMessage s.checksumSeed t a).2 = .message m.key blob msg) ∨
      ¬ Complete frames (pre ++ [a]) ∧ (receive buildMessage s.checksumSeed t a).2.assembled = none ∧
        Tracks s m blob n (receive buildMessage s.checksumSeed t a).1 (pre ++ [a]) := by
  obtain ⟨i, hpos, hi, heq⟩ := h.exists_number hmem
  have hcarries : Carries m.key blob n i a.frame := heq ▸ carries_fragment hn hpos hi
  have hone : ∀ j, 0 < j → j ≤ n → (a.frame = fragment s m blob n j ↔ j = i) := by
    intro j hj hjn
    constructor
    · intro hjf
      have hnumber := congrArg Frame.number hjf
      rw [number_fragment hn hjn, hcarries.number] at hnumber
      exact hnumber.symm
    · rintro rfl
      exact heq
  have hkeys : ∀ j, 0 < j → j ≤ n →
      (j = i ∨ j ∈ (held t m.key).fragments ↔ ∃ x ∈ pre ++ [a], x.frame = fragment s m blob n j) := by
    intro j hj hjn
    rw [exists_concat_iff, hone j hj hjn, ht.keys j hj hjn, or_comm]
  have hmissing : ∃ j, 0 < j ∧ j ≤ n ∧ j ∉ (held t m.key).fragments := by
    by_contra hnone
    push Not at hnone
    apply hpre
    rw [complete_sent_iff h]
    intro j hj hjn
    exact (ht.keys j hj hjn).mp (hnone j hj hjn)
  rw [receive_sent h hn hmem hnew, complete_sent_iff h]
  rcases collect_missing hbuild ht.part hcarries hmissing with ⟨hall, hcollect⟩ | ⟨hnot, hnone, hnext⟩
  · left
    constructor
    · intro j hj hjn
      exact (hkeys j hj hjn).mp (hall j hj hjn)
    · rw [hcollect]
  · right
    refine ⟨?_, hnone, (collect_carries ht.part hcarries).1, ?_⟩
    · intro hall
      apply hnot
      intro j hj hjn
      exact (hkeys j hj hjn).mpr (hall j hj hjn)
    · intro j hj hjn
      rw [hnext, hkeys j hj hjn]

theorem tracks_receiveAll (h : Sent s m blob n frames) (hn : n < 2 ^ 15) {msg : α}
    (hbuild : buildMessage blob = some msg)
    (hstart : t[m.key]? = none) (hall : Interleaved m frames pre) (hpre : ¬ Complete frames pre) :
    Tracks s m blob n (receiveAll buildMessage s.checksumSeed t pre) pre := by
  induction pre using List.reverseRecOn with
  | nil => exact tracks_nil hstart
  | append_singleton pre a ih =>
    have hbefore : ¬ Complete frames pre := by
      intro hc
      apply hpre
      intro f hf
      exact exists_concat_iff.mpr (.inl (hc f hf))
    have ht := ih (fun x hx => hall x (List.mem_append_left _ hx)) hbefore
    rw [receiveAll_concat]
    rcases hall a (List.mem_append_right _ (List.mem_singleton_self a)) with ⟨hmem, hnew⟩ | hforeign
    · rcases tracks_sent h hn hbuild ht hbefore hmem hnew with ⟨hc, -⟩ | ⟨-, -, hnext⟩
      · exact absurd hc hpre
      · exact hnext
    · exact (tracks_foreign h hn ht hforeign).1

/-- A call of `getMessage` returns the message with the packet that completes its fragments, and with none before it. -/
theorem getMessage_returns_iff (hsend : sendMessage s shuffle m rounds dest = .ok (true, frames))
    (hcount : frames.length < 32768) (hblob : m.blob = some blob) {msg : α} (hbuild : buildMessage blob = some msg)
    (hstart : t[m.key]? = none) (hall : Interleaved m frames (pre ++ [a])) (hpre : ¬ Complete frames pre) (b : Str)
    (msg' : α) :
    (∃ t', getMessage buildMessage s.checksumSeed (receiveAll buildMessage s.checksumSeed t pre) (a :: rest) =
        some (m.key, b, msg', t', rest)) ↔
      Complete frames (pre ++ [a]) ∧ b = blob ∧ msg' = msg := by
  obtain ⟨sent, h⟩ := sent_of_sendMessage hsend
  obtain rfl : sent = blob := Option.some.inj (h.getBlob.symm.trans hblob)
  have hn : numfrags s sent.length < 2 ^ 15 := h.length_frames ▸ hcount
  have ht := tracks_receiveAll h hn hbuild hstart (fun x hx => hall x (List.mem_append_left _ hx)) hpre
  rw [getMessage_cons_iff]
  rcases hall a (List.mem_append_right _ (List.mem_singleton_self a)) with ⟨hmem, hnew⟩ | hforeign
  · rcases tracks_sent h hn hbuild ht hpre hmem hnew with ⟨hc, heq⟩ | ⟨hc, hnone, -⟩
    · rw [heq, Outcome.message.injEq]
      simp [hc, eq_comm]
    · apply iff_of_false
      · intro heq
        rw [heq] at hnone
        cases hnone
      · exact fun hand => hc hand.1
  · apply iff_of_false
    · intro heq
      exact (receive_foreign buildMessage s.checksumSeed _ hforeign).2 b (by rw [heq]; rfl)
    · rintro ⟨hc, -⟩
      obtain ⟨-, hiff⟩ : Tracks s m sent _ (receive buildMessage s.checksumSeed _ a).1 (pre ++ [a]) ∧ _ :=
        tracks_foreign h hn ht hforeign
      exact hpre (hiff.mp hc)

/-- The frame was sent for the message by a server with the given settings. -/
def SentBy (s : Settings) (m : Outgoing) (f : Frame) : Prop :=
  ∃ shuffle rounds dest frames, sendMessage s shuffle m rounds dest = .ok (true, frames) ∧ f ∈ frames

theorem carries_of_sentBy (hblob : m.blob = some blob) (hlen : blob.length ≤ 32767 * s.maxSize) {f : Frame}
    (h : SentBy s m f) : ∃ i, Carries m.key blob ((blob.length + s.maxSize - 1) / s.maxSize) i f := by
  obtain ⟨shuffle, rounds, dest, frames, hsend, hf⟩ := h
  obtain ⟨sent, hsent⟩ := sent_of_sendMessage hsend
  obtain rfl : sent = blob := Option.some.inj (hsent.getBlob.symm.trans hblob)
  have hn : numfrags s sent.length ≤ 32767 := numfrags_le_of_le s hlen
  obtain ⟨i, hpos, hi, rfl⟩ := hsent.exists_number hf
  rw [← numfrags_eq s hlen]
  exact ⟨i, carries_fragment (by omega) hpos hi⟩

/-- Fragments of several servers make up the blob when all of them split it into the same number of fragments. -/
theorem assembled_eq_blob (hblob : m.blob = some blob) (checksumSeed : Nat) {n : Nat} (hstart : t[m.key]? = none)
    (hall : ∀ x ∈ pre ++ [a], Foreign m.key x ∨ ∃ s, SentBy s m x.frame ∧ blob.length ≤ 32767 * s.maxSize ∧
      (blob.length + s.maxSize - 1) / s.maxSize = n) {b : Str}
    (hb : (receive buildMessage checksumSeed (receiveAll buildMessage checksumSeed t pre) a).2.assembled =
      some (m.key, b)) : b = blob := by
  have hcarries : ∀ x ∈ pre ++ [a], Foreign m.key x ∨ ∃ i, Carries m.key blob n i x.frame := by
    intro x hx
    rcases hall x hx with hforeign | ⟨s, hsent, hlen, rfl⟩
    · exact .inl hforeign
    · exact .inr (carries_of_sentBy hblob hlen hsent)
  have hempty : Gathered blob n (held t m.key) := by
    rw [held, hstart]
    exact gathered_empty blob n
  have hpre : Gathered blob n (held (receiveAll buildMessage checksumSeed t pre) m.key) :=
    receiveAll_gathered hempty fun x hx => hcarries x (List.mem_append_left _ hx)
  exact (receive_gathered hpre (hcarries a (List.mem_append_right _ (List.mem_singleton_self a)))).2 b hb

theorem sentBy_fragment (hblob : m.blob = some blob) (hlen : blob.length ≤ 32767 * s.maxSize) (hpos : 0 < i)
    (hi : i ≤ numfrags s blob.length) : SentBy s m (fragment s m blob (numfrags s blob.length) i) := by
  have hblobPos : 0 < blob.length := by
    apply Nat.pos_of_ne_zero
    intro hzero
    rw [hzero] at hi
    have hmax : s.maxSize - 1 < s.maxSize := Nat.sub_lt s.pos Nat.one_pos
    rw [numfrags_eq s (Nat.zero_le _), Nat.zero_add, Nat.div_eq_of_lt hmax] at hi
    omega
  refine ⟨unshuffled, 65536, true, _, sendMessage_of_length_le hblob hblobPos hlen, List.mem_map_of_mem ?_⟩
  exact List.mem_range'_1.mpr ⟨hpos, by omega⟩

end

def piece (maxfragmentsize : Int) (n i : Nat) : Frame :=
  fragment (startup maxfragmentsize 0) (outgoing (zeros 201)) (zeros 201) n i

def arrival (f : Frame) : Arrival := ⟨f, false⟩

theorem numfrags_two : numfrags (startup 200 0) (zeros 201).length = 2 := by
  rw [length_zeros]
  decide

theorem numfrags_one : numfrags (startup 201 0) (zeros 201).length = 1 := by
  rw [length_zeros]
  decide

theorem length_zeros_le {s : Settings} : (zeros 201).length ≤ 32767 * s.maxSize := by
  have hmin : 200 ≤ s.maxSize := s.min_le
  rw [length_zeros]
  omega

theorem getMessage_second_first : ∃ t, getMessage (fun b => some b.length) 0
    (receiveAll (fun b => some b.length) 0 ∅ [arrival (piece 200 2 2)]) [arrival (piece 200 2 1)] =
      some ((1, 4), zeros 201, 201, t, []) := by
  have hpos : 0 < (zeros 201).length := by
    rw [length_zeros]
    decide
  have hsend : sendMessage (startup 200 0) unshuffled (outgoing (zeros 201)) 65536 true =
      .ok (true, [piece 200 2 1, piece 200 2 2]) := by
    rw [sendMessage_of_length_le rfl hpos length_zeros_le, numfrags_two]
    rfl
  have hall : Interleaved (outgoing (zeros 201)) [piece 200 2 1, piece 200 2 2]
      ([arrival (piece 200 2 2)] ++ [arrival (piece 200 2 1)]) := by
    intro a ha
    left
    simp only [List.singleton_append, List.mem_cons, List.not_mem_nil, or_false] at ha
    rcases ha with rfl | rfl
    · exact ⟨by simp [arrival], rfl⟩
    · exact ⟨by simp [arrival], rfl⟩
  have hpre : ¬ Complete [piece 200 2 1, piece 200 2 2] [arrival (piece 200 2 2)] := by
    intro h
    obtain ⟨a, ha, heq⟩ := h (piece 200 2 1) (by simp)
    obtain rfl := List.mem_singleton.mp ha
    have hnumber := congrArg Frame.number heq
    revert hnumber
    decide +kernel
  apply (getMessage_returns_iff hsend (by decide) rfl (by rw [length_zeros]) Std.ExtTreeMap.getElem?_empty hall hpre _
    _).mpr
  refine ⟨?_, rfl, rfl⟩
  intro f hf
  simp only [List.mem_cons, List.not_mem_nil, or_false] at hf
  rcases hf with rfl | rfl
  · exact ⟨_, List.mem_append_right _ (List.mem_singleton_self _), rfl⟩
  · exact ⟨_, List.mem_append_left _ (List.mem_singleton_self _), rfl⟩

theorem sentBy_piece (hpos : 0 < i) (hi : i ≤ 2) :
    SentBy (startup 200 0) (outgoing (zeros 201)) (piece 200 2 i) := by
  have h := sentBy_fragment (m := outgoing (zeros 201)) rfl length_zeros_le hpos (hi.trans numfrags_two.ge)
  rwa [numfrags_two] at h

theorem assembled_second_first : (receive (fun b => some b.length) 0
    (receiveAll (fun b => some b.length) 0 ∅ [arrival (piece 200 2 2)]) (arrival (piece 200 2 1))).2.assembled =
      some ((1, 4), (piece 200 2 1).data ++ (piece 200 2 2).data) ∧
    (piece 200 2 1).data ++ (piece 200 2 2).data = zeros 201 := by
  have hassembled : (receive (fun b => some b.length) 0
      (receiveAll (fun b => some b.length) 0 ∅ [arrival (piece 200 2 2)]) (arrival (piece 200 2 1))).2.assembled =
        some ((1, 4), (piece 200 2 1).data ++ (piece 200 2 2).data) := by
    decide +kernel
  have hcount : ((zeros 201).length + (startup 200 0).maxSize - 1) / (startup 200 0).maxSize = 2 := by
    rw [← numfrags_eq _ length_zeros_le]
    exact numfrags_two
  refine ⟨hassembled,
    assembled_eq_blob (m := outgoing (zeros 201)) (n := 2) rfl 0 Std.ExtTreeMap.getElem?_empty ?_ hassembled⟩
  intro x hx
  right
  simp only [List.singleton_append, List.mem_cons, List.not_mem_nil, or_false] at hx
  rcases hx with rfl | rfl
  · exact ⟨_, sentBy_piece (by decide) (by decide), length_zeros_le, hcount⟩
  · exact ⟨_, sentBy_piece (by decide) (by decide), length_zeros_le, hcount⟩

/-- The second of two fragments, and then the only one of a server with a larger size. -/
theorem assembled_mixed : (∀ f ∈ [piece 200 2 2, piece 201 1 1], ∃ s, SentBy s (outgoing (zeros 201)) f) ∧
    (receive (fun b => some b.length) 0 (receiveAll (fun b => some b.length) 0 ∅ [arrival (piece 200 2 2)])
      (arrival (piece 201 1 1))).2.assembled = some ((1, 4), zeros 301) ∧ zeros 301 ≠ zeros 201 := by
  have hcoarse : SentBy (startup 201 0) (outgoing (zeros 201)) (piece 201 1 1) := by
    have h := sentBy_fragment (m := outgoing (zeros 201)) rfl length_zeros_le (i := 1) (by decide) numfrags_one.ge
    rwa [numfrags_one] at h
  refine ⟨?_, by decide +kernel, ?_⟩
  · intro f hf
    simp only [List.mem_cons, List.not_mem_nil, or_false] at hf
    rcases hf with rfl | rfl
    · exact ⟨_, sentBy_piece (by decide) (by decide)⟩
    · exact ⟨_, hcoarse⟩
  · intro h
    have hlength := congrArg List.length h
    rw [length_zeros, length_zeros] at hlength
    exact absurd hlength (by decide)

end Abacus.Messenger.Reassembly
