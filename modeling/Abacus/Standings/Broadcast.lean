import Abacus.Library.Keyed
import Abacus.Standings.Grid
import Abacus.Standings.Incremental

/-! # What an update sends

A client that has the old rows and puts the new ones in their place has the rows that a snapshot would show.
-/

namespace Abacus.Standings.Broadcast

open Library Library.Bytes Misc Database.Schema Database.Problems Database.People
open Client.Block Client.Permissions Client.Action Client.Contest
open Peer.Process Update Rows Score Grid Incremental

section

variable {env : Env} {c : Contest} {final : Bool} {uid userId : Nat} {d : StandingsData}

structure Sound (c : Contest) (userId : Nat) (d : StandingsData) : Prop where
  user : userId ∈ c.user
  flag : d.inStandings = getPermissions (usertype c userId) .inStandings
  tries : ∀ p ∈ d.tries, p ∈ getProblems c

def AllSound (c : Contest) (standings : Standings) : Prop :=
  ∀ (userId : Nat) (d : StandingsData), standings[userId]? = some d → Sound c userId d

theorem exists_entry_of_rowOf {es : List Entry} (h : rowOf final c userId es = some d) :
    es ≠ [] ∧ ∀ p ∈ d.tries, ∃ e ∈ es, e.probId = p := by
  have hopen : ∀ es, rowOf true c userId es = some d → es ≠ [] ∧ ∀ p ∈ d.tries, ∃ e ∈ es, e.probId = p := by
    intro es h
    constructor
    · rintro rfl
      rw [rowOf_final_eq_none.mpr rfl] at h
      cases h
    · intro p hp
      obtain ⟨tries, htries⟩ := Table.mem_iff_exists_row.mp hp
      have hbucket : bucket es p ≠ [] := by
        intro hnil
        have hnone := tries_teamData c userId es p
        unfold rowOf at h
        dsimp only at h
        split at h
        · cases h
        · cases h
          rw [if_pos hnil, htries] at hnone
          cases hnone
      obtain ⟨sub, hsub⟩ := List.exists_mem_of_ne_nil _ hbucket
      obtain ⟨e, he, -⟩ := List.mem_map.mp hsub
      obtain ⟨hmem, hprob⟩ := List.mem_filter.mp he
      exact ⟨e, hmem, of_decide_eq_true hprob⟩
  cases final with
  | true => exact hopen es h
  | false =>
    rw [rowOf_contestant] at h
    obtain ⟨hne, hall⟩ := hopen _ h
    constructor
    · rintro rfl
      exact hne rfl
    · intro p hp
      obtain ⟨e, he, hprob⟩ := hall p hp
      exact ⟨e, List.mem_of_mem_filter he, hprob⟩

/-- The problems of the counted submissions are all in the table. -/
def Tabled (env : Env) (c : Contest) : Prop := ∀ e ∈ entries env c, e.probId ∈ getProblems c

theorem sound_of_rowOf (hprob : Tabled env c) (h : rowOf final c userId (entriesOf env c userId) = some d) :
    Sound c userId d := by
  obtain ⟨hne, htries⟩ := exists_entry_of_rowOf h
  refine ⟨?_, inStandings_of_rowOf h, fun p hp => ?_⟩
  · obtain ⟨e, he⟩ := List.exists_mem_of_ne_nil _ hne
    obtain ⟨hmem, huser⟩ := List.mem_filter.mp he
    obtain ⟨s, -, hlisted, hentry⟩ := Scoring.mem_entries hmem
    obtain ⟨st, -, hst⟩ := Option.map_eq_some_iff.mp hentry
    rw [← of_decide_eq_true huser, ← congrArg Entry.userId hst]
    exact Std.ExtTreeMap.contains_iff_mem.mp (Bool.and_eq_true_iff.mp hlisted).1
  · obtain ⟨e, he, rfl⟩ := htries p hp
    exact hprob e (List.mem_of_mem_filter he)

structure Refreshed (env : Env) (c : Contest) (uid : Nat) (final : Bool) (old new : Standings) : Prop where
  other : ∀ userId, covers uid userId = false → new[userId]? = old[userId]?
  kept : ∀ (userId : Nat) (d : StandingsData), old[userId]? = some d → ∃ d', new[userId]? = some d'
  made : ∀ (userId : Nat) (d : StandingsData), new[userId]? = some d →
    old[userId]? = some d ∨ rowOf final c userId (entriesOf env c userId) = some d

theorem overlay_cases (old new : Option StandingsData) :
    overlay old new = old ∨ overlay old new = new ∧ new ≠ none := by
  cases new with
  | none => exact .inl rfl
  | some d =>
    rw [overlay, merged]
    split
    · exact .inr ⟨rfl, (by simp)⟩
    · exact .inl rfl

theorem refreshed_updateStandings {cache cache' : Cache} {ns : List Notice} (hc : Readable c)
    (h : updateStandings env c uid cache = some (cache', ns)) (final : Bool) :
    Refreshed env c uid final (cache.board final) (cache'.board final) := by
  by_cases hduration : env.timer.duration = 0
  · rw [updateStandings, if_pos hduration] at h
    cases h
    exact ⟨fun _ _ => rfl, fun _ d hd => ⟨d, hd⟩, fun _ _ hd => .inl hd⟩
  · obtain ⟨after, sent, hafter, hrows⟩ := getElem?_updateStandings hc hduration uid cache
    cases hafter.symm.trans h
    constructor
    · intro userId hcovers
      rw [hrows, hcovers]
      rfl
    · intro userId d hd
      rw [hrows, hd]
      split
      · obtain hold | ⟨hnew, hne⟩ := overlay_cases (some d) (rowOf final c userId (entriesOf env c userId))
        · exact ⟨d, hold⟩
        · rw [hnew]
          exact Option.ne_none_iff_exists'.mp hne
      · exact ⟨d, rfl⟩
    · intro userId d hd
      rw [hrows] at hd
      split at hd
      · obtain hold | ⟨hnew, -⟩ :=
          overlay_cases (cache.board final)[userId]? (rowOf final c userId (entriesOf env c userId))
        · exact .inl (hold ▸ hd)
        · exact .inr (hnew ▸ hd)
      · exact .inl hd

theorem AllSound.refreshed {old new : Standings} (h : AllSound c old) (hprob : Tabled env c)
    (hnew : Refreshed env c uid final old new) : AllSound c new := by
  intro userId d hd
  obtain hold | hrow := hnew.made userId d hd
  · exact h userId d hold
  · exact sound_of_rowOf hprob hrow

end

section

variable {c : Contest} {standings : Standings} {uid userId : Nat} {seeAll : Bool} {d : StandingsData} {row : Row}

def rowId (row : Row) : Option (Option Str) := row[0]?

def rowOfUser (c : Contest) (r : Nat × StandingsData) : Row := (rowCells c (getProblems c) r).map some

def view (c : Contest) (standings : Standings) (uid : Nat) (seeAll : Bool) : List Row :=
  (visible standings uid seeAll).map (rowOfUser c)

theorem mem_view :
    row ∈ view c standings uid seeAll ↔ ∃ (userId : Nat) (d : StandingsData), standings[userId]? = some d ∧
    covers uid userId = true ∧ (seeAll || d.inStandings) = true ∧ rowOfUser c (userId, d) = row := by
  rw [view, List.mem_map]
  constructor
  · rintro ⟨⟨userId, d⟩, hr, hrow⟩
    obtain ⟨hr, hseen⟩ := List.mem_filter.mp hr
    obtain ⟨hr, hcovers⟩ := List.mem_filter.mp hr
    exact ⟨userId, d, Std.ExtTreeMap.mem_toList_iff_getElem?_eq_some.mp hr, hcovers, hseen, hrow⟩
  · rintro ⟨userId, d, hd, hcovers, hseen, hrow⟩
    refine ⟨(userId, d), List.mem_filter.mpr ⟨List.mem_filter.mpr ⟨?_, hcovers⟩, hseen⟩, hrow⟩
    exact Std.ExtTreeMap.mem_toList_iff_getElem?_eq_some.mpr hd

theorem rowId_rowOfUser (h : Sound c userId d) : rowId (rowOfUser c (userId, d)) = some (some (decimal userId)) := by
  rw [rowId, rowOfUser, List.getElem?_map, id_rowCells c (getProblems c) h.tries]
  rfl

theorem rowId_inj {userId' : Nat} {d' : StandingsData} (h : Sound c userId d) (h' : Sound c userId' d')
    (heq : rowId (rowOfUser c (userId, d)) = rowId (rowOfUser c (userId', d'))) : userId = userId' := by
  rw [rowId_rowOfUser h, rowId_rowOfUser h'] at heq
  exact decimal_inj (Option.some.inj (Option.some.inj heq))

theorem distinct_view (h : AllSound c standings) (uid : Nat) (seeAll : Bool) :
    Keyed.Distinct rowId (view c standings uid seeAll) := by
  have hkeys : ((visible standings uid seeAll).map Prod.fst).Nodup := by
    have hsub : (visible standings uid seeAll).Sublist standings.toList := List.filter_sublist.trans List.filter_sublist
    refine List.Nodup.sublist (hsub.map Prod.fst) ?_
    rw [Std.ExtTreeMap.map_fst_toList_eq_keys]
    exact Std.ExtTreeMap.nodup_keys
  have hids : (view c standings uid seeAll).map rowId =
      ((visible standings uid seeAll).map Prod.fst).map fun userId => some (some (decimal userId)) := by
    rw [view, List.map_map, List.map_map]
    apply List.map_congr_left
    intro r hr
    have hrow : standings[r.1]? = some r.2 :=
      Std.ExtTreeMap.mem_toList_iff_getElem?_eq_some.mp (List.mem_of_mem_filter (List.mem_of_mem_filter hr))
    exact rowId_rowOfUser (h r.1 r.2 hrow)
  rw [Keyed.Distinct, hids]
  exact hkeys.map fun a b hab => decimal_inj (Option.some.inj (Option.some.inj hab))

/-- With the rows of an update, a client that saw the old standings sees the new ones. -/
theorem view_refreshed {env : Env} {final : Bool} {old new : Standings} {data : List Row} (hold : AllSound c old)
    (hnew : AllSound c new) (href : Refreshed env c uid final old new) (hdistinct : Keyed.Distinct rowId data)
    (hdata : ∀ row, row ∈ data ↔ row ∈ view c old 0 seeAll) :
    Keyed.Distinct rowId ((view c new uid seeAll).foldl (Keyed.put rowId) data) ∧
      ∀ row, row ∈ (view c new uid seeAll).foldl (Keyed.put rowId) data ↔ row ∈ view c new 0 seeAll := by
  obtain ⟨hdist, hmem⟩ := Keyed.foldl_put hdistinct (distinct_view hnew uid seeAll)
  refine ⟨hdist, fun row => ?_⟩
  rw [hmem, hdata]
  constructor
  · rintro (hrow | ⟨hrow, hother⟩)
    · obtain ⟨userId, d, hd, -, hseen, hcells⟩ := mem_view.mp hrow
      exact mem_view.mpr ⟨userId, d, hd, rfl, hseen, hcells⟩
    · obtain ⟨userId, d, hd, -, hseen, rfl⟩ := mem_view.mp hrow
      obtain ⟨d', hd'⟩ := href.kept userId d hd
      have hflag : d'.inStandings = d.inStandings := by rw [(hnew userId d' hd').flag, (hold userId d hd).flag]
      cases hcovers : covers uid userId with
      | true =>
        have hrow' : rowOfUser c (userId, d') ∈ view c new uid seeAll :=
          mem_view.mpr ⟨userId, d', hd', hcovers, hflag.symm ▸ hseen, rfl⟩
        refine absurd ?_ (hother _ hrow')
        rw [rowId_rowOfUser (hold userId d hd), rowId_rowOfUser (hnew userId d' hd')]
      | false => exact mem_view.mpr ⟨userId, d, (href.other userId hcovers).trans hd, rfl, hseen, rfl⟩
  · intro hrow
    obtain ⟨userId, d, hd, -, hseen, rfl⟩ := mem_view.mp hrow
    cases hcovers : covers uid userId with
    | true => exact .inl (mem_view.mpr ⟨userId, d, hd, hcovers, hseen, rfl⟩)
    | false =>
      refine .inr ⟨mem_view.mpr ⟨userId, d, (href.other userId hcovers).symm.trans hd, rfl, hseen, rfl⟩, ?_⟩
      intro other hmemOther heq
      obtain ⟨userId', d', hd', hcovers', -, rfl⟩ := mem_view.mp hmemOther
      rw [rowId_inj (hnew userId d hd) (hnew userId' d' hd') heq, hcovers'] at hcovers
      cases hcovers

end

section

variable {env : Env} {c : Contest} {uid : Nat} {cache cache' : Cache} {ns : List Notice} (cc : Connection)

def received (ns : List Notice) : List MessageBlock :=
  (ns.filter fun n => cc.userId = 0 || n.test.matches cc.permissions).map Notice.mb

def seesFinal : Bool := cc.permissions .seeFinalStandings

def seesAll : Bool := cc.permissions .seeAllStandings

def updateBlock (c : Contest) (standings : Standings) (uid : Nat) : MessageBlock :=
  getStandingsInternal c standings uid (seesAll cc) (MessageBlock.ofAction (str "updatestandings"))

theorem rawHeader_updateBlock (c : Contest) (standings : Standings) (uid : Nat) :
    rawHeader (updateBlock cc c standings uid) = (columnsOf c).titles.map some := by
  rw [updateBlock, getStandingsInternal_eq]
  exact rawHeader_block

theorem newData_updateBlock (c : Contest) (standings : Standings) (uid : Nat) :
    newData (updateBlock cc c standings uid) = view c standings uid (seesAll cc) := by
  rw [updateBlock, getStandingsInternal_eq]
  exact newData_block (length_titles c)

variable {cc}

theorem matches_audience (hsee : cc.permissions .seeStandings = true) (final seeAll : Bool) :
    (audience final seeAll).matches cc.permissions = (final == seesFinal cc && seeAll == seesAll cc) := by
  rw [seesFinal, seesAll]
  cases final <;> cases seeAll <;> simp [audience, PermissionTest.matches, hsee]

theorem received_notices (hcc : cc.userId ≠ 0) (hsee : cc.permissions .seeStandings = true) (c : Contest) (uid : Nat)
    (final : Bool) (b : Board) : received cc (notices c uid final b) =
      if final = seesFinal cc ∧ b.haveUpdate = true then [updateBlock cc c b.standings uid] else [] := by
  have hrows : ∀ seeAll mb, (getStandingsInternal c b.standings uid seeAll mb).get (str "nrows") ≠ str "0" := by
    intro seeAll mb hget
    have hnumber : number (getStandingsInternal c b.standings uid seeAll mb) "nrows" =
        (visible b.standings uid seeAll).length + 1 := by
      rw [getStandingsInternal_eq]
      exact nrows_block
    have hzero : (readDigits (str "0")).getD 0 = 0 := by decide
    rw [number, hget, hzero] at hnumber
    cases hnumber
  rw [notices]
  cases b.haveUpdate with
  | false =>
    rw [if_neg Bool.false_ne_true, if_neg fun h => Bool.false_ne_true h.2, received, List.filter_nil, List.map_nil]
  | true =>
    simp only [if_true, List.filterMap_cons, List.filterMap_nil, hrows, ne_eq, not_false_eq_true, received, hcc,
      decide_false, Bool.false_or, List.filter_cons, List.filter_nil, matches_audience hsee, and_true, updateBlock]
    by_cases hfinal : final = seesFinal cc
    · simp only [hfinal, if_true, beq_self_eq_true, Bool.true_and]
      cases seesAll cc <;> rfl
    · simp [hfinal]

theorem foldl_updateBoards_haveUpdate (c : Contest) (final : Bool) (teams : List (Nat × Table Nat (List SubData)))
    (boards : Board × Board) (h : (side final (teams.foldl (updateBoards c) boards)).haveUpdate = false) :
    side final (teams.foldl (updateBoards c) boards) = side final boards := by
  induction teams generalizing boards with
  | nil => rfl
  | cons team teams ih =>
    rw [List.foldl_cons] at h ⊢
    have hrest := ih _ h
    rw [hrest, side_updateBoards, Board.update] at h
    rw [hrest, side_updateBoards, Board.update]
    split
    · next hnews =>
      rw [if_pos hnews] at h
      cases h
    · rfl

theorem getElem?_foldl_updateBoards_of_notMem (c : Contest) (final : Bool)
    (teams : List (Nat × Table Nat (List SubData))) (boards : Board × Board) {userId : Nat}
    (h : userId ∉ teams.map Prod.fst) :
    (side final (teams.foldl (updateBoards c) boards)).standings[userId]? = (side final boards).standings[userId]? := by
  induction teams generalizing boards with
  | nil => rfl
  | cons team teams ih =>
    rw [List.map_cons, List.mem_cons, not_or] at h
    rw [List.foldl_cons, ih _ h.2, side_updateBoards, getElem?_update_of_ne _ (Ne.symm h.1)]

theorem foldl_updateBoards_of_same (c : Contest) (final : Bool) {teams : List (Nat × Table Nat (List SubData))}
    (boards : Board × Board) (hkeys : (teams.map Prod.fst).Nodup)
    (h : (side final (teams.foldl (updateBoards c) boards)).standings = (side final boards).standings) :
    side final (teams.foldl (updateBoards c) boards) = side final boards := by
  induction teams generalizing boards with
  | nil => rfl
  | cons team teams ih =>
    rw [List.map_cons, List.nodup_cons] at hkeys
    have hrow : merged (side final boards).standings[team.1]? (side final (teamData c team.1 team.2)) =
        (side final boards).standings[team.1]? := by
      rw [← getElem?_update_self, ← side_updateBoards, ← getElem?_foldl_updateBoards_of_notMem c final teams _ hkeys.1,
        ← List.foldl_cons, h]
    have hfirst : side final (updateBoards c boards team) = side final boards := by
      rw [side_updateBoards, Board.update]
      split
      · next hnews =>
        rw [merged, if_pos hnews] at hrow
        rw [← hrow] at hnews
        simp [news] at hnews
      · rfl
    rw [List.foldl_cons] at h ⊢
    rw [ih _ hkeys.2 (h.trans (congrArg Board.standings hfirst.symm)), hfirst]

theorem notices_updateStandings (h : updateStandings env c uid cache = some (cache', ns)) :
    ∃ contestant final : Board, ns = notices c uid false contestant ++ notices c uid true final ∧
      contestant.standings = cache'.contestant ∧
      (contestant.haveUpdate = true ↔ cache'.contestant ≠ cache.contestant) := by
  rw [updateStandings] at h
  split at h
  · cases h
    exact ⟨⟨cache.contestant, false⟩, ⟨cache.final, false⟩, rfl, rfl, by simp⟩
  · obtain ⟨data, -, hdata⟩ := Option.map_eq_some_iff.mp h
    dsimp only at hdata
    have hkeys : (data.toList.map Prod.fst).Nodup := by
      rw [Std.ExtTreeMap.map_fst_toList_eq_keys]
      exact Std.ExtTreeMap.nodup_keys
    have hunchanged :=
      foldl_updateBoards_haveUpdate c false data.toList (⟨cache.contestant, false⟩, ⟨cache.final, false⟩)
    have hsame := foldl_updateBoards_of_same c false (⟨cache.contestant, false⟩, ⟨cache.final, false⟩) hkeys
    generalize data.toList.foldl (updateBoards c) (⟨cache.contestant, false⟩, ⟨cache.final, false⟩) = boards
      at hdata hunchanged hsame
    cases hdata
    refine ⟨boards.1, boards.2, rfl, rfl, fun hupdate heq => ?_, fun hne => ?_⟩
    · rw [show boards.1 = ⟨cache.contestant, false⟩ from hsame heq] at hupdate
      cases hupdate
    · by_contra hnone
      exact hne (congrArg Board.standings (hunchanged (Bool.eq_false_iff.mpr hnone)))

theorem received_updateStandings (hcc : cc.userId ≠ 0) (hsee : cc.permissions .seeStandings = true)
    (h : updateStandings env c uid cache = some (cache', ns)) :
    received cc ns = [updateBlock cc c (cache'.board (seesFinal cc)) uid] ∨
      received cc ns = [] ∧ cache'.board (seesFinal cc) = cache.board (seesFinal cc) := by
  have happend : ∀ a b, received cc (a ++ b) = received cc a ++ received cc b := by
    intro a b
    rw [received, List.filter_append, List.map_append]
    rfl
  rw [updateStandings] at h
  split at h
  · cases h
    exact .inr ⟨rfl, rfl⟩
  · obtain ⟨data, -, hdata⟩ := Option.map_eq_some_iff.mp h
    dsimp only at hdata
    have hboards :=
      foldl_updateBoards_haveUpdate c (seesFinal cc) data.toList (⟨cache.contestant, false⟩, ⟨cache.final, false⟩)
    generalize data.toList.foldl (updateBoards c) (⟨cache.contestant, false⟩, ⟨cache.final, false⟩) =
      boards at hdata hboards
    cases hdata
    rw [happend, received_notices hcc hsee, received_notices hcc hsee]
    cases hfinal : seesFinal cc with
    | false =>
      rw [hfinal] at hboards
      cases hupdate : boards.1.haveUpdate with
      | true => exact .inl (by simp [Cache.board])
      | false => exact .inr ⟨by simp, congrArg Board.standings (hboards hupdate)⟩
    | true =>
      rw [hfinal] at hboards
      cases hupdate : boards.2.haveUpdate with
      | true => exact .inl (by simp [Cache.board])
      | false => exact .inr ⟨by simp, congrArg Board.standings (hboards hupdate)⟩

end

end Abacus.Standings.Broadcast
