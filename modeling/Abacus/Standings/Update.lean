import Abacus.Client.Contest

/-! # Updating the standings

`updateStandings` scores the counted submissions for the contestants and for the final standings, and replaces the
rows that have changed. An `int` that overflows is taken to wrap around; the number of tries cannot.
-/

namespace Abacus.Standings.Update

open Library Library.Bytes Misc Database.Schema Database.Marks Database.Problems Database.People
open Support.Timer Client.Block Client.Permissions Client.Action Client.Contest Peer.Process

def int32 (z : Int) : Int := z.bmod 4294967296

structure SubData where
  time : Int
  correct : Bool
  finalOnly : Bool
  deriving DecidableEq

def subDataLessThan (s1 s2 : SubData) : Bool :=
  if s1.finalOnly ≠ s2.finalOnly then s2.finalOnly else s1.time < s2.time

/-- `stable_sort` with `SubDataLessThan`. -/
def sortSubs (subs : List SubData) : List SubData := subs.insertionSort fun a b => subDataLessThan b a = false

def isBlinded (t : TimerSupportModule) (contestTime : Int) : Bool := contestTime > t.duration - t.blinds

/-- Compile failures, deferrals to the judge and the result OTHER are ignored. -/
def counts (state : Int) : Bool := state ≠ 4 ∧ state ≠ 5 ∧ state ≠ 7

section

abbrev ProblemData := Table Nat (Table Nat (List SubData))

abbrev Counted := Nat × Nat × SubData

def pushProblem (problems : Table Nat (List SubData)) (probId : Nat) (s : SubData) : Table Nat (List SubData) :=
  problems.insert probId (problems.getD probId [] ++ [s])

def push (data : ProblemData) (x : Counted) : ProblemData :=
  data.insert x.1 (pushProblem (data.getD x.1 ∅) x.2.1 x.2.2)

variable (env : Env) (c : Contest)

/-- What the loop adds for one submission; `none` if a number cannot be read. -/
def collectOne (data : ProblemData) (s : AttributeList) : Option ProblemData := do
  let subId ← fromStringU32 (s.getD (str "submission_id") [])
  match getSubmissionState c env.order subId with
  | none => return data
  | some st =>
    if counts st.state then do
      let userId := submission2userId c subId
      let time ← fromStringTime (s.getD (str "time") [])
      let contestTime := env.timer.contestTime env.now (userGroup c userId) time
      let probId ← fromStringU32 (s.getD (str "prob_id") [])
      return push data
        (userId, probId, ⟨contestTime, st.state = 0, isBlinded env.timer contestTime⟩)
    else return data

def problemData (uid : Nat) : Option ProblemData := (getSubmissions c uid).foldlM (collectOne env c) ∅

end

section

structure Walk where
  tries : Int
  correct : Bool
  correctTime : Int
  rest : List SubData

def walk (w : Bool) (tries : Int) (correct : Bool) (correctTime : Int) : List SubData → Walk
  | [] => ⟨tries, correct, correctTime, []⟩
  | s :: rest =>
    if !correct && (w || !s.finalOnly) then walk w (tries + 1) s.correct s.time rest
    else ⟨tries, correct, correctTime, s :: rest⟩

def score (d : StandingsData) (probId : Nat) (x : Walk) : StandingsData :=
  if x.tries = 0 then d
  else if x.correct then
    { d with
      time := d.time + int32 (int32 ((x.tries - 1) * 20) * 60) + x.correctTime
      points := int32 (d.points + 1)
      tries := d.tries.insert probId x.tries }
  else { d with tries := d.tries.insert probId (-x.tries) }

/-- The second walk goes on where the first one, which keeps out of the blinds, has stopped. -/
def scoreProblem (teamdata : StandingsData × StandingsData) (p : Nat × List SubData) : StandingsData × StandingsData :=
  let first := walk false 0 false 0 (sortSubs p.2)
  let second := walk true first.tries first.correct first.correctTime first.rest
  (score teamdata.1 p.1 first, score teamdata.2 p.1 second)

variable (c : Contest)

def bonusData (userId : Nat) : StandingsData :=
  let bonus := match userBonus c userId with
    | some (points, seconds) => (points, int32 (-seconds))
    | none => (0, 0)
  { points := bonus.1, time := bonus.2, inStandings := getPermissions (usertype c userId) .inStandings, tries := ∅ }

def teamData (userId : Nat) (problems : Table Nat (List SubData)) : StandingsData × StandingsData :=
  problems.toList.foldl scoreProblem (bonusData c userId, bonusData c userId)

/-- One of the two cached standings, and whether an update has changed it. -/
structure Board where
  standings : Standings
  haveUpdate : Bool

/-- Whether the row differs from the cached one; `in_standings` is not compared. -/
def news (old : Option StandingsData) (d : StandingsData) : Bool :=
  match old with
  | none => true
  | some row => row.points ≠ d.points || row.time ≠ d.time || row.tries ≠ d.tries

def Board.update (b : Board) (userId : Nat) (d : StandingsData) : Board :=
  if !d.tries.isEmpty && news b.standings[userId]? d then ⟨b.standings.insert userId d, true⟩ else b

def updateBoards (boards : Board × Board) (team : Nat × Table Nat (List SubData)) : Board × Board :=
  let teamdata := teamData c team.1 team.2
  (boards.1.update team.1 teamdata.1, boards.2.update team.1 teamdata.2)

end

structure Cache where
  contestant : Standings
  final : Standings

def Cache.empty : Cache := ⟨∅, ∅⟩

def Cache.board (cache : Cache) (final : Bool) : Standings := if final then cache.final else cache.contestant

structure Notice where
  test : PermissionTest
  mb : MessageBlock

def audience (final seeAll : Bool) : PermissionTest :=
  let seen : PermissionTest := if final then .base .seeFinalStandings else .not (.base .seeFinalStandings)
  let all : PermissionTest := if seeAll then .base .seeAllStandings else .not (.base .seeAllStandings)
  .and (.and (.base .seeStandings) seen) all

def notices (c : Contest) (uid : Nat) (final : Bool) (b : Board) : List Notice :=
  if b.haveUpdate then
    [false, true].filterMap fun seeAll =>
      let mb := getStandingsInternal c b.standings uid seeAll (MessageBlock.ofAction (str "updatestandings"))
      if mb.get (str "nrows") ≠ str "0" then some ⟨audience final seeAll, mb⟩ else none
  else []

/-- The new cache and what is broadcast; `none` if a number cannot be read. -/
def updateStandings (env : Env) (c : Contest) (uid : Nat) (cache : Cache) : Option (Cache × List Notice) :=
  if env.timer.duration = 0 then some (cache, [])
  else (problemData env c uid).map fun data =>
    let boards := data.toList.foldl (updateBoards c) (⟨cache.contestant, false⟩, ⟨cache.final, false⟩)
    (⟨boards.1.standings, boards.2.standings⟩, notices c uid false boards.1 ++ notices c uid true boards.2)

def freshStandings (env : Env) (c : Contest) : Option Cache := (updateStandings env c 0 .empty).map Prod.fst

end Abacus.Standings.Update
