import Abacus.Client.Numbers
import Abacus.Standings.Broadcast

/-! # Live standings

A client takes the first reply as the whole table, and what comes later as new rows. A request reads the columns,
then the rows under the read lock, and its reply is enqueued after that. An update is broadcast under
the write lock.
-/

namespace Abacus.Standings.Live

open Library Library.Bytes Database.Schema Database.Marks Database.Problems Database.People
open Client.Block Client.Permissions Client.Action Client.Contest Client.Numbers
open Peer.Classes Peer.Process Peer.Statements Peer.Totality Update Rows Grid Broadcast

structure Client where
  started : Bool
  header : Row
  data : List Row

inductive Delivery
  | reply (mb : MessageBlock)
  | update (mb : MessageBlock)

def Client.receive (client : Client) : Delivery → Client
  | .reply mb =>
    { started := true
      header := rawHeader mb
      data := if client.started then (newData mb).foldl (Keyed.put rowId) client.data else newData mb }
  | .update mb =>
    { client with header := rawHeader mb, data := (newData mb).foldl (Keyed.put rowId) client.data }

/-- How far the connection's request has got: the columns have been read, the rows too, or there is none. -/
inductive Request
  | idle
  | begun (k : Columns)
  | taken (mb : MessageBlock)

structure State where
  contest : Contest
  cache : Cache
  request : Request
  queue : List Delivery
  client : Client

inductive Label
  | request
  | snapshot
  | reply
  | update (env : Env) (uid : Nat)
  | store (m : Message) (statement : Contest → Option Contest)
  | deliver

section

variable (cc : Connection)

def board (cache : Cache) : Standings := cache.board (seesFinal cc)

def snapshotBlock (k : Columns) (c : Contest) (cache : Cache) : MessageBlock :=
  block k c (visible (board cc cache) 0 (seesAll cc)) .ok

def step (s : State) : Label → Option State
  | .request =>
    match s.request with
    | .idle => if cc.permissions .seeStandings then some { s with request := .begun (columnsOf s.contest) } else none
    | _ => none
  | .snapshot =>
    match s.request with
    | .begun k => some { s with request := .taken (snapshotBlock cc k s.contest s.cache) }
    | _ => none
  | .reply =>
    match s.request with
    | .taken mb => some { s with request := .idle, queue := s.queue ++ [.reply mb] }
    | _ => none
  | .update env uid =>
    (updateStandings env s.contest uid s.cache).map fun r =>
      { s with cache := r.1, queue := s.queue ++ (received cc r.2).map .update }
  | .store _ statement => (statement s.contest).map fun contest => { s with contest }
  | .deliver =>
    match s.queue with
    | d :: queue => some { s with queue, client := s.client.receive d }
    | [] => none

def Sized : Message → Prop
  | .submission m => Fits (.submission m) ∧ m.probId < 4294967296
  | m => Fits m

def Executable : Label → Prop
  | .store m statement => Statement .any m statement ∧ Sized m
  | _ => True

def machine : Machine State Label where
  init s := Readable s.contest ∧ s.cache = .empty ∧ s.request = .idle ∧ s.queue = [] ∧ s.client = ⟨false, [], []⟩
  step s l s' := Executable l ∧ step cc s l = some s'

/-- The client, once what is queued has been delivered. -/
def State.drained (s : State) : Client := s.queue.foldl Client.receive s.client

def State.fresh (s : State) : MessageBlock := snapshotBlock cc (columnsOf s.contest) s.contest s.cache

/-- Once all is delivered, the client has the titles and the rows that a new snapshot has. -/
def UpToDate (s : State) : Prop :=
  s.queue = [] → s.client.started = true →
    s.client.header = rawHeader (s.fresh cc) ∧ s.client.data.Perm (newData (s.fresh cc))

def Watched (s : State) : Prop := (∃ k, s.request = .begun k) ∨ (∃ mb, s.request = .taken mb) ∨ s.drained.started = true

def KeepsNames (c c' : Contest) : Prop :=
  ∀ userId ∈ c.user, groupname c' (userGroup c userId) = groupname c (userGroup c userId)

/-- No update comes between a snapshot and its reply, nor for a user 0 or a problem outside the table; and no problem or
group of a user is added or renamed. -/
def Calm (s : State) : Label → Prop
  | .update env _ => cc.userId ≠ 0 ∧ (∀ mb, s.request ≠ .taken mb) ∧ Tabled env s.contest
  | .store _ statement => Watched s → ∀ c' ∈ statement s.contest,
      columnsOf c' = columnsOf s.contest ∧ KeepsNames s.contest c'
  | _ => True

end

section

variable {scope : Scope} {m : Message} {f : Contest → Option Contest} {c c' : Contest}

theorem user_statement {α : Type} {g : User → α} (hf : Statement scope m f) (hc : f c = some c')
    (hpassword : ∀ u password, g { u with password } = g u)
    (hbonus : ∀ u bonusPoints bonusSeconds, g { u with bonusPoints, bonusSeconds } = g u) {userId : Nat}
    (huser : userId ∈ c.user) : (c'.user[userId]?).map g = (c.user[userId]?).map g := by
  cases hf with
  | setBonus m =>
    cases hc
    exact Table.map_modify_row _ _ _ fun u => hbonus u m.points m.seconds
  | setPassword m =>
    cases hc
    exact Table.map_modify_row _ _ _ fun u => hpassword u m.newpass
  | addUser m =>
    obtain ⟨-, hnew, rfl⟩ := Table.map_insertUnique.mp hc
    have hne : m.userId ≠ userId := by
      rintro rfl
      exact hnew huser
    rw [Table.getElem?_insert_row, if_neg hne]
  | putMark m | setServerAttribute m _ _ | putStartStop m | setProblemType m _ | setProblemUpdateTime m
  | deleteAttributeRow m _ _ | deleteFileDataRow m _ _ | delProblemDependency m _ _ _ =>
    cases hc
    rfl
  | addGroup m | putClarificationRequest m | putClarification m | putMarkFile m _ _ | putSubmission m
  | insertAttributeRow m _ _ _ | insertFileDataRow m _ _ _ _ | addProblemDependency m _ _ =>
    obtain ⟨t, -, rfl⟩ := Option.map_eq_some_iff.mp hc
    rfl

theorem Readable.statement (h : Readable c) (hm : Sized m) (hf : Statement scope m f) (hc : f c = some c') :
    Readable c' := by
  have hfits : Fits m := by
    cases m with
    | submission m => exact hm.1
    | createServer | createUser | createGroup | passwd | prob | startStop | mark | bonus | clarification => exact hm
  refine ⟨h.range.statement scope hfits hf hc, ?_⟩
  cases hf with
  | putSubmission m =>
    obtain ⟨-, rfl⟩ := Table.map_insertNew.mp hc
    intro id s hs
    rw [Table.getElem?_insert_row] at hs
    split at hs
    · cases hs
      exact hm.2
    · exact h.problem id s hs
  | setBonus m | setPassword m | putMark m | setServerAttribute m _ _ | putStartStop m | setProblemType m _
  | setProblemUpdateTime m | deleteAttributeRow m _ _ | deleteFileDataRow m _ _ | delProblemDependency m _ _ _ =>
    cases hc
    exact h.problem
  | addUser m | addGroup m | putClarificationRequest m | putClarification m | putMarkFile m _ _
  | insertAttributeRow m _ _ _ | insertFileDataRow m _ _ _ _ | addProblemDependency m _ _ =>
    obtain ⟨t, -, rfl⟩ := Option.map_eq_some_iff.mp hc
    exact h.problem

variable {userId : Nat} {d : StandingsData}

theorem Sound.statement (h : Sound c userId d) (hf : Statement scope m f) (hc : f c = some c') : Sound c' userId d where
  user := (keeps_statement hf hc).user userId h.user
  flag := by
    have htype : usertype c' userId = usertype c userId :=
      congrArg (Option.getD · 4294967295) (user_statement hf hc (fun _ _ => rfl) (fun _ _ _ => rfl) h.user)
    rw [h.flag, htype]
  tries p hp :=
    Std.ExtTreeMap.mem_keys.mpr ((keeps_statement hf hc).problem p (Std.ExtTreeMap.mem_keys.mp (h.tries p hp)))

/-- A row shows the same as before if the columns and the name of the user's group are the same. -/
theorem rowOfUser_statement (h : Sound c userId d) (hf : Statement scope m f) (hc : f c = some c')
    (hcolumns : columnsOf c' = columnsOf c) (hnames : KeepsNames c c') :
    rowOfUser c' (userId, d) = rowOfUser c (userId, d) := by
  have hname : username c' userId = username c userId :=
    congrArg (Option.getD · []) (user_statement hf hc (fun _ _ => rfl) (fun _ _ _ => rfl) h.user)
  have hfriendly : friendlyname c' userId = friendlyname c userId :=
    congrArg (Option.getD · []) (user_statement hf hc (fun _ _ => rfl) (fun _ _ _ => rfl) h.user)
  have hgroup : userGroup c' userId = userGroup c userId :=
    congrArg (Option.getD · 4294967295) (user_statement hf hc (fun _ _ => rfl) (fun _ _ _ => rfl) h.user)
  have hproblems : getProblems c' = getProblems c := congrArg Columns.problems hcolumns
  rw [rowOfUser, rowOfUser, rowCells, rowCells, standingCells, standingCells, hproblems, hname, hfriendly, hgroup,
    hnames userId h.user]

end

section

variable (cc : Connection)

structure Shown (c : Contest) (cache : Cache) (mb : MessageBlock) : Prop where
  header : rawHeader mb = (columnsOf c).titles.map some
  data : newData mb = view c (board cc cache) 0 (seesAll cc)

structure Agrees (c : Contest) (cache : Cache) (client : Client) : Prop where
  header : client.header = (columnsOf c).titles.map some
  distinct : Keyed.Distinct rowId client.data
  data : ∀ row, row ∈ client.data ↔ row ∈ view c (board cc cache) 0 (seesAll cc)

/-- What holds between the steps: the request and the client, with what is queued for it, are not behind. -/
structure Inv (s : State) : Prop where
  readable : Readable s.contest
  sound : AllSound s.contest (board cc s.cache)
  permitted : Watched s → cc.permissions .seeStandings = true
  begun : ∀ k, s.request = .begun k → k = columnsOf s.contest
  taken : ∀ mb, s.request = .taken mb → Shown cc s.contest s.cache mb
  drained : s.drained.started = true → Agrees cc s.contest s.cache s.drained

variable {cc} {s : State}

theorem shown_snapshotBlock (c : Contest) (cache : Cache) :
    Shown cc c cache (snapshotBlock cc (columnsOf c) c cache) where
  header := rawHeader_block
  data := newData_block (length_titles c)

theorem upToDate_of_inv (h : Inv cc s) : UpToDate cc s := by
  intro hqueue hstarted
  have hdrained : s.drained = s.client := by rw [State.drained, hqueue, List.foldl_nil]
  obtain ⟨hheader, hdistinct, hdata⟩ := hdrained ▸ h.drained (hdrained ▸ hstarted)
  have hfresh : Shown cc s.contest s.cache (s.fresh cc) := shown_snapshotBlock s.contest s.cache
  rw [hfresh.header, hfresh.data]
  exact ⟨hheader, hdistinct.perm (distinct_view h.sound 0 (seesAll cc)) hdata⟩

theorem inv_of_init (h : (machine cc).init s) : Inv cc s := by
  obtain ⟨hreadable, hcache, hrequest, hqueue, hclient⟩ := h
  have hdrained : s.drained.started = false := by rw [State.drained, hqueue, hclient, List.foldl_nil]
  have hwatched : ¬Watched s := by
    rintro (⟨k, hk⟩ | ⟨mb, hmb⟩ | hstarted)
    · rw [hrequest] at hk
      cases hk
    · rw [hrequest] at hmb
      cases hmb
    · rw [hdrained] at hstarted
      cases hstarted
  refine ⟨hreadable, ?_, fun hw => absurd hw hwatched, fun k hk => absurd (.inl ⟨k, hk⟩) hwatched,
    fun mb hmb => absurd (.inr (.inl ⟨mb, hmb⟩)) hwatched, fun hstarted => absurd (.inr (.inr hstarted)) hwatched⟩
  intro userId d hd
  rw [hcache, board] at hd
  cases hfinal : seesFinal cc with
  | false | true =>
    rw [hfinal] at hd
    cases hd

theorem Inv.request (h : Inv cc s) (hsee : cc.permissions .seeStandings = true) :
    Inv cc { s with request := .begun (columnsOf s.contest) } where
  readable := h.readable
  sound := h.sound
  permitted _ := hsee
  begun k hk := by
    cases hk
    rfl
  taken _ hmb := nomatch hmb
  drained := h.drained

theorem Inv.snapshot (h : Inv cc s) {k : Columns} (hk : s.request = .begun k) :
    Inv cc { s with request := .taken (snapshotBlock cc k s.contest s.cache) } where
  readable := h.readable
  sound := h.sound
  permitted _ := h.permitted (.inl ⟨k, hk⟩)
  begun _ hbegun := nomatch hbegun
  taken mb hmb := by
    cases hmb
    rw [h.begun k hk]
    exact shown_snapshotBlock s.contest s.cache
  drained := h.drained

theorem Inv.reply (h : Inv cc s) {mb : MessageBlock} (hmb : s.request = .taken mb) :
    Inv cc { s with request := .idle, queue := s.queue ++ [.reply mb] } := by
  obtain ⟨hheader, hdata⟩ := h.taken mb hmb
  have hview := distinct_view h.sound 0 (seesAll cc)
  refine ⟨h.readable, h.sound, fun _ => h.permitted (.inr (.inl ⟨mb, hmb⟩)), nofun, nofun, fun _ => ?_⟩
  rw [State.drained, List.foldl_append]
  show Agrees cc s.contest s.cache (s.drained.receive (.reply mb))
  cases hstarted : s.drained.started with
  | false =>
    rw [Client.receive, hstarted, if_neg Bool.false_ne_true, hdata]
    exact ⟨hheader, hview, fun _ => Iff.rfl⟩
  | true =>
    obtain ⟨-, hdistinct, hold⟩ := h.drained hstarted
    obtain ⟨hdist, hmem⟩ := Keyed.foldl_put hdistinct hview
    rw [Client.receive, hstarted, if_pos rfl, hdata]
    refine ⟨hheader, hdist, fun row => ?_⟩
    rw [hmem, hold]
    exact ⟨fun hrow => hrow.elim id And.left, .inl⟩

theorem Inv.deliver (h : Inv cc s) {d : Delivery} {queue : List Delivery} (hqueue : s.queue = d :: queue) :
    Inv cc { s with queue, client := s.client.receive d } := by
  have hdrained : ({ s with queue, client := s.client.receive d } : State).drained = s.drained := by
    rw [State.drained, State.drained, hqueue, List.foldl_cons]
  refine ⟨h.readable, h.sound, fun hw => h.permitted ?_, h.begun, h.taken, fun hstarted => ?_⟩
  · rw [Watched, hdrained] at hw
    exact hw
  · rw [hdrained] at hstarted ⊢
    exact h.drained hstarted

theorem Inv.update (h : Inv cc s) {env : Env} {uid : Nat} {cache : Cache} {ns : List Notice}
    (hcalm : Calm cc s (.update env uid)) (hupdate : updateStandings env s.contest uid s.cache = some (cache, ns)) :
    Inv cc { s with cache, queue := s.queue ++ (received cc ns).map .update } := by
  obtain ⟨hcc, hidle, htabled⟩ := hcalm
  have href := refreshed_updateStandings h.readable hupdate (seesFinal cc)
  have hsound : AllSound s.contest (board cc cache) := h.sound.refreshed htabled href
  have hreceive : ∀ (l : List MessageBlock) (client : Client),
      ((l.map Delivery.update).foldl Client.receive client).started = client.started := by
    intro l
    induction l with
    | nil => exact fun _ => rfl
    | cons mb l ih => exact fun client => ih (client.receive (.update mb))
  have hstarted : ({ s with cache, queue := s.queue ++ (received cc ns).map .update } : State).drained.started =
      s.drained.started := by
    rw [State.drained, List.foldl_append]
    exact hreceive _ _
  refine ⟨h.readable, hsound, fun hw => h.permitted ?_, h.begun, fun mb hmb => absurd hmb (hidle mb), fun hclient => ?_⟩
  · rw [Watched, hstarted] at hw
    exact hw
  · rw [hstarted] at hclient
    obtain ⟨hheader, hdistinct, hdata⟩ := h.drained hclient
    rw [State.drained, List.foldl_append]
    show Agrees cc s.contest cache (((received cc ns).map Delivery.update).foldl Client.receive s.drained)
    obtain hsent | ⟨hsent, hsame⟩ := received_updateStandings hcc (h.permitted (.inr (.inr hclient))) hupdate
    · obtain ⟨hdist, hmem⟩ := view_refreshed h.sound hsound href hdistinct hdata
      rw [hsent, List.map_cons, List.map_nil, List.foldl_cons, List.foldl_nil, Client.receive, newData_updateBlock]
      exact ⟨rawHeader_updateBlock cc s.contest _ uid, hdist, hmem⟩
    · have hboard : board cc cache = board cc s.cache := hsame
      rw [hsent]
      refine ⟨hheader, hdistinct, ?_⟩
      rw [hboard]
      exact hdata

theorem Inv.store (h : Inv cc s) {m : Message} {f : Contest → Option Contest} {c' : Contest}
    (hexecutable : Executable (.store m f)) (hcalm : Calm cc s (.store m f)) (hc : f s.contest = some c') :
    Inv cc { s with contest := c' } := by
  obtain ⟨hf, hm⟩ := hexecutable
  have hview : Watched s →
      view c' (board cc s.cache) 0 (seesAll cc) = view s.contest (board cc s.cache) 0 (seesAll cc) := by
    intro hw
    obtain ⟨hcolumns, hnames⟩ := hcalm hw c' hc
    apply List.map_congr_left
    intro r hr
    have hrow : (board cc s.cache)[r.1]? = some r.2 :=
      Std.ExtTreeMap.mem_toList_iff_getElem?_eq_some.mp (List.mem_of_mem_filter (List.mem_of_mem_filter hr))
    exact rowOfUser_statement (h.sound r.1 r.2 hrow) hf hc hcolumns hnames
  have hcolumns : Watched s → columnsOf c' = columnsOf s.contest := fun hw => (hcalm hw c' hc).1
  refine ⟨Readable.statement h.readable hm hf hc, fun userId d hd => Sound.statement (h.sound userId d hd) hf hc,
    h.permitted, fun k hk => ?_, fun mb hmb => ?_, fun hstarted => ?_⟩
  · rw [hcolumns (.inl ⟨k, hk⟩)]
    exact h.begun k hk
  · have hw : Watched s := .inr (.inl ⟨mb, hmb⟩)
    obtain ⟨hheader, hdata⟩ := h.taken mb hmb
    exact ⟨by rw [hcolumns hw, hheader], by rw [hview hw, hdata]⟩
  · have hw : Watched s := .inr (.inr hstarted)
    obtain ⟨hheader, hdistinct, hdata⟩ := h.drained hstarted
    refine ⟨by rw [hcolumns hw]; exact hheader, hdistinct, ?_⟩
    rw [hview hw]
    exact hdata

theorem Inv.step {l : Label} {s' : State} (h : Inv cc s) (hcalm : Calm cc s l) (hstep : (machine cc).step s l s') :
    Inv cc s' := by
  obtain ⟨hexecutable, hstep⟩ := hstep
  cases l with
  | request =>
    rw [Live.step] at hstep
    split at hstep
    · split at hstep
      · next hsee =>
        cases hstep
        exact h.request hsee
      · cases hstep
    · cases hstep
  | snapshot =>
    rw [Live.step] at hstep
    split at hstep
    · next k hk =>
      cases hstep
      exact h.snapshot hk
    · cases hstep
  | reply =>
    rw [Live.step] at hstep
    split at hstep
    · next mb hmb =>
      cases hstep
      exact h.reply hmb
    · cases hstep
  | update env uid =>
    obtain ⟨⟨cache, ns⟩, hupdate, rfl⟩ := Option.map_eq_some_iff.mp hstep
    exact h.update hcalm hupdate
  | store m f =>
    obtain ⟨c', hc, rfl⟩ := Option.map_eq_some_iff.mp hstep
    exact h.store hexecutable hcalm hc
  | deliver =>
    rw [Live.step] at hstep
    split at hstep
    · next d queue hqueue =>
      cases hstep
      exact h.deliver hqueue
    · cases hstep

end

/-- In a run of calm steps the client never ends up with other rows than a new snapshot would show. -/
theorem upToDate_of_calm (cc : Connection) (s : State) (h : (machine cc).Reach (Calm cc) s) : UpToDate cc s := by
  have hinv : Inv cc s := by
    apply h.invariant
    · exact fun _ hinit => inv_of_init hinit
    · exact fun _ _ _ hinv hcalm hstep => hinv.step hcalm hstep
  exact upToDate_of_inv hinv

section

open Scoring

def twoProblems : Contest where
  __ := threeSubmissions
  problem := (∅ : Table Nat Problem)
    |>.insert 1 { updated := 5, type := str "tcprob" }
    |>.insert 2 { updated := 5, type := str "tcprob" }

def starting : State where
  contest := twoProblems
  cache := .empty
  request := .idle
  queue := []
  client := ⟨false, [], []⟩

def team : Connection where
  userId := 3
  groupId := 1
  permissions := getPermissions 3
  userId_lt := by decide

theorem init_starting : (machine team).init starting :=
  ⟨⟨readable_threeSubmissions.range.of_eq rfl rfl rfl, readable_threeSubmissions.problem⟩, rfl, rfl, rfl, rfl⟩

def Request.isTaken : Request → Bool
  | .taken _ => true
  | .idle | .begun _ => false

def plain (calm : Bool) (s : State) : Label → Bool
  | .store _ _ => false
  | .update env _ =>
    !calm || !s.request.isTaken && (entries env s.contest).all fun e => e.probId ∈ getProblems s.contest
  | .request | .snapshot | .reply | .deliver => true

theorem executable_of_plain {calm : Bool} {s : State} {l : Label} (h : plain calm s l = true) : Executable l := by
  cases l with
  | store => cases h
  | request | snapshot | reply | update | deliver => trivial

theorem calm_of_plain {s : State} {l : Label} (h : plain true s l = true) : Calm team s l := by
  cases l with
  | store => cases h
  | update env uid =>
    obtain ⟨hidle, htabled⟩ := Bool.and_eq_true_iff.mp h
    refine ⟨by decide, fun mb hmb => ?_, fun e he => of_decide_eq_true (List.all_eq_true.mp htabled e he)⟩
    rw [hmb] at hidle
    cases hidle
  | request | snapshot | reply | deliver => trivial

theorem reach_plain {ok : State → Label → Prop} {calm : Bool} (hok : ∀ s l, plain calm s l = true → ok s l)
    {s s' : State} {ls : List Label} (h : (machine team).Reach ok s)
    (hplay : play (step team) (fun s l => plain calm s l = true) s ls = some s') : (machine team).Reach ok s' := by
  apply h.tested _ hplay
  intro s l s' hplain hstep
  exact ⟨hok s l hplain, executable_of_plain hplain, hstep⟩

/-- The row of the team comes with the update. -/
theorem upToDate_in_turn : ∃ s, (machine team).Reach (Calm team) s ∧ s.queue.isEmpty = true ∧ s.client.started = true ∧
    s.client.data.map List.length = [9] ∧ UpToDate team s := by
  have hplay : ∃ s, play (step team) (fun s l => plain true s l = true) starting
        [.request, .snapshot, .reply, .deliver, .update running 0, .deliver] = some s ∧
      s.queue.isEmpty = true ∧ s.client.started = true ∧ s.client.data.map List.length = [9] := by decide +kernel
  obtain ⟨s, hplay, hqueue, hstarted, hrow⟩ := hplay
  have hreach : (machine team).Reach (Calm team) s := reach_plain (fun _ _ => calm_of_plain) (.init init_starting) hplay
  exact ⟨s, hreach, hqueue, hstarted, hrow, upToDate_of_calm team s hreach⟩

def problemC : ProbMessage where
  probId := 4
  updateTime := 9
  deps := []
  type := str "tcprob"
  files := ∅
  strings := (∅ : StringMap Str).insert (str "shortname") (str "C")
  ints := ∅

def addC : Label := .store (.prob problemC) fun c => some (setProblemType c problemC.probId problemC.type)

/-- A reply that is overtaken by an update leaves the client without the row. A new problem leaves a row too short. -/
theorem not_upToDate_overtaken :
    (∃ s, (machine team).Reachable s ∧ s.queue.isEmpty = true ∧ s.client.started = true ∧ s.client.data = [] ∧
      (newData (s.fresh team)).map List.length = [9] ∧ ¬UpToDate team s) ∧
    ∃ s, (machine team).Reachable s ∧ s.queue.isEmpty = true ∧ s.client.started = true ∧
      s.client.data.map List.length = [9] ∧ (newData (s.fresh team)).map List.length = [10] ∧ ¬UpToDate team s := by
  have hdiffer : ∀ s : State, s.queue.isEmpty = true → s.client.started = true →
      (s.client.data.map List.length).sum ≠ ((newData (s.fresh team)).map List.length).sum → ¬UpToDate team s := by
    intro s hqueue hstarted hsum hupToDate
    exact hsum ((hupToDate (List.isEmpty_iff.mp hqueue) hstarted).2.map List.length).sum_eq
  constructor
  · have hplay : ∃ s, play (step team) (fun s l => plain false s l = true) starting
          [.request, .snapshot, .update running 0, .reply, .deliver, .deliver] = some s ∧
        s.queue.isEmpty = true ∧ s.client.started = true ∧ s.client.data = [] ∧
        (newData (s.fresh team)).map List.length = [9] := by decide +kernel
    obtain ⟨s, hplay, hqueue, hstarted, hrows, hfresh⟩ := hplay
    refine ⟨s, reach_plain (fun _ _ _ => trivial) (.init init_starting) hplay, hqueue, hstarted, hrows, hfresh,
      hdiffer s hqueue hstarted ?_⟩
    rw [hrows, hfresh]
    decide
  · have hplay : ∃ s, play (step team) (fun s l => plain false s l = true) starting
          [.update running 0, .deliver, .request, .snapshot, .reply, .deliver] = some s ∧
        ∃ s', step team s addC = some s' ∧
          s'.queue.isEmpty = true ∧ s'.client.started = true ∧ s'.client.data.map List.length = [9] ∧
          (newData (s'.fresh team)).map List.length = [10] := by decide +kernel
    obtain ⟨s, hplay, s', hstore, hqueue, hstarted, hrows, hfresh⟩ := hplay
    have hexecutable : Executable addC := ⟨.setProblemType problemC trivial, trivial⟩
    have hstep : (machine team).step s addC s' := ⟨hexecutable, hstore⟩
    refine ⟨s', .step (reach_plain (fun _ _ _ => trivial) (.init init_starting) hplay) trivial hstep, hqueue, hstarted,
      hrows, hfresh, hdiffer s' hqueue hstarted ?_⟩
    rw [hrows, hfresh]
    decide

end

end Abacus.Standings.Live
