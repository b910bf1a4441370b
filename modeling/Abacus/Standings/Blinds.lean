import Abacus.Standings.Veil

/-! # The blinds

Two runs take the same messages and requests, but marks of submissions in the blinds may differ. Clients that do
not see the final standings are sent the same in both, as long as none is the user 0 and the marks that
differ are alike in whether they leave the submission to the judge, for then no update follows.
-/

namespace Abacus.Standings.Blinds

open Library Database.People Peer.Classes
open Client.Block Client.Permissions Client.Contest
open Client.Action (Connection StandingsData)
open Update Rows Grid Broadcast Messages Veil

/-- A connection in the registry, with its address and the number of the user whom it is registered under. -/
structure Client where
  address : Nat
  key : Nat
  cc : Connection

inductive Input
  /-- Clients log in and leave, so that these are registered. -/
  | clients (l : List Client)
  | standings (k : Client)
  | message (a : Arrival)

structure State where
  /-- None once an exception has ended it. -/
  server : Option Server
  clients : List Client
  /-- What the clients were sent of the standings, the latest at the end. -/
  sent : List (Client × MessageBlock)

def reaches (n : Notice) (k : Client) : Bool := k.key = 0 || n.test.matches k.cc.permissions

def deliver (clients : List Client) (ns : List Notice) : List (Client × MessageBlock) :=
  ns.flatMap fun n => (clients.filter (reaches n)).map fun k => (k, n.mb)

def standings (cc : Connection) (x : Server) : MessageBlock :=
  getStandingsInternal x.db.contest (x.memory.cache.board (seesFinal cc)) 0 (seesAll cc) .ok

theorem result_actStandings (server : Client.Action.Server) (cc : Connection) (x : Server)
    (hfinal : server.finalStandings = x.memory.cache.final)
    (hcontestant : server.contestantStandings = x.memory.cache.contestant) :
    (actStandings server cc).result x.db = .ok (standings cc x) := by
  change Except.ok (getStandings server x.db.contest (seesFinal cc) (seesAll cc) .ok) = _
  rw [getStandings, hfinal, hcontestant, standings, Cache.board]

def quiet (x : Server) : Server := { x with memory := { x.memory with sent := [] } }

def step (host : Host) (s : State) : Input → State
  | .clients l => { s with clients := l }
  | .standings k =>
    match s.server with
    | some x => if k.cc.permissions .seeStandings then { s with sent := s.sent ++ [(k, standings k.cc x)] } else s
    | none => s
  | .message a =>
    match s.server.bind fun x => processAt host (quiet x) a with
    | some y => { s with server := some y, sent := s.sent ++ deliver s.clients y.memory.sent }
    | none => { s with server := none }

/-- The blocks that went to the address while it had no permission to see the final standings. -/
def transcript (address : Nat) (sent : List (Client × MessageBlock)) : List MessageBlock :=
  (sent.filter fun e => e.1.address = address && !seesFinal e.1.cc).map Prod.snd

inductive Alike (hidden : Set Nat) : Input → Input → Prop
  | clients (l : List Client) : Alike hidden (.clients l) (.clients l)
  | standings (k : Client) : Alike hidden (.standings k) (.standings k)
  | message (now : Int) (key : Database.Peer.MessageKey) {m m' : Message} (h : Twin hidden m m') :
      Alike hidden (.message ⟨now, key, m⟩) (.message ⟨now, key, m'⟩)

/-- The numbers of a message fit the type that they have in the code. -/
def Sendable : Input → Prop
  | .message a => Live.Sized a.message
  | _ => True

/-- The hidden submissions are in the blinds, by the events of the moment. -/
def Blinded (host : Host) (hidden : Set Nat) (s : State) : Prop :=
  ∀ x, s.server = some x → InBlinds hidden (envAt host x.now x.memory.timer) x.db.contest

structure Started (s : State) : Prop where
  clients : s.clients = []
  sent : s.sent = []
  server : ∃ x, s.server = some x ∧ Readable x.db.contest

/-- Two runs that differ in the results of marks of hidden submissions, which stay in the blinds. -/
def machine (host : Host) (hidden : Set Nat) : Machine (State × State) (Input × Input) where
  init p := Started p.1 ∧ p.2 = p.1
  step p l p' := Alike hidden l.1 l.2 ∧ Sendable l.1 ∧ Sendable l.2 ∧ p' = (step host p.1 l.1, step host p.2 l.2) ∧
    Blinded host hidden p'.1 ∧ Blinded host hidden p'.2

/-- Nobody who does not see the final standings can tell the runs apart by them. -/
def Secret (p : State × State) : Prop := ∀ address, transcript address p.2.sent = transcript address p.1.sent

/-- No client is registered under the user 0 that does not see the final standings. -/
def Guarded (l : List Client) : Prop := ∀ k ∈ l, seesFinal k.cc = false → k.key ≠ 0

/-- The clients are guarded, and the two marks are both left to the judge or neither is. -/
def Careful (_ : State × State) (l : Input × Input) : Prop :=
  match l with
  | (.clients l, _) => Guarded l
  | (.message a, .message a') => Deferred a.message a'.message
  | _ => True

section

variable {clients : List Client} {ns ns' : List Notice} (address : Nat)

theorem transcript_append (a b : List (Client × MessageBlock)) :
    transcript address (a ++ b) = transcript address a ++ transcript address b := by
  rw [transcript, List.filter_append, List.map_append]
  rfl

theorem deliver_append : deliver clients (ns ++ ns') = deliver clients ns ++ deliver clients ns' := List.flatMap_append

theorem transcript_final (hguarded : Guarded clients) (h : ∀ n ∈ ns, Notice.isFinal n) :
    transcript address (deliver clients ns) = [] := by
  have hnone : ∀ e ∈ deliver clients ns, seesFinal e.1.cc = true := by
    intro e he
    obtain ⟨n, hn, he⟩ := List.mem_flatMap.mp he
    obtain ⟨k, hk, rfl⟩ := List.mem_map.mp he
    obtain ⟨hk, hreaches⟩ := List.mem_filter.mp hk
    obtain ⟨seeAll, htest⟩ := h n hn
    by_contra hblind
    have hkey := hguarded k hk (Bool.eq_false_iff.mpr hblind)
    rw [reaches, htest] at hreaches
    have hmatch : (audience true seeAll).matches k.cc.permissions = true := by simpa [hkey] using hreaches
    simp only [audience, if_true, PermissionTest.matches, Bool.and_eq_true] at hmatch
    exact hblind hmatch.1.2
  rw [transcript, List.map_eq_nil_iff, List.filter_eq_nil_iff]
  intro e he
  simp [hnone e he]

theorem transcript_deliver (hguarded : Guarded clients) (h : SameNews ns ns') :
    transcript address (deliver clients ns') = transcript address (deliver clients ns) := by
  obtain ⟨common, final, final', rfl, rfl, hfinal, hfinal'⟩ := h
  rw [deliver_append, deliver_append, transcript_append, transcript_append, transcript_final address hguarded hfinal,
    transcript_final address hguarded hfinal']

end

section

variable {host : Host} {hidden : Set Nat}

structure Inv (hidden : Set Nat) (p : State × State) : Prop where
  clients : p.2.clients = p.1.clients
  guarded : Guarded p.1.clients
  server : Option.Rel (SameServer hidden) p.1.server p.2.server
  readable : ∀ x, p.1.server = some x → Readable x.db.contest
  secret : Secret p

variable {s s' : State}

theorem inv_of_started (h : Started s) : Inv hidden (s, s) where
  clients := rfl
  guarded := by
    rw [h.clients]
    exact List.forall_mem_nil _
  server := by
    obtain ⟨x, hx, -⟩ := h.server
    rw [hx]
    exact .some ⟨⟨rfl, Veiled.refl hidden _⟩, ⟨rfl, rfl, SameNews.refl _⟩, rfl⟩
  readable := by
    obtain ⟨x, hx, hreadable⟩ := h.server
    intro y hy
    cases hx.symm.trans hy
    exact hreadable
  secret _ := rfl

theorem Inv.clientsInput (h : Inv hidden (s, s')) {l : List Client} (hl : Guarded l) :
    Inv hidden (step host s (.clients l), step host s' (.clients l)) :=
  ⟨rfl, hl, h.server, h.readable, h.secret⟩

theorem standings_veiled {x x' : Server} (h : SameServer hidden x x') {cc : Connection} (hcc : seesFinal cc = false) :
    standings cc x' = standings cc x := by
  rw [standings, standings, hcc, Cache.board, Cache.board, if_neg Bool.false_ne_true, if_neg Bool.false_ne_true,
    h.memory.board]
  exact h.db.contest.read (g := fun c => getStandingsInternal c x.memory.cache.contestant 0 (seesAll cc) .ok)
    fun _ _ => rfl

theorem Inv.standingsInput (h : Inv hidden (s, s')) (k : Client) :
    Inv hidden (step host s (.standings k), step host s' (.standings k)) := by
  obtain ⟨server, clients, sent⟩ := s
  obtain ⟨server', clients', sent'⟩ := s'
  obtain ⟨hclients, hguarded, hserver, hreadable, hsecret⟩ := h
  cases hserver with
  | none => exact ⟨hclients, hguarded, .none, hreadable, hsecret⟩
  | @some x x' hx =>
    simp only [step]
    split
    · refine ⟨hclients, hguarded, .some hx, hreadable, fun address => ?_⟩
      rw [transcript_append, transcript_append]
      refine congrArg₂ _ (hsecret address) ?_
      cases hcc : seesFinal k.cc with
      | false => rw [standings_veiled hx hcc]
      | true => simp [transcript, hcc]
    · exact ⟨hclients, hguarded, .some hx, hreadable, hsecret⟩

variable {m m' : Message} {now : Int} {key : Database.Peer.MessageKey}

theorem Inv.messageInput (h : Inv hidden (s, s')) (htwin : Twin hidden m m') (hdeferred : Deferred m m')
    (hsized : Live.Sized m) (hblinded : Blinded host hidden (step host s (.message ⟨now, key, m⟩))) :
    Inv hidden (step host s (.message ⟨now, key, m⟩), step host s' (.message ⟨now, key, m'⟩)) := by
  obtain ⟨server, clients, sent⟩ := s
  obtain ⟨server', clients', sent'⟩ := s'
  obtain ⟨hclients, hguarded, hserver, hreadable, hsecret⟩ := h
  cases hserver with
  | none => exact ⟨hclients, hguarded, .none, fun _ hx => absurd hx (by simp [step]), hsecret⟩
  | @some x x' hx =>
    have hquiet : SameServer hidden (quiet x) (quiet x') :=
      ⟨hx.db, ⟨hx.memory.timer, hx.memory.board, SameNews.refl []⟩, hx.now⟩
    have hblinds : ∀ y, processAt host (quiet x) ⟨now, key, m⟩ = some y →
        InBlinds hidden (envAt host y.now y.memory.timer) y.db.contest := by
      intro y hy
      apply hblinded y
      simp [step, hy]
    have hbefore : Readable (quiet x).db.contest := hreadable x rfl
    have hrel := processAt_veiled hquiet rfl rfl hbefore htwin hdeferred hblinds
    have hnext : ∀ y, processAt host (quiet x) ⟨now, key, m⟩ = some y → Readable y.db.contest :=
      fun y hy => readable_processAt hbefore hsized hy
    simp only [step, Option.bind_some]
    generalize processAt host (quiet x) ⟨now, key, m⟩ = y at hrel hnext
    generalize processAt host (quiet x') ⟨now, key, m'⟩ = z at hrel
    cases hrel with
    | none => exact ⟨hclients, hguarded, .none, by simp, hsecret⟩
    | @some y y' hy =>
      refine ⟨hclients, hguarded, .some hy, hnext, fun address => ?_⟩
      dsimp only at hclients ⊢
      rw [transcript_append, transcript_append, hclients]
      exact congrArg₂ _ (hsecret address) (transcript_deliver address hguarded hy.memory.news)

theorem Inv.step {p p' : State × State} {l : Input × Input} (h : Inv hidden p) (hcareful : Careful p l)
    (hstep : (machine host hidden).step p l p') : Inv hidden p' := by
  obtain ⟨halike, hsendable, -, rfl, hblinded, -⟩ := hstep
  obtain ⟨i, i'⟩ := l
  cases halike with
  | clients l => exact h.clientsInput hcareful
  | standings k => exact h.standingsInput k
  | message now key htwin => exact h.messageInput htwin hcareful hsendable hblinded

end

/-- In runs of careful steps nobody but who sees the final standings learns anything of the results in the blinds. -/
theorem secret_of_careful (host : Host) (hidden : Set Nat) (p : State × State)
    (h : (machine host hidden).Reach Careful p) : Secret p := by
  have hinv : Inv hidden p := by
    apply h.invariant
    · rintro ⟨s, s'⟩ ⟨hstarted, heq⟩
      cases heq
      exact inv_of_started hstarted
    · exact fun _ _ _ hinv hcareful hstep => hinv.step hcareful hstep
  exact hinv.secret

section

variable {ok : State × State → Input × Input → Prop}

open Scoring Incremental

def starting : State where
  server := some started
  clients := []
  sent := []

theorem started_starting : Started starting := ⟨rfl, rfl, started, rfl, readable_threeSubmissions⟩

def lastBlinded (s : State) : Bool :=
  s.server.all fun x => (x.db.contest.submission[12]?).all fun sub =>
    isBlinded x.memory.timer (x.memory.timer.contestTime x.now (userGroup x.db.contest sub.userId) sub.time)

theorem blinded_of_lastBlinded {s : State} (h : lastBlinded s = true) : Blinded sampleHost {12} s := by
  intro x hx id hid sub hsub
  cases Set.mem_singleton_iff.mp hid
  rw [lastBlinded, hx, Option.all_some, hsub, Option.all_some] at h
  exact h

def judgement (submissionId result : Nat) : Input :=
  .message ⟨20100, (1, 1),
    .mark { submissionId, marker := 6, result, time := 20100, serverId := 1, comment := [], files := [] }⟩

theorem twin_judgement (result result' : Nat) : Alike {12} (judgement 12 result) (judgement 12 result') :=
  .message _ _ (.mark _ result' rfl)

theorem same_judgement (submissionId result : Nat) :
    Alike {12} (judgement submissionId result) (judgement submissionId result) := .message _ _ (.same _)

def teamUnder (key : Nat) : Client := ⟨0, key, Live.team⟩

def after (p : State × State) (l : Input × Input) : State × State := (step sampleHost p.1 l.1, step sampleHost p.2 l.2)

theorem reach_after {p : State × State} {l : Input × Input}
    (h : (machine sampleHost {12}).Reach ok p) (hok : ok p l) (halike : Alike {12} l.1 l.2) (hsendable : Sendable l.1)
    (hsendable' : Sendable l.2) (hblinded : (lastBlinded (after p l).1 && lastBlinded (after p l).2) = true) :
    (machine sampleHost {12}).Reach ok (after p l) := by
  obtain ⟨hfirst, hsecond⟩ := Bool.and_eq_true_iff.mp hblinded
  exact .step h hok ⟨halike, hsendable, hsendable', rfl, blinded_of_lastBlinded hfirst, blinded_of_lastBlinded hsecond⟩

def both (i : Input) : Input × Input := (i, i)

theorem reach_clients (key : Nat) (hok : ok (starting, starting) (both (.clients [teamUnder key]))) :
    (machine sampleHost {12}).Reach ok (after (starting, starting) (both (.clients [teamUnder key]))) := by
  have hblinded : lastBlinded starting = true := by decide +kernel
  exact reach_after (.init ⟨started_starting, rfl⟩) hok (.clients _) trivial trivial
    (Bool.and_eq_true_iff.mpr ⟨hblinded, hblinded⟩)

/-- The judge rejects the last submission in one run only. The team gets the same, while the final standings differ. -/
theorem secret_rejected : ∃ p, (machine sampleHost {12}).Reach Careful p ∧ (transcript 0 p.1.sent).length = 2 ∧
    (p.1.server.bind fun x => (x.memory.cache.final[3]?).map StandingsData.points) = some 1 ∧
    (p.2.server.bind fun x => (x.memory.cache.final[3]?).map StandingsData.points) = some 2 ∧ Secret p := by
  have hguarded : Guarded [teamUnder 3] := by
    intro k hk _
    cases List.mem_singleton.mp hk
    decide
  have hclients : (machine sampleHost {12}).Reach Careful _ := reach_clients 3 hguarded
  have hasked := reach_after hclients (l := both (.standings (teamUnder 3))) trivial (.standings _) trivial trivial
    (by decide +kernel)
  have hrejected := reach_after hasked (l := (judgement 12 1, judgement 12 0))
    (by change 1 = 5 ↔ 0 = 5; decide) (twin_judgement 1 0) trivial trivial (by decide +kernel)
  have haccepted := reach_after hrejected (l := both (judgement 11 0)) Iff.rfl (same_judgement 11 0) trivial trivial
    (by decide +kernel)
  exact ⟨_, haccepted, by decide +kernel, by decide +kernel, by decide +kernel, secret_of_careful _ _ _ haccepted⟩

theorem not_secret_of_length {p : State × State}
    (h : (transcript 0 p.1.sent).length ≠ (transcript 0 p.2.sent).length) : ¬Secret p :=
  fun hsecret => h (congrArg List.length (hsecret 0)).symm

/-- The judge takes back a mark outside the blinds, which changes no row yet, and the team learns of it with the next
mark. A client under the user 0 is sent the final standings. -/
theorem not_secret_deferred :
    (∃ p, (machine sampleHost {12}).Reachable p ∧ (transcript 0 p.1.sent).length = 1 ∧
      (transcript 0 p.2.sent).length = 0 ∧ ¬Secret p) ∧
    ∃ p, (machine sampleHost {12}).Reachable p ∧ (transcript 0 p.1.sent).length = 2 ∧
      (transcript 0 p.2.sent).length = 0 ∧ ¬Secret p := by
  constructor
  · have hclients : (machine sampleHost {12}).Reachable _ := reach_clients 3 trivial
    have hjudge := reach_after hclients (l := both (judgement 11 5)) trivial (same_judgement 11 5) trivial
      trivial (by decide +kernel)
    have hlast :=
      reach_after hjudge (l := (judgement 12 1, judgement 12 5)) trivial (twin_judgement 1 5) trivial trivial
      (by decide +kernel)
    exact ⟨_, hlast, by decide +kernel, by decide +kernel, not_secret_of_length (by decide +kernel)⟩
  · have hclients : (machine sampleHost {12}).Reachable _ := reach_clients 0 trivial
    have hlast :=
      reach_after hclients (l := (judgement 12 1, judgement 12 0)) trivial (twin_judgement 1 0) trivial trivial
      (by decide +kernel)
    exact ⟨_, hlast, by decide +kernel, by decide +kernel, not_secret_of_length (by decide +kernel)⟩

end

end Abacus.Standings.Blinds
