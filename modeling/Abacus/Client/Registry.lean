import Abacus.Client.Totality

/-! # The registry of clients

The connections that listen to each event, and those on which a user has logged in. Whether a connection
may be taken from an event is decided by its permissions at that moment.
-/

namespace Abacus.Client.Registry

open Library Library.Bytes Client.Block Client.Permissions Client.Action Client.Users Client.Contest Client.Process
open Database.Schema Database.People

structure Session where
  cc : Connection
  /-- Whether a user has logged in. -/
  authenticated : Bool

def anonymous : Connection where
  userId := 0
  groupId := 1
  permissions _ := false
  userId_lt := zero_lt_word

def loggedIn (userId groupId userType : Nat) : Connection where
  userId := wrap32 userId
  groupId := wrap32 groupId
  permissions := getPermissions userType
  userId_lt := Nat.mod_lt userId (by decide)

structure State where
  /-- The address of the next connection; no address is used twice. -/
  next : Nat
  alive : Nat → Option Session
  events : Str → Finset Nat
  clients : List (Nat × Nat)

def start : State where
  next := 0
  alive _ := none
  events _ := ∅
  clients := []

namespace State

variable (s : State) (ref : Nat)

def registerClient (x : Session) : State := { s with clients := s.clients ++ [(x.cc.userId, ref)] }

/-- An event that the connection may not listen to keeps it. -/
def deregisterClient (x : Session) : State :=
  { s with
    events := fun event => if mayListen x.cc event then (s.events event).erase ref else s.events event
    clients := s.clients.filter fun p => p ≠ (x.cc.userId, ref) }

def effect (x : Session) : Effect → State
  | .login userId groupId userType =>
    { s with alive := Function.update s.alive ref (some ⟨loggedIn userId groupId userType, true⟩) }
  | .registerClient => s.registerClient ref x
  | .deregisterClient => s.deregisterClient ref x
  | .subscribe event => { s with events := Function.update s.events event (insert ref (s.events event)) }
  | .unsubscribe event => { s with events := Function.update s.events event ((s.events event).erase ref) }
  | _ => s

def effects (s : State) : List Effect → State
  | [] => s
  | e :: es => match s.alive ref with
    | some x => (s.effect ref x e).effects es
    | none => s

end State

inductive Subject
  | auth
  | eventmap
  | subscribetime
  deriving DecidableEq

def Subject.action : Subject → ActionName
  | .auth => .auth
  | .eventmap => .eventmap
  | .subscribetime => .subscribetime

def handler (server : Server) (cc : Connection) (mb : MessageBlock) : Subject → ClientProg MessageBlock
  | .auth => actAuth server cc mb
  | .eventmap => actEventRegistry cc mb
  | .subscribetime => actSubscribeTime cc

theorem answer_action (server : Server) (cc : Connection) (mb : MessageBlock) (subject : Subject) :
    answer server cc mb subject.action = Answer.reply <$> handler server cc mb subject := by
  cases subject <;> rfl

inductive Label
  | connect
  | request (ref : Nat) (subject : Subject) (server : Server) (db : Db) (mb : MessageBlock)
  | close (ref : Nat)

def step (s : State) : Label → Option State
  | .connect => some { s with next := s.next + 1, alive := Function.update s.alive s.next (some ⟨anonymous, false⟩) }
  | .request ref subject server db mb =>
    match s.alive ref with
    | none => none
    | some x =>
      if (permissionTest subject.action).matches x.cc.permissions then
        some (s.effects ref ((handler server x.cc mb subject).run db).2.1)
      else some s
  | .close ref =>
    match s.alive ref with
    | none => none
    | some x => some { s.deregisterClient ref x with alive := Function.update s.alive ref none }

def machine : Machine State Label := .ofFun (fun s => s = start) step

/-- Whoever listens is alive and may listen; a client is alive, and is there once and under the present number of its
user. -/
structure Registered (s : State) : Prop where
  listening : ∀ event, ∀ ref ∈ s.events event, ∃ x, s.alive ref = some x ∧ mayListen x.cc event = true
  client : ∀ p ∈ s.clients, ∃ x, s.alive p.2 = some x
  once : ∀ ref x, s.alive ref = some x → x.authenticated = true →
    (s.clients.filter fun p => p.2 = ref) = [(x.cc.userId, ref)]

/-- No user has the number 0: `nextId` never gives it, and the first administrator is user 1. -/
def Numbered (_ : State) : Label → Prop
  | .request _ _ _ db _ => ∀ id ∈ db.contest.user, wrap32 id ≠ 0
  | .connect | .close _ => True

section

variable (server : Server) (cc : Connection) (mb : MessageBlock) (db : Db)

theorem effects_auth : ((actAuth server cc mb).run db).2.1 = [] ∨ ∃ userId ∈ db.contest.user, ∃ groupId userType,
    ((actAuth server cc mb).run db).2.1 =
      (if cc.userId ≠ 0 then [.deregisterClient, .preemptMarker] else []) ++
        [.login userId groupId userType, .registerClient] := by
  simp only [actAuth, query, Prog.run_read_bind]
  cases hfound : authenticate db.contest (mb.get (str "user"))
    (server.hashpw (mb.get (str "user")) (mb.get (str "pass"))) with
  | none => exact .inl rfl
  | some found =>
    obtain ⟨userId, userType, groupId⟩ := found
    obtain ⟨row, hrow, heq⟩ := Option.map_eq_some_iff.mp hfound
    obtain ⟨rfl, -⟩ := Prod.mk.inj heq
    have hmem : row.1 ∈ db.contest.user :=
      Table.mem_iff_exists_row.mpr ⟨row.2,
        Std.ExtTreeMap.mem_toList_iff_getElem?_eq_some.mp (List.mem_of_find?_eq_some hrow)⟩
    refine .inr ⟨row.1, hmem, groupId, userType, ?_⟩
    simp only [leave]
    split <;> rfl

theorem effects_eventmap : ((actEventRegistry cc mb).run db).2.1 = [] ∨ ∃ event, mayListen cc event = true ∧
    (((actEventRegistry cc mb).run db).2.1 = [.subscribe event] ∨
      ((actEventRegistry cc mb).run db).2.1 = [.unsubscribe event]) := by
  cases hlisten : mayListen cc (mb.get (str "event")) with
  | false =>
    left
    simp only [actEventRegistry, registerEvent, deregisterEvent, hlisten]
    split
    · rfl
    · split <;> rfl
  | true =>
    simp only [actEventRegistry, registerEvent, deregisterEvent, hlisten]
    split
    · exact .inr ⟨_, hlisten, .inl rfl⟩
    · split
      · exact .inr ⟨_, hlisten, .inr rfl⟩
      · exact .inl rfl

theorem effects_subscribetime : ((actSubscribeTime cc).run db).2.1 = [] ∨
    mayListen cc (str "startstop") = true ∧ mayListen cc (str "updateclock") = true ∧
      ((actSubscribeTime cc).run db).2.1 = [.subscribe (str "startstop"), .subscribe (str "updateclock")] := by
  have hstart : mayListen cc (str "startstop") = cc.permissions .auth := rfl
  have hclock : mayListen cc (str "updateclock") = cc.permissions .auth := rfl
  cases hauth : cc.permissions .auth with
  | false =>
    left
    simp only [actSubscribeTime, registerEvent, hstart, hauth]
    rfl
  | true =>
    refine .inr ⟨hstart.trans hauth, hclock.trans hauth, ?_⟩
    simp only [actSubscribeTime, registerEvent, hstart, hclock, hauth]
    rfl

theorem not_mayListen_anonymous (event : Str) : mayListen anonymous event = false := by
  rw [mayListen, Option.any_eq_false]
  intro e he
  have hall : ∀ e ∈ eventMap, e.2.matches (fun _ => false) = false := by decide
  simp [hall e (List.mem_of_find?_eq_some he), anonymous]

end

section

structure Proper (s : State) (ref : Nat) : Prop where
  listening : ∀ event, ref ∈ s.events event → ∃ x, s.alive ref = some x ∧ mayListen x.cc event = true
  entries : (s.clients.filter fun p => p.2 = ref) =
    ((s.alive ref).filter Session.authenticated).toList.map fun x => (x.cc.userId, ref)
  anonymous : ∀ x, s.alive ref = some x → x.authenticated = false → x.cc = Registry.anonymous
  named : ∀ x, s.alive ref = some x → x.authenticated = true → x.cc.userId ≠ 0

structure Same (ref : Nat) (s s' : State) : Prop where
  alive : s'.alive ref = s.alive ref
  listening : ∀ event, ref ∈ s'.events event ↔ ref ∈ s.events event
  entries : (s'.clients.filter fun p => p.2 = ref) = s.clients.filter fun p => p.2 = ref

variable {s s' : State} {ref other : Nat} {x : Session}

theorem Same.trans {s'' : State} (h : Same ref s s') (h' : Same ref s' s'') : Same ref s s'' where
  alive := h'.alive.trans h.alive
  listening event := (h'.listening event).trans (h.listening event)
  entries := h'.entries.trans h.entries

theorem Proper.same (hp : Proper s ref) (h : Same ref s s') : Proper s' ref where
  listening event hmem := h.alive ▸ hp.listening event ((h.listening event).mp hmem)
  entries := by rw [h.entries, h.alive, hp.entries]
  anonymous := h.alive ▸ hp.anonymous
  named := h.alive ▸ hp.named

theorem same_deregisterClient (h : other ≠ ref) : Same ref s (s.deregisterClient other x) where
  alive := rfl
  listening event := by
    rw [State.deregisterClient]
    dsimp only
    split
    · rw [Finset.mem_erase, and_iff_right h.symm]
    · rfl
  entries := by
    rw [State.deregisterClient, List.filter_filter]
    apply List.filter_congr
    intro p _
    rw [Bool.and_eq_left_iff_imp]
    intro hp
    apply decide_eq_true
    rintro rfl
    exact h (of_decide_eq_true hp)

theorem same_effect (h : other ≠ ref) (e : Effect) : Same ref s (s.effect other x e) := by
  cases e with
  | login userId groupId userType => exact ⟨Function.update_of_ne h.symm _ _, fun _ => Iff.rfl, rfl⟩
  | registerClient =>
    refine ⟨rfl, fun _ => Iff.rfl, ?_⟩
    rw [State.effect, State.registerClient, List.filter_append, List.filter_cons_of_neg (by simpa using h),
      List.filter_nil, List.append_nil]
  | deregisterClient => exact same_deregisterClient h
  | subscribe event =>
    refine ⟨rfl, fun event' => ?_, rfl⟩
    rw [State.effect]
    dsimp only
    obtain rfl | hne := eq_or_ne event' event
    · rw [Function.update_self, Finset.mem_insert, or_iff_right h.symm]
    · rw [Function.update_of_ne hne]
  | unsubscribe event =>
    refine ⟨rfl, fun event' => ?_, rfl⟩
    rw [State.effect]
    dsimp only
    obtain rfl | hne := eq_or_ne event' event
    · rw [Function.update_self, Finset.mem_erase, and_iff_right h.symm]
    · rw [Function.update_of_ne hne]
  | peer | sendToServers | setCounter | enqueueMarker | preemptMarker | notifyMarked =>
    exact ⟨rfl, fun _ => Iff.rfl, rfl⟩

theorem same_effects (h : other ≠ ref) (es : List Effect) : Same ref s (s.effects other es) := by
  induction es generalizing s with
  | nil => exact ⟨rfl, fun _ => Iff.rfl, rfl⟩
  | cons e es ih =>
    rw [State.effects]
    split
    · exact (same_effect h e).trans ih
    · exact ⟨rfl, fun _ => Iff.rfl, rfl⟩

theorem next_effects (es : List Effect) : (s.effects ref es).next = s.next := by
  induction es generalizing s with
  | nil => rfl
  | cons e es ih =>
    rw [State.effects]
    split
    · rw [ih]
      cases e <;> rfl
    · rfl

structure Cleared (s : State) (ref : Nat) : Prop where
  listening : ∀ event, ref ∉ s.events event
  entries : (s.clients.filter fun p => p.2 = ref) = []

/-- As the permissions and the number are those with which it was registered, a connection is taken from every set. -/
theorem Proper.cleared (hp : Proper s ref) (hx : s.alive ref = some x) : Cleared (s.deregisterClient ref x) ref where
  listening event hmem := by
    rw [State.deregisterClient] at hmem
    dsimp only at hmem
    split at hmem
    · exact Finset.notMem_erase ref _ hmem
    · next hlisten =>
      obtain ⟨x', hx', hmay⟩ := hp.listening event hmem
      cases hx.symm.trans hx'
      exact hlisten hmay
  entries := by
    rw [State.deregisterClient, List.filter_filter, List.filter_eq_nil_iff]
    intro p hmem hboth
    obtain ⟨href, hne⟩ := Bool.and_eq_true_iff.mp hboth
    have hentry : p ∈ s.clients.filter fun p => p.2 = ref := List.mem_filter.mpr ⟨hmem, href⟩
    rw [hp.entries, hx] at hentry
    obtain ⟨x', hx', rfl⟩ := List.mem_map.mp hentry
    obtain ⟨hsame, -⟩ := Option.filter_eq_some_iff.mp (Option.mem_toList.mp hx')
    cases hsame
    exact of_decide_eq_true hne rfl

theorem Proper.cleared_of_anonymous (hp : Proper s ref) (hx : s.alive ref = some x) (hnew : x.authenticated = false) :
    Cleared s ref where
  listening event hmem := by
    obtain ⟨x', hx', hmay⟩ := hp.listening event hmem
    cases hx.symm.trans hx'
    rw [hp.anonymous x hx hnew, not_mayListen_anonymous] at hmay
    cases hmay
  entries := by
    rw [hp.entries, hx, Option.filter_some, hnew]
    rfl

theorem Cleared.login (h : Cleared s ref) {userId groupId userType : Nat} (hx : s.alive ref = some x)
    (hnumber : wrap32 userId ≠ 0) :
    Proper (s.effects ref [.login userId groupId userType, .registerClient]) ref := by
  have halive : (s.effect ref x (.login userId groupId userType)).alive ref =
      some ⟨loggedIn userId groupId userType, true⟩ :=
    Function.update_self ..
  have hdone : s.effects ref [.login userId groupId userType, .registerClient] =
      (s.effect ref x (.login userId groupId userType)).registerClient ref ⟨loggedIn userId groupId userType,
          true⟩ := by
    rw [State.effects, hx]
    dsimp only
    rw [State.effects, halive]
    rfl
  rw [hdone]
  refine ⟨fun event hmem => absurd hmem (h.listening event), ?_, fun y hy hnew => ?_, fun y hy _ => ?_⟩
  · have hkept : ((s.effect ref x (.login userId groupId userType)).registerClient ref
        ⟨loggedIn userId groupId userType, true⟩).alive ref = some ⟨loggedIn userId groupId userType, true⟩ := halive
    have hclients : (s.effect ref x (.login userId groupId userType)).clients = s.clients := rfl
    rw [hkept, State.registerClient, List.filter_append, hclients, h.entries]
    simp [Option.filter_some]
  · cases halive.symm.trans hy
    cases hnew
  · cases halive.symm.trans hy
    exact hnumber

theorem Proper.auth (hp : Proper s ref) (hx : s.alive ref = some x) {userId groupId userType : Nat}
    (hnumber : wrap32 userId ≠ 0) :
    Proper (s.effects ref ((if x.cc.userId ≠ 0 then [.deregisterClient, .preemptMarker] else []) ++
      [.login userId groupId userType, .registerClient])) ref := by
  cases hauth : x.authenticated with
  | false =>
    have hzero : x.cc.userId = 0 := by
      rw [hp.anonymous x hx hauth]
      rfl
    rw [if_neg (not_not_intro hzero), List.nil_append]
    exact (hp.cleared_of_anonymous hx hauth).login hx hnumber
  | true =>
    rw [if_pos (hp.named x hx hauth)]
    have hleft : s.effects ref ([.deregisterClient, .preemptMarker] ++
        [.login userId groupId userType, .registerClient]) =
        (s.deregisterClient ref x).effects ref [.login userId groupId userType, .registerClient] := by
      have halive : (s.deregisterClient ref x).alive ref = some x := hx
      rw [List.cons_append, State.effects, hx]
      dsimp only
      rw [State.effect, List.cons_append, State.effects, halive]
      rfl
    rw [hleft]
    exact (hp.cleared hx).login hx hnumber

theorem Proper.subscribe (hp : Proper s ref) (hx : s.alive ref = some x) {event : Str}
    (hlisten : mayListen x.cc event = true) : Proper (s.effect ref x (.subscribe event)) ref := by
  refine ⟨fun event' hmem => ?_, hp.entries, hp.anonymous, hp.named⟩
  rw [State.effect] at hmem
  dsimp only at hmem
  obtain rfl | hne := eq_or_ne event' event
  · exact ⟨x, hx, hlisten⟩
  · rw [Function.update_of_ne hne] at hmem
    exact hp.listening event' hmem

theorem Proper.unsubscribe (hp : Proper s ref) (event : Str) : Proper (s.effect ref x (.unsubscribe event)) ref := by
  refine ⟨fun event' hmem => ?_, hp.entries, hp.anonymous, hp.named⟩
  rw [State.effect] at hmem
  dsimp only at hmem
  obtain rfl | hne := eq_or_ne event' event
  · rw [Function.update_self] at hmem
    exact hp.listening event' (Finset.mem_of_mem_erase hmem)
  · rw [Function.update_of_ne hne] at hmem
    exact hp.listening event' hmem

theorem effects_singleton (hx : s.alive ref = some x) (e : Effect) : s.effects ref [e] = s.effect ref x e := by
  rw [State.effects, hx]
  rfl

theorem Proper.request (hp : Proper s ref) (hx : s.alive ref = some x) {server : Server} {db : Db} {mb : MessageBlock}
    (hnumbered : ∀ id ∈ db.contest.user, wrap32 id ≠ 0) (subject : Subject) :
    Proper (s.effects ref ((handler server x.cc mb subject).run db).2.1) ref := by
  cases subject with
  | auth =>
    rw [handler]
    obtain hnone | ⟨userId, hmem, groupId, userType, hes⟩ := effects_auth server x.cc mb db
    · rw [hnone]
      exact hp
    · rw [hes]
      exact hp.auth hx (hnumbered userId hmem)
  | eventmap =>
    rw [handler]
    obtain hnone | ⟨event, hlisten, hes | hes⟩ := effects_eventmap x.cc mb db
    · rw [hnone]
      exact hp
    · rw [hes, effects_singleton hx]
      exact hp.subscribe hx hlisten
    · rw [hes, effects_singleton hx]
      exact hp.unsubscribe event
  | subscribetime =>
    rw [handler]
    obtain hnone | ⟨hstart, hclock, hes⟩ := effects_subscribetime x.cc db
    · rw [hnone]
      exact hp
    · have halive : (s.effect ref x (.subscribe (str "startstop"))).alive ref = some x := hx
      rw [hes, State.effects, hx]
      dsimp only
      rw [effects_singleton halive]
      exact (hp.subscribe hx hstart).subscribe halive hclock

theorem Proper.close (hp : Proper s ref) (hx : s.alive ref = some x) :
    Proper { s.deregisterClient ref x with alive := Function.update s.alive ref none } ref := by
  have hcleared := hp.cleared hx
  have hgone : Function.update s.alive ref none ref = none := Function.update_self ..
  refine ⟨fun event hmem => absurd hmem (hcleared.listening event), ?_, fun y hy => ?_, fun y hy => ?_⟩
  · dsimp only
    rw [hcleared.entries, hgone]
    rfl
  · cases hgone.symm.trans hy
  · cases hgone.symm.trans hy

structure Inv (s : State) : Prop where
  proper : ∀ ref, Proper s ref
  fresh : ∀ ref, s.next ≤ ref → s.alive ref = none

theorem inv_start : Inv start := by
  refine ⟨fun ref => ⟨fun event hmem => absurd hmem (Finset.notMem_empty ref), rfl, ?_, ?_⟩, fun _ _ => rfl⟩
  · rintro x ⟨⟩
  · rintro x ⟨⟩

theorem Proper.connect (hp : Proper s ref) (hx : s.alive ref = none) :
    Proper
      { s with next := s.next + 1, alive := Function.update s.alive ref (some ⟨Registry.anonymous, false⟩) } ref := by
  have hnew : Function.update s.alive ref (some (Session.mk Registry.anonymous false)) ref =
      some ⟨Registry.anonymous, false⟩ :=
    Function.update_self ..
  refine ⟨fun event hmem => ?_, ?_, fun y hy _ => ?_, fun y hy hauth => ?_⟩
  · obtain ⟨y, hy, -⟩ := hp.listening event hmem
    cases hx.symm.trans hy
  · dsimp only
    rw [hnew, hp.entries, hx]
    rfl
  · cases hnew.symm.trans hy
    rfl
  · cases hnew.symm.trans hy
    cases hauth

theorem Inv.step {l : Label} (h : Inv s) (hnumbered : Numbered s l) (hstep : step s l = some s') : Inv s' := by
  cases l with
  | connect =>
    cases hstep
    refine ⟨fun ref => ?_, fun ref href => ?_⟩
    · obtain rfl | hne := eq_or_ne ref s.next
      · exact (h.proper s.next).connect (h.fresh s.next (Nat.le_refl _))
      · exact (h.proper ref).same ⟨Function.update_of_ne hne _ _, fun _ => Iff.rfl, rfl⟩
    · have hlt : s.next + 1 ≤ ref := href
      dsimp only
      rw [Function.update_of_ne (by omega)]
      exact h.fresh ref (by omega)
  | request ref subject server db mb =>
    rw [Registry.step] at hstep
    split at hstep
    · cases hstep
    · next x hx =>
      split at hstep
      · cases hstep
        refine ⟨fun ref' => ?_, fun ref' href => ?_⟩
        · obtain rfl | hne := eq_or_ne ref' ref
          · exact (h.proper ref').request hx hnumbered subject
          · exact (h.proper ref').same (same_effects hne.symm _)
        · rw [next_effects] at href
          have hfree := h.fresh ref' href
          have hne : ref ≠ ref' := by
            rintro rfl
            cases hx.symm.trans hfree
          rw [(same_effects hne _).alive, hfree]
      · cases hstep
        exact h
  | close ref =>
    rw [Registry.step] at hstep
    split at hstep
    · cases hstep
    · next x hx =>
      cases hstep
      refine ⟨fun ref' => ?_, fun ref' href => ?_⟩
      · obtain rfl | hne := eq_or_ne ref' ref
        · exact (h.proper ref').close hx
        · exact (h.proper ref').same ⟨Function.update_of_ne hne _ _, (same_deregisterClient hne.symm).listening,
            (same_deregisterClient hne.symm).entries⟩
      · dsimp only
        obtain rfl | hne := eq_or_ne ref' ref
        · exact Function.update_self ..
        · rw [Function.update_of_ne hne]
          exact h.fresh ref' href

theorem Inv.registered (h : Inv s) : Registered s where
  listening event ref hmem := (h.proper ref).listening event hmem
  client p hp := by
    have hentry : p ∈ s.clients.filter fun q => q.2 = p.2 := List.mem_filter.mpr ⟨hp, decide_eq_true rfl⟩
    rw [(h.proper p.2).entries] at hentry
    obtain ⟨x, hx, -⟩ := List.mem_map.mp hentry
    exact ⟨x, (Option.filter_eq_some_iff.mp (Option.mem_toList.mp hx)).1⟩
  once ref x hx hauth := by
    rw [(h.proper ref).entries, hx, Option.filter_some, hauth]
    rfl

end

theorem registered_of_numbered (s : State) (h : machine.Reach Numbered s) : Registered s := by
  have hinv : Inv s := by
    apply h.invariant
    · rintro _ rfl
      exact inv_start
    · exact fun _ _ _ hinv hnumbered hstep => hinv.step hnumbered hstep
  exact hinv.registered

def account (name : String) (type : Nat) : User where
  username := str name
  friendlyname := str name
  password := str name
  type := type
  group := 1
  bonusPoints := 0
  bonusSeconds := 0

def accounts : Db where
  peer := .empty
  contest := { Contest.empty with
    user := (∅ : Table Nat User)
      |>.insert 5 (account "team" 3)
      |>.insert 6 (account "marker" 4)
      |>.insert 7 (account "root" 1) }

def logIn (name : String) : Label :=
  .request 0 .auth Totality.server accounts
    (((MessageBlock.ofAction (str "auth")).set (str "user") (str name)).set (str "pass") (str name))

def listen (event : String) : Label :=
  .request 0 .eventmap Totality.server accounts
    (((MessageBlock.ofAction (str "eventmap")).set (str "action") (str "subscribe")).set (str "event") (str event))

/-- A contestant listens to the standings, and a marker logs in on the same connection. -/
theorem registered_marker :
    ∃ s, machine.Reach Numbered s ∧ s.clients = [(6, 0)] ∧ s.events (str "updatestandings") = ∅ ∧
    Registered s := by
  have hplay : ∃ s,
      play step (fun _ _ => True) start [.connect, logIn "team", listen "updatestandings", logIn "marker"] =
      some s ∧ s.clients = [(6, 0)] ∧ s.events (str "updatestandings") = ∅ := by decide +kernel
  obtain ⟨s, hplay, hclients, hevents⟩ := hplay
  have hnumbered : ∀ id ∈ accounts.contest.user, wrap32 id ≠ 0 := by
    intro id hid
    have hkeys : ∀ id ∈ accounts.contest.user.keys, wrap32 id ≠ 0 := by decide
    exact hkeys id (Std.ExtTreeMap.mem_keys.mpr hid)
  have hreach : machine.Reach Numbered s := by
    refine Machine.Reach.playAll (fun l hl s => ?_) (.init rfl) hplay
    simp only [List.mem_cons, List.not_mem_nil, or_false] at hl
    obtain rfl | rfl | rfl | rfl := hl
    · trivial
    · exact hnumbered
    · exact hnumbered
    · exact hnumbered
  exact ⟨s, hreach, hclients, hevents, registered_of_numbered s hreach⟩

end Abacus.Client.Registry
