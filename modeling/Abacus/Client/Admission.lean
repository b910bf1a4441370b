import Abacus.Client.Numbers
import Abacus.Client.Users

/-! # Admission of servers

The master gives each new server the next id. Numbers are told apart by these ids modulo
`ID_GRANULARITY`, but the handler does not stop at the last id for which that works.
-/

namespace Abacus.Client.Admission

open Library Library.Bytes Library.Machine Database.Schema Database.Peer
open Peer.Classes Peer.Process Peer.Statements Client.Block Client.Action Client.Numbers Client.Users

structure Master where
  server : Server
  db : Db
  /-- The messages that are not processed yet, the oldest first. -/
  waiting : List (MessageKey × MessageCreateServer)
  accepted : List Nat

inductive Label
  | request (mb : MessageBlock)
  | process (env : Env)
  | restart

def countersAfter (counters : Counter → Nat) : List Effect → Counter → Nat
  | [] => counters
  | .setCounter k id :: effects => countersAfter (Function.update counters k id) effects
  | _ :: effects => countersAfter counters effects

theorem countersAfter_setCounter (counters : Counter → Nat) (k : Counter) (id : Nat) :
    countersAfter counters [.setCounter k id] k = id := by
  rw [countersAfter, countersAfter, Function.update_self]

def step (s : Master) : Label → Option Master
  | .request mb =>
    let outcome := (actAddServer s.server mb).run s.db
    let server := { s.server with counters := countersAfter s.server.counters outcome.2.1 }
    match outcome.2.2 with
    | .error _ => none
    | .ok (.message (.createServer m) _) =>
      match (makeMessage server (.createServer m)).result s.db with
      | .error _ => none
      | .ok none => some { s with server }
      | .ok (some key) =>
        some {
          server
          db := (makeMessage server (.createServer m)).final s.db
          waiting := s.waiting ++ [(key, m)]
          accepted := m.serverId :: s.accepted }
    | .ok _ => some { s with server }
  | .process env =>
    match s.waiting with
    | [] => none
    | (key, m) :: waiting => some { s with db := (Peer.Process.process env key (.createServer m)).final s.db, waiting }
  | .restart =>
    if s.waiting = [] then
      some { s with server := { s.server with localId := 0, localId_lt := zero_lt_word, counters := fun _ => 0 } }
    else none

/-- The master is the only server. -/
def Starting (s : Master) : Prop :=
  s.db.peer.server = (∅ : Table Nat Str).insert 1 s.server.name ∧ s.server.localId = 0 ∧
    (∀ k, s.server.counters k = 0) ∧ s.waiting = [] ∧ s.accepted = []

def machine : Machine Master Label := ofFun Starting step

/-- The servers have different classes, and none has the class 0. -/
def Apart (s : Master) : Prop :=
  ((1 :: s.accepted).map (· % idGranularity)).Nodup ∧ ∀ id ∈ 1 :: s.accepted, id % idGranularity ≠ 0

def Roomy (s : Master) : Label → Prop
  | .request _ => current s.server s.db .server < idGranularity - 1
  | _ => True

instance (s : Master) : (l : Label) → Decidable (Roomy s l)
  | .request _ => inferInstanceAs (Decidable (current s.server s.db .server < idGranularity - 1))
  | .process _ | .restart => isTrue trivial

section

variable {s : Server} {db : Db} {m : MessageCreateServer} {t : Table Nat Str}

theorem run_nextId (k : Counter) : (nextId s k).run db =
    match nextNumber s db k with
    | none => (db, [], .ok 4294967295)
    | some id => (db, [.setCounter k id], .ok id) := by
  rw [nextId, Prog.run_read_bind]
  cases nextNumber s db k with
  | none | some id => rfl

theorem run_actAddServer (hself : getId s db.peer = 1) (mb : MessageBlock) :
    (∃ effects r, (actAddServer s mb).run db = (db, effects, .ok (.reply r)) ∧
      (effects = [] ∨ ∃ id, nextNumber s db .server = some id ∧ effects = [.setCounter .server id])) ∨
    ∃ id name attribs r, nextNumber s db .server = some id ∧ Action.serverId db.peer name = 0 ∧
      (actAddServer s mb).run db =
        (db, [.setCounter .server id], .ok (.message (.createServer { serverId := id, name, attribs }) r)) := by
  unfold actAddServer
  rw [Prog.run_read_bind, hself, if_neg (not_not.mpr rfl)]
  dsimp only
  split
  · exact .inl ⟨_, _, rfl, .inl rfl⟩
  rw [Prog.run_read_bind]
  split
  · exact .inl ⟨_, _, rfl, .inl rfl⟩
  next hfree =>
  rw [Prog.run_bind, run_nextId]
  cases hnext : nextNumber s db .server with
  | none => exact .inl ⟨_, _, rfl, .inl rfl⟩
  | some id =>
    dsimp only
    split
    · exact .inl ⟨_, _, rfl, .inr ⟨id, rfl, rfl⟩⟩
    · exact .inr ⟨id, _, _, _, rfl, not_not.mp hfree, rfl⟩

theorem server_makeMessage (s : Server) (m : Message) (db : Db) :
    (Prog.final (makeMessage s m) db).peer.server = db.peer.server := by
  unfold Action.makeMessage
  split
  · rfl
  · split
    · rw [Prog.final_read_bind]
      dsimp only
      rw [Prog.final_set_bind]
      have hserver : (Peer.Store.makeMessage (getId s db.peer) (time32 s) s.fresh db.peer m).1.server =
          db.peer.server := by
        obtain hmade | ⟨t, key, row, hmade, -, -, hadds⟩ :=
          makeMessage_cases (getId s db.peer) db.peer (time32 s) s.fresh m
        · rw [hmade]
        · rw [hmade]
          exact hadds.server
      split
      · exact hserver
      · unfold makeBlob
        split <;> exact hserver
    · rfl

theorem server_executes (hmem : m.serverId ∈ t) (w : Db → Option Db) (hw : Executes .any (.createServer m) w)
    (d d' : Db) (hd : d.peer.server = t) (h : w d = some d') : d'.peer.server = t := by
  obtain ⟨f, -, rfl⟩ | ⟨f, hf, rfl⟩ := hw
  · obtain ⟨c, -, rfl⟩ := Option.map_eq_some_iff.mp h
    exact hd
  · obtain ⟨t', ht', rfl⟩ := Option.map_eq_some_iff.mp h
    cases hf with
    | insertServer =>
      obtain ⟨hfree, rfl⟩ := Table.map_insertNew.mp ht'
      exact absurd (hd ▸ hmem) hfree
    | insertNoAck =>
      dsimp only [insertNoAck] at ht'
      split at ht'
      · cases ht'
        exact hd
      · cases ht'

theorem server_intProcess (env : Env) (m : MessageCreateServer) (db : Db) :
    ((MessageCreateServer.intProcess env m).final db).peer.server =
      (Table.insertNew db.peer.server m.serverId m.name).getD db.peer.server := by
  rw [MessageCreateServer.intProcess, Prog.final_write_bind]
  cases hinsert : Table.insertNew db.peer.server m.serverId m.name with
  | none =>
    have hnone : onPeer (fun t => insertServer t m.serverId m.name) db = none := by
      rw [onPeer, insertServer, hinsert]
      rfl
    rw [hnone]
    rfl
  | some server =>
    have hsome : onPeer (fun t => insertServer t m.serverId m.name) db =
        some { db with peer := { db.peer with server } } := by
      rw [onPeer, insertServer, hinsert]
      rfl
    rw [hsome]
    obtain ⟨-, rfl⟩ := Table.insertNew_eq_some.mp hinsert
    have hmem : m.serverId ∈ db.peer.server.insert m.serverId m.name := Std.ExtTreeMap.mem_insert_self
    exact Prog.Limits.final (I := fun d : Db => d.peer.server = db.peer.server.insert m.serverId m.name)
      (server_executes hmem) ((limits_createServer env m).2 true) rfl

theorem server_process (env : Env) (key : MessageKey) (m : MessageCreateServer) (db : Db) :
    ((Peer.Process.process env key (.createServer m)).final db).peer.server =
      (Table.insertNew db.peer.server m.serverId m.name).getD db.peer.server := by
  rw [← server_intProcess env m db, Peer.Process.process, Prog.final_bind]
  cases (intProcess env (.createServer m)).result db with
  | error e => rfl
  | ok status => cases status <;> rfl

theorem mem_getD_insertNew {m : MessageCreateServer} : m.serverId ∈ (Table.insertNew t m.serverId m.name).getD t :=
  Table.mem_getD_insertNew.mpr (.inl rfl)

end

section

variable {s : Server} {t : PeerTables}

/-- The name of the master belongs to the first server alone. -/
def Known (name : Str) (t : Table Nat Str) : Prop := ∀ id, t[id]? = some name ↔ id = 1

theorem Known.mem {name : Str} {t : Table Nat Str} (h : Known name t) : 1 ∈ t :=
  Table.mem_iff_exists_row.mpr ⟨name, (h 1).mpr rfl⟩

theorem Known.inserted {name name' : Str} {t : Table Nat Str} (h : Known name t) (hname : name' ≠ name) (id : Nat) :
    Known name ((Table.insertNew t id name').getD t) := by
  cases hinsert : Table.insertNew t id name' with
  | none => exact h
  | some t' =>
    obtain ⟨hfree, rfl⟩ := Table.insertNew_eq_some.mp hinsert
    intro id'
    rw [Option.getD_some, Table.getElem?_insert_row]
    split
    · next heq =>
      refine iff_of_false (fun hsame => hname (Option.some.inj hsame)) ?_
      rintro rfl
      exact hfree (heq ▸ h.mem)
    · exact h id'

theorem serverId_of_known {name : Str} (h : Known name t.server) : Action.serverId t name = 1 := by
  have hfirst : t.server[1]? = some name := (h 1).mpr rfl
  have hmem : (1, name) ∈ t.server.toList := Std.ExtTreeMap.mem_toList_iff_getElem?_eq_some.mpr hfirst
  rw [Action.serverId]
  cases hfind : t.server.toList.find? fun r => r.2 = name with
  | none => exact absurd (decide_eq_true rfl) (List.find?_eq_none.mp hfind (1, name) hmem)
  | some r =>
    obtain ⟨id, n⟩ := r
    have hname := List.find?_some hfind
    obtain rfl : n = name := of_decide_eq_true hname
    have hrow := Std.ExtTreeMap.mem_toList_iff_getElem?_eq_some.mp (List.mem_of_find?_eq_some hfind)
    exact (h id).mp hrow

theorem getId_of_known (h : Known s.name t.server) (hid : s.localId = 0 ∨ s.localId = 1) : getId s t = 1 := by
  rw [getId, serverId_of_known h]
  obtain hid | hid := hid
  · rw [hid]
    rfl
  · rw [hid]
    rfl

end

section

/-- Every accepted server is in the table or on its way there, and counted in memory or in the table. -/
structure Admitted (s : Master) : Prop where
  known : Known s.server.name s.db.peer.server
  localId : s.server.localId = 0 ∨ s.server.localId = 1
  names : ∀ x ∈ s.waiting, x.2.name ≠ s.server.name
  listed : ∀ id ∈ s.accepted, id ∈ s.db.peer.server ∨ ∃ x ∈ s.waiting, x.2.serverId = id
  unused : s.server.counters .server = 0 → s.waiting = []
  counted : s.server.counters .server ≠ 0 →
    1 ≤ s.server.counters .server ∧ ∀ id ∈ s.accepted, id ≤ s.server.counters .server
  range : ∀ id ∈ s.accepted, 1 < id ∧ id < idGranularity
  nodup : s.accepted.Nodup

variable {s s' : Master}

theorem Admitted.le_current (h : Admitted s) :
    1 ≤ current s.server s.db .server ∧ ∀ id ∈ s.accepted, id ≤ current s.server s.db .server := by
  rw [current]
  split
  · next hzero =>
    refine ⟨le_maxId_server h.known.mem, fun id hid => ?_⟩
    obtain hrow | ⟨x, hx, -⟩ := h.listed id hid
    · exact le_maxId_server hrow
    · rw [h.unused hzero] at hx
      cases hx
  · next hne => exact h.counted hne

theorem Admitted.apart (h : Admitted s) : Apart s := by
  have hrange : ∀ id ∈ 1 :: s.accepted, 0 < id ∧ id < idGranularity :=
    List.forall_mem_cons.mpr ⟨by decide, fun id hid => ⟨Nat.zero_lt_of_lt (h.range id hid).1, (h.range id hid).2⟩⟩
  have hmod : (1 :: s.accepted).map (· % idGranularity) = 1 :: s.accepted := by
    refine (List.map_congr_left fun id hid => ?_).trans (List.map_id _)
    exact Nat.mod_eq_of_lt (hrange id hid).2
  constructor
  · rw [hmod]
    refine List.nodup_cons.mpr ⟨fun hmem => ?_, h.nodup⟩
    exact lt_irrefl 1 (h.range 1 hmem).1
  · intro id hid
    rw [Nat.mod_eq_of_lt (hrange id hid).2]
    exact (hrange id hid).1.ne'

theorem Admitted.processed (h : Admitted s) {key : MessageKey} {m : MessageCreateServer}
    {waiting : List (MessageKey × MessageCreateServer)} (hwaiting : s.waiting = (key, m) :: waiting) (env : Env) :
    Admitted { s with db := (Peer.Process.process env key (.createServer m)).final s.db, waiting } := by
  have hname : m.name ≠ s.server.name := h.names (key, m) (hwaiting ▸ List.mem_cons_self)
  have hserver := server_process env key m s.db
  have hkept : ∀ id ∈ s.db.peer.server,
      id ∈ (Table.insertNew s.db.peer.server m.serverId m.name).getD s.db.peer.server :=
    fun id hid => Table.mem_getD_insertNew.mpr (.inr hid)
  constructor
  case known =>
    dsimp only
    rw [hserver]
    exact h.known.inserted hname m.serverId
  case localId => exact h.localId
  case names => exact fun x hx => h.names x (hwaiting ▸ List.mem_cons_of_mem _ hx)
  case listed =>
    dsimp only
    rw [hserver]
    intro id hid
    obtain hrow | ⟨x, hx, rfl⟩ := h.listed id hid
    · exact .inl (hkept id hrow)
    · rw [hwaiting] at hx
      obtain rfl | hx := List.mem_cons.mp hx
      · exact .inl mem_getD_insertNew
      · exact .inr ⟨x, hx, rfl⟩
  case unused =>
    intro hzero
    have hempty := h.unused hzero
    rw [hwaiting] at hempty
    cases hempty
  case counted => exact h.counted
  case range => exact h.range
  case nodup => exact h.nodup

theorem Admitted.restarted (h : Admitted s) (hwaiting : s.waiting = []) :
    Admitted
      { s with server := { s.server with localId := 0, localId_lt := zero_lt_word, counters := fun _ => 0 } } where
  known := h.known
  localId := .inl rfl
  names := h.names
  listed := h.listed
  unused _ := hwaiting
  counted hne := absurd rfl hne
  range := h.range
  nodup := h.nodup

theorem Admitted.counted_on (h : Admitted s) {id : Nat} (hid : current s.server s.db .server + 1 = id) :
    Admitted
      { s with server := { s.server with counters := countersAfter s.server.counters [.setCounter .server id] } } := by
  have hcounter := countersAfter_setCounter s.server.counters .server id
  obtain ⟨hfirst, hle⟩ := h.le_current
  refine ⟨h.known, h.localId, h.names, h.listed, fun hzero => ?_, fun _ => ⟨?_, fun id' hid' => ?_⟩, h.range, h.nodup⟩
  · change countersAfter s.server.counters [.setCounter .server id] .server = 0 at hzero
    omega
  · change 1 ≤ countersAfter s.server.counters [.setCounter .server id] .server
    omega
  · change id' ≤ countersAfter s.server.counters [.setCounter .server id] .server
    have hle' := hle id' hid'
    omega

theorem Admitted.accepted_next (h : Admitted s) {id : Nat} (hid : s.server.counters .server = id)
    (hfresh : ∀ id' ∈ s.accepted, id' < id) (hrange : 1 < id ∧ id < idGranularity) {key : MessageKey}
    {m : MessageCreateServer} (hm : m.serverId = id) (hname : m.name ≠ s.server.name) {db : Db}
    (hdb : db.peer.server = s.db.peer.server) :
    Admitted { s with db, waiting := s.waiting ++ [(key, m)], accepted := id :: s.accepted } := by
  constructor
  case known => exact hdb ▸ h.known
  case localId => exact h.localId
  case names =>
    refine List.forall_mem_append.mpr ⟨h.names, ?_⟩
    exact List.forall_mem_singleton.mpr hname
  case listed =>
    refine List.forall_mem_cons.mpr ⟨.inr ⟨(key, m), List.mem_append_right _ List.mem_cons_self, hm⟩,
      fun id' hid' => ?_⟩
    obtain hrow | ⟨x, hx, hxid⟩ := h.listed id' hid'
    · exact .inl (hdb ▸ hrow)
    · exact .inr ⟨x, List.mem_append_left _ hx, hxid⟩
  case unused =>
    intro hzero
    exact absurd (hid.symm.trans hzero) (by omega)
  case counted =>
    intro hne
    refine ⟨(h.counted hne).1, List.forall_mem_cons.mpr ⟨hid.ge, (h.counted hne).2⟩⟩
  case range => exact List.forall_mem_cons.mpr ⟨hrange, h.range⟩
  case nodup =>
    refine List.nodup_cons.mpr ⟨fun hmem => ?_, h.nodup⟩
    exact lt_irrefl id (hfresh id hmem)

theorem Admitted.request (h : Admitted s) {mb : MessageBlock} (hok : Roomy s (.request mb))
    (hstep : step s (.request mb) = some s') : Admitted s' := by
  obtain ⟨hfirst, hle⟩ := h.le_current
  have hlt : current s.server s.db .server < 15 := hok
  have hnext : nextNumber s.server s.db .server = some (current s.server s.db .server + 1) :=
    nextNumber_server (by omega) (by omega)
  have hself := getId_of_known h.known h.localId
  dsimp only [step] at hstep
  obtain ⟨effects, r, hrun, heffects⟩ | ⟨id, name, attribs, r, hid, hfree, hrun⟩ := run_actAddServer hself mb
  · rw [hrun] at hstep
    cases hstep
    obtain rfl | ⟨id, hid, rfl⟩ := heffects
    · exact h
    · exact h.counted_on (Option.some.inj (hnext.symm.trans hid))
  · rw [hrun] at hstep
    obtain rfl := Option.some.inj (hnext.symm.trans hid)
    have hcounted := h.counted_on rfl
    dsimp only at hstep
    split at hstep
    · cases hstep
    · cases hstep
      exact hcounted
    · next key hkey =>
      cases hstep
      have hname : name ≠ s.server.name := by
        rintro rfl
        rw [serverId_of_known h.known] at hfree
        cases hfree
      have hrange : 1 < current s.server s.db .server + 1 ∧ current s.server s.db .server + 1 < idGranularity :=
        ⟨Nat.lt_succ_of_le hfirst, Nat.succ_lt_succ hlt⟩
      have hcounter := countersAfter_setCounter s.server.counters .server (current s.server s.db .server + 1)
      refine hcounted.accepted_next hcounter (fun id' hid' => ?_) hrange rfl hname ?_
      · exact Nat.lt_succ_of_le (hle id' hid')
      · exact server_makeMessage _ _ _

theorem Admitted.step (h : Admitted s) {l : Label} (hok : Roomy s l) (hstep : step s l = some s') : Admitted s' := by
  cases l with
  | request mb => exact h.request hok hstep
  | process env =>
    rw [Admission.step] at hstep
    split at hstep
    · cases hstep
    · next key m waiting hwaiting =>
      cases hstep
      exact h.processed hwaiting env
  | restart =>
    rw [Admission.step, Option.ite_none_right_eq_some] at hstep
    obtain ⟨hwaiting, hstep⟩ := hstep
    cases hstep
    exact h.restarted hwaiting

theorem admitted_starting (h : Starting s) : Admitted s := by
  obtain ⟨hserver, hid, hcounters, hwaiting, haccepted⟩ := h
  constructor
  case known =>
    intro id
    rw [hserver, Table.getElem?_insert_row]
    split
    · next heq => exact iff_of_true rfl heq.symm
    · next hne => exact iff_of_false (by simp) fun heq => hne heq.symm
  case localId => exact .inl hid
  case names =>
    rw [hwaiting]
    exact nofun
  case listed =>
    rw [haccepted]
    exact nofun
  case unused => exact fun _ => hwaiting
  case counted => exact fun hne => absurd (hcounters .server) hne
  case range =>
    rw [haccepted]
    exact nofun
  case nodup =>
    rw [haccepted]
    exact List.nodup_nil

end

theorem apart_of_roomy (s : Master) (h : machine.Reach Roomy s) : Apart s := by
  have hadmitted : Admitted s := by
    apply h.invariant
    · exact fun s hs => admitted_starting hs
    · exact fun s l s' hs hok hstep => hs.step hok hstep
  exact hadmitted.apart

def master : Master where
  server := { (default : Server) with localId := 0, localId_lt := zero_lt_word }
  db := ⟨{ PeerTables.empty with server := (∅ : Table Nat Str).insert 1 (str "master") }, .empty⟩
  waiting := []
  accepted := []

def add (name : UInt8) : Label := .request ((MessageBlock.ofAction (str "addserver")).set (str "servername") [name])

/-- A restart between two servers. -/
theorem apart_twoServers : ∃ s, machine.Reach Roomy s ∧ s.accepted = [3, 2] ∧ Apart s := by
  have hplay : ∃ s, play step Roomy master [add 97, .process default, .restart, add 98, .process default] = some s ∧
      s.accepted = [3, 2] := by decide +kernel
  obtain ⟨s, hplay, haccepted⟩ := hplay
  have hreach : machine.Reach Roomy s := Machine.Reach.play (.init ⟨rfl, rfl, fun _ => rfl, rfl, rfl⟩) hplay
  exact ⟨s, hreach, haccepted, apart_of_roomy s hreach⟩

/-- Fifteen requests that come in at once: the last one gets the id 16. -/
theorem not_apart_fifteenServers : ∃ s, machine.Reachable s ∧
    s.accepted = [16, 15, 14, 13, 12, 11, 10, 9, 8, 7, 6, 5, 4, 3, 2] ∧ ¬Apart s := by
  have hplay : ∃ s,
      play step (fun _ _ => True) master ((List.range 15).map fun i => add (97 + UInt8.ofNat i)) = some s ∧
      s.accepted = [16, 15, 14, 13, 12, 11, 10, 9, 8, 7, 6, 5, 4, 3, 2] := by decide +kernel
  obtain ⟨s, hplay, haccepted⟩ := hplay
  have hreach : machine.Reachable s := Machine.Reach.play (.init ⟨rfl, rfl, fun _ => rfl, rfl, rfl⟩) hplay
  refine ⟨s, hreach, haccepted, fun h => ?_⟩
  have hne := h.2 16 (by simp [haccepted])
  exact hne rfl

end Abacus.Client.Admission
