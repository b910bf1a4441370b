import Abacus.Client.Numbers

/-! # Numbers given out by several servers

A server counts from the highest number of its class in its tables, and then in memory. A message is
stored before it is processed, so after a restart the tables may hold less than was given out.
-/

namespace Abacus.Client.Numbering

open Library Library.Bytes Library.Machine Database.Schema Database.Peer Database.Marks
open Peer.Classes Peer.Process Peer.Statements Client.Action Client.Numbers

/-- One server: what it holds in memory, its database, and what its threads have done. -/
structure Node where
  server : Server
  db : Db
  /-- The numbers with which the handlers that asked for them have not made a message yet. -/
  asked : List (Counter × Nat)
  stored : List (MessageKey × Message)
  /-- The numbers from calls that are in created messages. -/
  created : List (Counter × Nat)

inductive Event
  | call (k : Counter)
  /-- A message is made, with a number that a call has given or without one. -/
  | create (m : Message) (now : Nat) (called : Bool)
  | receive (key : MessageKey) (row : PeerMessage) (m : Message)
  /-- What is processed under the key is the message itself, or after a restart what is loaded from its block. -/
  | process (key : MessageKey) (m : Message) (env : Env)
  /-- The server stops after so many statements and is started again. -/
  | stop (key : MessageKey) (m : Message) (env : Env) (n : Nat)
  | restart

def Node.restarted (node : Node) : Node :=
  { node with server := { node.server with counters := fun _ => 0 }, asked := [] }

def Node.called (node : Node) (k : Counter) (id : Nat) : Node where
  server := { node.server with counters := Function.update node.server.counters k id }
  db := node.db
  asked := (k, id) :: node.asked
  stored := node.stored
  created := node.created

def Node.keep (node : Node) (peer : PeerTables) (key : Option MessageKey) (m : Message) : Node :=
  { node with
    db := { node.db with peer }
    stored := (key.map fun key => (key, m)).toList ++ node.stored }

def Node.holds (node : Node) (key : MessageKey) (m : Message) : Bool :=
  node.stored.any fun x => x.1 = key ∧ numberOf x.2 = numberOf m

def Node.act (self : Nat) (node : Node) : Event → Option Node
  | .call k =>
    if k = .server then none
    else match nextNumber node.server node.db k with
      | none => some node
      | some id => some (node.called k id)
  | .create m now false =>
    let made := Peer.Store.makeMessage self now node.server.fresh node.db.peer m
    some (node.keep made.1 made.2 m)
  | .create m now true =>
    let made := Peer.Store.makeMessage self now node.server.fresh node.db.peer m
    match numberOf m with
    | none => none
    | some x =>
      if x ∈ node.asked then
        some { node.keep made.1 made.2 m with
          asked := node.asked.erase x
          created := (made.2.map fun _ => x).toList ++ node.created }
      else none
  | .receive key row m =>
    if key.1 ≠ self ∧ row.processed = false then
      let put := putRemoteMessage self node.db.peer key row
      some (node.keep put.1 (if put.2 then some key else none) m)
    else none
  | .process key m env =>
    if node.holds key m then some { node with db := (Peer.Process.process env key m).final node.db } else none
  | .stop key m env n =>
    if node.holds key m then some { node with db := (intProcess env m).crashAfter n node.db }.restarted else none
  | .restart => some node.restarted

def step (s : Nat → Node) : Nat × Event → Option (Nat → Node)
  | (self, e) => if 1 ≤ self ∧ self < idGranularity then ((s self).act self e).map (Function.update s self) else none

/-- Servers that know their ids and have just been started, on any databases. -/
def Starting (s : Nat → Node) : Prop :=
  ∀ self, (s self).asked = [] ∧ (s self).stored = [] ∧ (s self).created = [] ∧ (∀ k, (s self).server.counters k = 0) ∧
    (1 ≤ self → self < idGranularity → (s self).server.localId = self)

def machine : Machine (Nat → Node) (Nat × Event) := ofFun Starting step

/-- No number from a call of one function is in two created messages. -/
def Unique (s : Nat → Node) : Prop :=
  (∀ i, (s i).created.Nodup) ∧ ∀ i j x, x ∈ (s i).created → x ∈ (s j).created → i = j

/-- The first number after a restart is given out with no message unprocessed, and numbers do not exceed the columns. -/
def Settled (s : Nat → Node) : Nat × Event → Prop
  | (self, .call k) =>
    ((s self).server.counters k = 0 →
      ∀ r ∈ (s self).db.peer.peerMessage.toList, r.1.1 = self → r.2.processed = true) ∧
    current (s self).server (s self).db k + idGranularity ≤ maxInt
  | _ => True

section

variable {self : Nat} {node : Node} {key : MessageKey} {m : Message} {k : Counter} {node' : Node}
variable {x : Counter × Nat} {s : Nat → Node}

/-- A stored message is in the table of the messages, and if it is marked as processed it has its row. -/
structure Backed (origin : Nat) (node : Node) : Prop where
  keys : (node.stored.map Prod.fst).Nodup
  rows : ∀ x ∈ node.stored, ∃ row, node.db.peer.peerMessage[x.1]? = some row ∧
    (row.processed = true → ∀ y ∈ numberOf x.2, HasRow node.db y.1 y.2)
  messages : ∀ y ∈ node.created, ∃ x ∈ node.stored, x.1.1 = origin ∧ numberOf x.2 = some y

theorem Backed.restarted (h : Backed self node) : Backed self node.restarted := ⟨h.keys, h.rows, h.messages⟩

theorem Backed.change (h : Backed self node) {db : Db} (hmessages : db.peer.peerMessage = node.db.peer.peerMessage)
    (hrows : ∀ k id, HasRow node.db k id → HasRow db k id) : Backed self { node with db } where
  keys := h.keys
  rows x hx := by
    obtain ⟨row, hrow, hprocessed⟩ := h.rows x hx
    exact ⟨row, hmessages ▸ hrow, fun hmarked y hy => hrows _ _ (hprocessed hmarked y hy)⟩
  messages := h.messages

theorem Backed.added (h : Backed self node) {t : PeerTables} {row : PeerMessage} (hadds : Adds node.db.peer t key row)
    (hrow : row.processed = false) : Backed self (node.keep t (some key) m) where
  keys := by
    refine List.nodup_cons.mpr ⟨fun hmem => ?_, h.keys⟩
    obtain ⟨x, hx, rfl⟩ := List.mem_map.mp hmem
    obtain ⟨row', hrow', -⟩ := h.rows x hx
    exact hadds.free (Table.mem_iff_exists_row.mpr ⟨row', hrow'⟩)
  rows := by
    refine List.forall_mem_cons.mpr ⟨⟨row, ?_, fun hmarked => ?_⟩, fun x hx => ?_⟩
    · change t.peerMessage[key]? = some row
      rw [hadds.messages, Std.ExtTreeMap.getElem?_insert_self]
    · rw [hrow] at hmarked
      cases hmarked
    · obtain ⟨row', hrow', hprocessed⟩ := h.rows x hx
      have hne : key ≠ x.1 := fun heq => hadds.free (heq ▸ Table.mem_iff_exists_row.mpr ⟨row', hrow'⟩)
      refine ⟨row', ?_, fun hmarked y hy => ?_⟩
      · change t.peerMessage[x.1]? = some row'
        rw [hadds.messages, Table.getElem?_insert_row, if_neg hne, hrow']
      · exact (hprocessed hmarked y hy).of_keeps {} fun id hid => hadds.server ▸ hid
  messages y hy := by
    obtain ⟨x, hx, hkey, hnumber⟩ := h.messages y hy
    exact ⟨x, List.mem_cons_of_mem _ hx, hkey, hnumber⟩

theorem Backed.refused (h : Backed self node) : Backed self (node.keep node.db.peer none m) :=
  ⟨h.keys, h.rows, h.messages⟩

theorem Backed.made (h : Backed self node) (now : Nat) (m : Message) :
    let made := Peer.Store.makeMessage self now node.server.fresh node.db.peer m
    Backed self (node.keep made.1 made.2 m) := by
  obtain hmade | ⟨t, key, row, hmade, -, hrow, hadds⟩ := makeMessage_cases self node.db.peer now node.server.fresh m
  · rw [hmade]
    exact h.refused
  · rw [hmade]
    exact h.added hadds hrow

theorem Backed.made_called (h : Backed self node) (now : Nat) (hnumber : numberOf m = some x) :
    let made := Peer.Store.makeMessage self now node.server.fresh node.db.peer m
    Backed self { node.keep made.1 made.2 m with
      asked := node.asked.erase x
      created := (made.2.map fun _ => x).toList ++ node.created } := by
  have hkept := h.made now m
  obtain hmade | ⟨t, key, row, hmade, hkey, -, -⟩ := makeMessage_cases self node.db.peer now node.server.fresh m
  · rw [hmade] at hkept ⊢
    exact ⟨hkept.keys, hkept.rows, hkept.messages⟩
  · rw [hmade] at hkept ⊢
    refine ⟨hkept.keys, hkept.rows, List.forall_mem_cons.mpr ⟨⟨(key, m), List.mem_cons_self, hkey, hnumber⟩, ?_⟩⟩
    exact hkept.messages

theorem exists_of_holds (h : node.holds key m = true) : ∃ m', (key, m') ∈ node.stored ∧ numberOf m' = numberOf m := by
  obtain ⟨x, hx, hheld⟩ := List.any_eq_true.mp h
  obtain ⟨rfl, hnumber⟩ := of_decide_eq_true hheld
  exact ⟨x.2, hx, hnumber⟩

theorem Backed.processed (h : Backed self node) (hholds : node.holds key m = true) (env : Env) :
    Backed self { node with db := (Peer.Process.process env key m).final node.db } := by
  have hdone : Backed self { node with db := (intProcess env m).final node.db } :=
    h.change (peerMessage_final env m node.db) fun k id hrow => hrow.final_intProcess env m
  rw [Peer.Process.process, Prog.final_bind]
  cases hresult : (intProcess env m).result node.db with
  | error e => exact hdone
  | ok status =>
    cases status with
    | false => exact hdone
    | true =>
      obtain ⟨m', hm', hnumber⟩ := exists_of_holds hholds
      refine ⟨h.keys, fun x hx => ?_, h.messages⟩
      obtain ⟨row, hrow, hprocessed⟩ := hdone.rows x hx
      change ∃ row', (((intProcess env m).final node.db).peer.peerMessage.modify key _)[x.1]? = some row' ∧ _
      rw [Table.getElem?_modify_row]
      by_cases hkey : key = x.1
      · rw [if_pos hkey, hkey, hrow]
        refine ⟨_, rfl, fun _ y hy => hasRow_markProcessed ?_⟩
        -- the keys are different, so it is this message that has been processed
        have hsame : x = (key, m') := List.inj_on_of_nodup_map h.keys hx hm' hkey.symm
        rw [hsame, hnumber] at hy
        exact hasRow_of_processed hy hresult
      · rw [if_neg hkey]
        exact ⟨row, hrow, fun hmarked y hy => hasRow_markProcessed (hprocessed hmarked y hy)⟩

def Node.given (node : Node) : List (Counter × Nat) := node.asked ++ node.created

/-- The numbers given out are different, of the class of the server, and not above the counters in use. -/
structure Counted (origin : Nat) (node : Node) : Prop where
  localId : node.server.localId = origin
  residue : ∀ x ∈ node.given, x.1 ≠ .server ∧ x.2 % idGranularity = origin
  nodup : node.given.Nodup
  below : ∀ x ∈ node.given, node.server.counters x.1 ≠ 0 → x.2 ≤ node.server.counters x.1
  counter : ∀ k ≠ .server, node.server.counters k ≠ 0 → node.server.counters k % idGranularity = origin
  live : ∀ x ∈ node.asked, node.server.counters x.1 ≠ 0

theorem Counted.restarted (h : Counted self node) : Counted self node.restarted where
  localId := h.localId
  residue x hx := h.residue x (List.mem_append_right _ hx)
  nodup := (List.nodup_append.mp h.nodup).2.1
  below _ _ hne := absurd rfl hne
  counter _ _ hne := absurd rfl hne
  live := nofun

theorem Counted.of_subperm (h : Counted self node) {node' : Node} (hserver : node'.server = node.server)
    (hgiven : node'.given.Subperm node.given) (hasked : ∀ x ∈ node'.asked, x ∈ node.asked) : Counted self node' where
  localId := hserver ▸ h.localId
  residue x hx := h.residue x (hgiven.subset hx)
  nodup := by
    obtain ⟨l, hperm, hsub⟩ := hgiven
    exact hperm.nodup_iff.mp (h.nodup.sublist hsub)
  below x hx := hserver ▸ h.below x (hgiven.subset hx)
  counter := hserver ▸ h.counter
  live x hx := hserver ▸ h.live x (hasked x hx)

theorem getId_eq (h : Counted self node) (hself : 1 ≤ self) : getId node.server node.db.peer = self := by
  have hne : node.server.localId ≠ 0 := by
    rw [h.localId]
    omega
  rw [getId, if_pos hne, h.localId]

theorem le_current (h : Counted self node) (hbacked : Backed self node) (hself : 1 ≤ self)
    (hprocessed : node.server.counters k = 0 →
      ∀ r ∈ node.db.peer.peerMessage.toList, r.1.1 = self → r.2.processed = true)
    (hx : x ∈ node.given) (hk : x.1 = k) : x.2 ≤ current node.server node.db k := by
  subst hk
  rw [current, getId_eq h hself]
  split
  · next hzero =>
    obtain hasked | hcreated := List.mem_append.mp hx
    · exact absurd hzero (h.live x hasked)
    · obtain ⟨⟨key, m⟩, hstored, hkey, hnumber⟩ := hbacked.messages x hcreated
      obtain ⟨row, hrow, hback⟩ := hbacked.rows _ hstored
      have hmarked := hprocessed hzero (key, row) (Std.ExtTreeMap.mem_toList_iff_getElem?_eq_some.mpr hrow) hkey
      obtain ⟨hserver, hresidue⟩ := h.residue x hx
      exact le_maxId hserver (hback hmarked x hnumber) hresidue
  · next hne => exact h.below x hx hne

theorem current_mod (h : Counted self node) (hself : 1 ≤ self) (hk : k ≠ .server) :
    current node.server node.db k = 0 ∨ current node.server node.db k % idGranularity = self := by
  rw [current, getId_eq h hself]
  split
  · exact maxId_mod hk
  · next hne => exact .inr (h.counter k hk hne)

theorem next_fresh (h : Counted self node) (hbacked : Backed self node) (hself : 1 ≤ self ∧ self < idGranularity)
    (hk : k ≠ .server)
    (hprocessed : node.server.counters k = 0 →
      ∀ r ∈ node.db.peer.peerMessage.toList, r.1.1 = self → r.2.processed = true)
    (hlimit : current node.server node.db k + idGranularity ≤ maxInt) :
    ∃ id, nextNumber node.server node.db k = some id ∧ id % idGranularity = self ∧
      ∀ x ∈ node.given, x.1 = k → x.2 < id := by
  have hlow : ∀ x ∈ node.given, x.1 = k → x.2 ≤ current node.server node.db k := fun x hx hxk =>
    le_current h hbacked hself.1 hprocessed hx hxk
  have hmod := current_mod (k := k) h hself.1 hk
  have hlt : current node.server node.db k + idGranularity < 4294967295 := lt_of_le_of_lt hlimit (by decide)
  rw [nextNumber_of_lt hk hlt, getId_eq h hself.1]
  have hgranularity : idGranularity = 16 := rfl
  rw [hgranularity] at hmod hself ⊢
  split
  · next hzero =>
    refine ⟨self, rfl, Nat.mod_eq_of_lt hself.2, fun x hx hxk => ?_⟩
    have hle := hlow x hx hxk
    omega
  · next hne =>
    refine ⟨_, rfl, ?_, fun x hx hxk => ?_⟩
    · rw [Nat.add_mod_right]
      exact hmod.resolve_left hne
    · have hle := hlow x hx hxk
      omega

theorem Counted.called (h : Counted self node) (hself : 1 ≤ self) (hk : k ≠ .server) {id : Nat}
    (hid : id % idGranularity = self) (hfresh : ∀ x ∈ node.given, x.1 = k → x.2 < id) :
    Counted self (node.called k id) := by
  have hpos : id ≠ 0 := by
    rintro rfl
    rw [Nat.zero_mod] at hid
    omega
  have hcounter : ∀ k', (node.called k id).server.counters k' = if k' = k then id else node.server.counters k' :=
    fun k' => Function.update_apply node.server.counters k id k'
  constructor
  case localId => exact h.localId
  case residue => exact List.forall_mem_cons.mpr ⟨⟨hk, hid⟩, h.residue⟩
  case nodup =>
    refine List.nodup_cons.mpr ⟨fun hmem => ?_, h.nodup⟩
    exact lt_irrefl _ (hfresh _ hmem rfl)
  case below =>
    refine List.forall_mem_cons.mpr ⟨fun _ => ?_, fun x hx => ?_⟩
    · rw [hcounter, if_pos rfl]
    · rw [hcounter]
      split
      · next hxk => exact fun _ => (hfresh x hx hxk).le
      · exact h.below x hx
  case counter =>
    intro k' hk'
    rw [hcounter]
    split
    · exact fun _ => hid
    · exact h.counter k' hk'
  case live =>
    refine List.forall_mem_cons.mpr ⟨?_, fun x hx => ?_⟩
    · rw [hcounter, if_pos rfl]
      exact hpos
    · rw [hcounter]
      split
      · exact hpos
      · exact h.live x hx

theorem subperm_refl {l : List (Counter × Nat)} : l.Subperm l := (List.Perm.refl l).subperm

theorem subperm_created {asked created : List (Counter × Nat)} (hx : x ∈ asked) (key : Option MessageKey) :
    (asked.erase x ++ ((key.map fun _ => x).toList ++ created)).Subperm (asked ++ created) := by
  cases key with
  | none => exact (List.erase_sublist.append_right created).subperm
  | some key => exact (List.perm_middle.trans ((List.perm_cons_erase hx).symm.append_right created)).subperm

theorem kept_act (hcounted : Counted self node) (hbacked : Backed self node) (hself : 1 ≤ self ∧ self < idGranularity)
    (hs : s self = node) {e : Event} (hok : Settled s (self, e)) (hact : node.act self e = some node') :
    Counted self node' ∧ Backed self node' := by
  cases e with
  | call k =>
    rw [Node.act, Option.ite_none_left_eq_some] at hact
    obtain ⟨hk, hact⟩ := hact
    rw [Settled, hs] at hok
    obtain ⟨id, hnext, hid, hfresh⟩ := next_fresh hcounted hbacked hself hk hok.1 hok.2
    rw [hnext] at hact
    cases hact
    exact ⟨hcounted.called hself.1 hk hid hfresh, hbacked.keys, hbacked.rows, hbacked.messages⟩
  | create m now called =>
    cases called with
    | false =>
      cases hact
      exact ⟨hcounted.of_subperm rfl subperm_refl fun _ h => h, hbacked.made now m⟩
    | true =>
      dsimp only [Node.act] at hact
      split at hact
      · cases hact
      · next x hnumber =>
        split at hact
        · next hx =>
          cases hact
          refine ⟨hcounted.of_subperm rfl (subperm_created hx _) fun y hy => List.mem_of_mem_erase hy, ?_⟩
          exact hbacked.made_called now hnumber
        · cases hact
  | receive key row m =>
    rw [Node.act, Option.ite_none_right_eq_some] at hact
    obtain ⟨⟨-, hrow⟩, hact⟩ := hact
    cases hact
    refine ⟨hcounted.of_subperm rfl subperm_refl fun _ h => h, ?_⟩
    obtain hput | ⟨t, hput, hadds⟩ := putRemoteMessage_cases self node.db.peer key row
    · rw [hput]
      exact hbacked.refused
    · rw [hput]
      exact hbacked.added hadds hrow
  | process key m env =>
    rw [Node.act, Option.ite_none_right_eq_some] at hact
    obtain ⟨hholds, hact⟩ := hact
    cases hact
    exact ⟨hcounted.of_subperm rfl subperm_refl fun _ h => h, hbacked.processed hholds env⟩
  | stop key m env n =>
    rw [Node.act, Option.ite_none_right_eq_some] at hact
    obtain ⟨-, hact⟩ := hact
    cases hact
    have hchanged : Backed self { node with db := (intProcess env m).crashAfter n node.db } :=
      hbacked.change (peerMessage_crashAfter env m n node.db) fun k id hrow => hrow.crashAfter env m n
    have hsame : Counted self { node with db := (intProcess env m).crashAfter n node.db } :=
      hcounted.of_subperm rfl subperm_refl fun _ h => h
    exact ⟨hsame.restarted, hchanged.restarted⟩
  | restart =>
    cases hact
    exact ⟨hcounted.restarted, hbacked.restarted⟩

def Kept (s : Nat → Node) : Prop :=
  ∀ self, 1 ≤ self → self < idGranularity → Counted self (s self) ∧ Backed self (s self)

def Idle (s : Nat → Node) : Prop := ∀ self, ¬(1 ≤ self ∧ self < idGranularity) → (s self).created = []

theorem kept_step {s' : Nat → Node} {l : Nat × Event} (h : Kept s ∧ Idle s) (hok : Settled s l)
    (hstep : step s l = some s') : Kept s' ∧ Idle s' := by
  obtain ⟨self, e⟩ := l
  rw [step, Option.ite_none_right_eq_some] at hstep
  obtain ⟨hself, hstep⟩ := hstep
  obtain ⟨node, hact, rfl⟩ := Option.map_eq_some_iff.mp hstep
  obtain ⟨hcounted, hbacked⟩ := h.1 self hself.1 hself.2
  have hnode := kept_act hcounted hbacked hself rfl hok hact
  refine ⟨fun i hpos hlt => ?_, fun i hi => ?_⟩
  · rw [Function.update_apply]
    split
    · next heq => exact heq ▸ hnode
    · exact h.1 i hpos hlt
  · have hne : i ≠ self := by
      rintro rfl
      exact hi hself
    rw [Function.update_of_ne hne]
    exact h.2 i hi

theorem kept_starting (h : Starting s) : Kept s ∧ Idle s := by
  refine ⟨fun self hpos hlt => ?_, fun self _ => (h self).2.2.1⟩
  obtain ⟨hasked, hstored, hcreated, hcounters, hid⟩ := h self
  have hgiven : (s self).given = [] := by rw [Node.given, hasked, hcreated, List.append_nil]
  constructor
  · refine ⟨hid hpos hlt, ?_, ?_, ?_, fun k _ hne => absurd (hcounters k) hne, ?_⟩
    · rw [hgiven]
      exact nofun
    · rw [hgiven]
      exact List.nodup_nil
    · rw [hgiven]
      exact nofun
    · rw [hasked]
      exact nofun
  · refine ⟨?_, ?_, ?_⟩
    · rw [hstored]
      exact List.nodup_nil
    · rw [hstored]
      exact nofun
    · rw [hcreated]
      exact nofun

theorem unique_of_kept (h : Kept s ∧ Idle s) : Unique s := by
  have hvalid : ∀ i x, x ∈ (s i).created → 1 ≤ i ∧ i < idGranularity := by
    intro i x hx
    by_contra hi
    rw [h.2 i hi] at hx
    cases hx
  have hresidue : ∀ i x, x ∈ (s i).created → x.2 % idGranularity = i := by
    intro i x hx
    obtain ⟨hpos, hlt⟩ := hvalid i x hx
    exact ((h.1 i hpos hlt).1.residue x (List.mem_append_right _ hx)).2
  constructor
  · intro i
    by_cases hi : 1 ≤ i ∧ i < idGranularity
    · exact (List.nodup_append.mp (h.1 i hi.1 hi.2).1.nodup).2.1
    · rw [h.2 i hi]
      exact List.nodup_nil
  · exact fun i j x hi hj => (hresidue i x hi).symm.trans (hresidue j x hj)

end

theorem unique_of_settled (s : Nat → Node) (h : machine.Reach Settled s) : Unique s := by
  have hkept : Kept s ∧ Idle s := by
    apply h.invariant
    · exact fun s hs => kept_starting hs
    · exact fun s l s' hs hok hstep => kept_step hs hok hstep
  exact unique_of_kept hkept

instance (s : Nat → Node) : (l : Nat × Event) → Decidable (Settled s l)
  | (self, .call k) => inferInstanceAs (Decidable (((s self).server.counters k = 0 →
      ∀ r ∈ (s self).db.peer.peerMessage.toList, r.1.1 = self → r.2.processed = true) ∧
      current (s self).server (s self).db k + idGranularity ≤ maxInt))
  | (_, .create _ _ _) | (_, .receive _ _ _) | (_, .process _ _ _) | (_, .stop _ _ _ _) | (_, .restart) =>
    isTrue trivial

def newServer (self : Nat) (h : self < 4294967296) : Server where
  __ := (default : Server)
  localId := self
  localId_lt := h
  name := str "server"
  master := false

def starting (self : Nat) : Node where
  server := if h : self < 4294967296 then newServer self h else newServer 0 (by decide)
  db := ⟨.empty, .empty⟩
  asked := []
  stored := []
  created := []

theorem starting_starting : Starting starting := by
  refine fun self => ⟨rfl, rfl, rfl, fun k => ?_, fun _ hlt => ?_⟩
  · unfold starting
    dsimp only
    split <;> rfl
  · have h : self < 4294967296 := hlt.trans (by decide)
    unfold starting
    dsimp only
    rw [dif_pos h]
    rfl

def newUser (id : Nat) (name : String) : MessageCreateUser where
  username := str name
  friendlyname := []
  password := []
  userId := id
  type := 3
  groupId := 1
  requestorId := 1

def user (id : Nat) (name : String) : Message := .createUser (newUser id name)

/-- Two servers number users, and one of them restarts after it has processed its message. -/
theorem unique_twoServers : ∃ s, machine.Reach Settled s ∧ (s 2).created = [(.user, 18), (.user, 2)] ∧
    (s 3).created = [(.user, 3)] ∧ Unique s := by
  have hplay : ∃ s, play step Settled starting
      [(2, .call .user), (3, .call .user), (2, .create (user 2 "a") 10 true), (3, .create (user 3 "b") 10 true),
        (2, .process (2, 1) (user 2 "a") default), (2, .restart), (2, .call .user),
        (2, .create (user 18 "c") 20 true)] = some s ∧
      (s 2).created = [(.user, 18), (.user, 2)] ∧ (s 3).created = [(.user, 3)] := by decide +kernel
  obtain ⟨s, hplay, htwo, hthree⟩ := hplay
  have hreach : machine.Reach Settled s := Machine.Reach.play (.init starting_starting) hplay
  exact ⟨s, hreach, htwo, hthree, unique_of_settled s hreach⟩

/-- The server restarts before it has processed its message, and gives the number to another one. -/
theorem not_unique_unprocessed : ∃ s, machine.Reachable s ∧ (s 2).created = [(.user, 2), (.user, 2)] ∧ ¬Unique s := by
  have hplay : ∃ s, play step (fun _ _ => True) starting
      [(2, .call .user), (2, .create (user 2 "a") 10 true), (2, .restart), (2, .call .user),
        (2, .create (user 2 "b") 20 true), (2, .process (2, 1) (user 2 "a") default),
        (2, .process (2, 2) (user 2 "b") default)] = some s ∧
      (s 2).created = [(.user, 2), (.user, 2)] := by decide +kernel
  obtain ⟨s, hplay, hcreated⟩ := hplay
  refine ⟨s, Machine.Reach.play (.init starting_starting) hplay, hcreated, fun h => ?_⟩
  have hnodup := h.1 2
  rw [hcreated] at hnodup
  exact absurd hnodup (by decide)

end Abacus.Client.Numbering
