import Abacus.Database.Peer
import Abacus.Library.Machine

/-! # Missing acknowledgements under interleaved statements

Calls of `addServer`, `putLocalMessage` and `putRemoteMessage` take turns statement by statement, except under
table locks. An `INSERT … SELECT` that meets one existing row inserts none.
-/

namespace Abacus.Replication.Bookkeeping

open Library Library.Bytes Database.Peer

inductive Op
  | addServer (name : Str) (id : Nat)
  | putLocalMessage (row : PeerMessage)
  | putRemoteMessage (key : MessageKey) (row : PeerMessage)
  deriving DecidableEq

inductive Stage
  | called
  | locked
  | numbered (id : Nat)
  | refused
  | registered
  | stored (key : MessageKey)
  | linked
  | returned (ok : Bool)
  deriving DecidableEq

structure Call where
  op : Op
  stage : Stage
  deriving DecidableEq

/-- Between `LOCK TABLES` and `UNLOCK TABLES`. -/
def Call.holdsLock (c : Call) : Bool :=
  match c.op, c.stage with
  | .putLocalMessage _, .locked => true
  | .putLocalMessage _, .numbered _ => true
  | .putLocalMessage _, .refused => true
  | .putLocalMessage _, .stored _ => true
  | .putLocalMessage _, .linked => true
  | _, _ => false

variable (self : Nat)

def exec (t : PeerTables) : Op → Stage → Option (PeerTables × Stage)
  | .addServer name id, .called =>
    match insertServer t id name with
    | none => some (t, .returned false)
    | some t => some (t, if id = self then .returned true else .registered)
  | .addServer _ id, .registered => some (orElse t (insertNoAck t (serverBatch t id)), .returned true)
  | .putRemoteMessage key row, .called =>
    match insertPeerMessage t key row with
    | none => some (t, .returned false)
    | some t => some (t, .stored key)
  | .putRemoteMessage _ _, .stored key => some (orElse t (insertNoAck t (messageBatch self t key)), .returned true)
  | .putLocalMessage _, .called => some (t, .locked)
  | .putLocalMessage _, .locked => some (t, .numbered (wrap32 (maxMessageId self t + 1)))
  | .putLocalMessage row, .numbered id =>
    match insertPeerMessage t (self, id) row with
    | none => some (t, .refused)
    | some t => some (t, .stored (self, id))
  | .putLocalMessage _, .stored key => some (orElse t (insertNoAck t (messageBatch self t key)), .linked)
  | .putLocalMessage _, .linked => some (t, .returned true)
  | .putLocalMessage _, .refused => some (t, .returned false)
  | _, _ => none

def execAlone : Nat → PeerTables → Op → Stage → PeerTables × Stage
  | 0, t, _, stage => (t, stage)
  | n + 1, t, op, stage =>
    match exec self t op stage with
    | none => (t, stage)
    | some (t, stage) => execAlone n t op stage

theorem execAlone_addServer (t : PeerTables) (name : Str) (id : Nat) :
    execAlone self 2 t (.addServer name id) .called =
      ((addServer self t name id).1, .returned (addServer self t name id).2) := by
  simp only [execAlone, exec, addServer]
  cases insertServer t id name with
  | none => rfl
  | some t => by_cases hself : id = self <;> simp [hself]

theorem execAlone_putRemoteMessage (t : PeerTables) (key : MessageKey) (row : PeerMessage) :
    execAlone self 2 t (.putRemoteMessage key row) .called =
      ((putRemoteMessage self t key row).1, .returned (putRemoteMessage self t key row).2) := by
  simp only [execAlone, exec, putRemoteMessage]
  cases insertPeerMessage t key row with
  | none | some t => rfl

theorem execAlone_putLocalMessage (t : PeerTables) (row : PeerMessage) :
    execAlone self 5 t (.putLocalMessage row) .called =
      ((putLocalMessage self t row).1, .returned (putLocalMessage self t row).2.isSome) := by
  simp only [execAlone, exec, putLocalMessage]
  cases insertPeerMessage t (self, wrap32 (maxMessageId self t + 1)) row with
  | none | some t => rfl

structure State where
  tables : PeerTables
  calls : List Call
  /-- The pairs for which `ackMessage` has been executed. -/
  acked : Finset (MessageKey × Nat)

inductive Label
  | call (op : Op)
  | advance (i : Nat)
  | ack (key : MessageKey) (ackServer : Nat)
  deriving DecidableEq

def step (s : State) : Label → Option State
  | .call op => some { s with calls := s.calls ++ [{ op, stage := .called }] }
  | .advance i =>
    match s.calls[i]? with
    | none => none
    | some c =>
      if (s.calls.eraseIdx i).any Call.holdsLock then none
      else (exec self s.tables c.op c.stage).map fun (tables, stage) =>
        { s with tables, calls := s.calls.set i { c with stage } }
  | .ack key ackServer =>
    if s.calls.any Call.holdsLock then none
    else some { s with
      tables := Database.Peer.ackMessage s.tables key ackServer
      acked := insert (key, ackServer) s.acked }

/-- The pair of a stored message and a registered server that is neither this one nor its origin. -/
def Owed (t : PeerTables) (key : MessageKey) (a : Nat) : Prop :=
  key ∈ t.peerMessage ∧ a ∈ t.server ∧ a ≠ self ∧ a ≠ key.1

/-- Every owed acknowledgement is recorded as missing, unless it has been given. -/
def Booked (s : State) : Prop :=
  ∀ key a, Owed self s.tables key a → (key, a) ∈ s.tables.noAck ∨ (key, a) ∈ s.acked

def AllReturnedTrue (s : State) : Prop := ∀ c ∈ s.calls, c.stage = .returned true

def machine : Machine State Label :=
  .ofFun (fun s => s.calls = [] ∧ Booked self s) (step self)

def nextBatch (t : PeerTables) (c : Call) : Option (Finset (MessageKey × Nat)) :=
  match c.op, c.stage with
  | .addServer _ id, .registered => some (serverBatch t id)
  | .putRemoteMessage _ _, .stored key => some (messageBatch self t key)
  | .putLocalMessage _, .stored key => some (messageBatch self t key)
  | _, _ => none

/-- No row or every row of the batch is there already when its statement runs. -/
def BatchWhole (s : State) : Label → Prop
  | .advance i => ∀ c ∈ s.calls[i]?, ∀ batch ∈ nextBatch self s.tables c,
      Disjoint batch s.tables.noAck ∨ batch ⊆ s.tables.noAck
  | _ => True

def Covers (c : Call) (key : MessageKey) (a : Nat) : Prop :=
  match c.op, c.stage with
  | .addServer _ id, .registered => id = a
  | .putRemoteMessage _ _, .stored k => k = key
  | .putLocalMessage _, .stored k => k = key
  | _, _ => False

variable {c : Call}

theorem covers_mem_batch {t : PeerTables} {key : MessageKey} {a : Nat} (howed : Owed self t key a)
    (hcovers : Covers c key a) : ∃ batch, nextBatch self t c = some batch ∧ (key, a) ∈ batch := by
  obtain ⟨hkey, ha, hself, horigin⟩ := howed
  have hmessage : (key, a) ∈ messageBatch self t key := by
    simp [messageBatch, Std.ExtTreeMap.mem_keys, ha, hself, horigin]
  obtain ⟨op, stage⟩ := c
  cases op <;> cases stage <;> simp only [Covers] at hcovers
  · subst hcovers
    refine ⟨_, rfl, ?_⟩
    simp [serverBatch, Std.ExtTreeMap.mem_keys, hkey]
  · subst hcovers
    exact ⟨_, rfl, hmessage⟩
  · subst hcovers
    exact ⟨_, rfl, hmessage⟩

theorem exec_cases {t t' : PeerTables} {op : Op} {stage stage' : Stage} (h : exec self t op stage = some (t', stage')) :
    (t' = t ∧ ∀ key a, ¬Covers ⟨op, stage⟩ key a) ∨
    (∃ id name, t' = { t with server := t.server.insert id name } ∧ (∀ key a, ¬Covers ⟨op, stage⟩ key a) ∧
      (id = self ∨ ∀ key, Covers ⟨op, stage'⟩ key id)) ∨
    (∃ key row, t' = { t with peerMessage := t.peerMessage.insert key row } ∧ (∀ key a, ¬Covers ⟨op, stage⟩ key a) ∧
      ∀ a, Covers ⟨op, stage'⟩ key a) ∨
    (∃ batch, nextBatch self t ⟨op, stage⟩ = some batch ∧ t' = orElse t (insertNoAck t batch)) := by
  cases op with
  | addServer name id =>
    cases stage with
    | called =>
      simp only [exec] at h
      cases hins : insertServer t id name with
      | none =>
        rw [hins] at h
        cases h
        exact .inl ⟨rfl, fun _ _ hcov => hcov⟩
      | some t₁ =>
        rw [hins] at h
        obtain ⟨_, rfl⟩ := Table.map_insertNew.mp hins
        cases h
        refine .inr (.inl ⟨id, name, rfl, fun _ _ hcov => hcov, ?_⟩)
        by_cases hself : id = self
        · exact .inl hself
        · rw [if_neg hself]
          exact .inr fun _ => rfl
    | registered =>
      cases h
      exact .inr (.inr (.inr ⟨_, rfl, rfl⟩))
    | locked | numbered | refused | stored | linked | returned => cases h
  | putRemoteMessage key row =>
    cases stage with
    | called =>
      simp only [exec] at h
      cases hins : insertPeerMessage t key row with
      | none =>
        rw [hins] at h
        cases h
        exact .inl ⟨rfl, fun _ _ hcov => hcov⟩
      | some t₁ =>
        rw [hins] at h
        obtain ⟨_, rfl⟩ := Table.map_insertNew.mp hins
        cases h
        exact .inr (.inr (.inl ⟨key, row, rfl, fun _ _ hcov => hcov, fun _ => rfl⟩))
    | stored key' =>
      cases h
      exact .inr (.inr (.inr ⟨_, rfl, rfl⟩))
    | locked | numbered | refused | registered | linked | returned => cases h
  | putLocalMessage row =>
    cases stage with
    | called | locked | linked | refused =>
      cases h
      exact .inl ⟨rfl, fun _ _ hcov => hcov⟩
    | numbered id =>
      simp only [exec] at h
      cases hins : insertPeerMessage t (self, id) row with
      | none =>
        rw [hins] at h
        cases h
        exact .inl ⟨rfl, fun _ _ hcov => hcov⟩
      | some t₁ =>
        rw [hins] at h
        obtain ⟨_, rfl⟩ := Table.map_insertNew.mp hins
        cases h
        exact .inr (.inr (.inl ⟨(self, id), row, rfl, fun _ _ hcov => hcov, fun _ => rfl⟩))
    | stored key' =>
      cases h
      exact .inr (.inr (.inr ⟨_, rfl, rfl⟩))
    | registered | returned => cases h

def Accounted (s : State) : Prop :=
  ∀ key a, Owed self s.tables key a →
    (key, a) ∈ s.tables.noAck ∨ (key, a) ∈ s.acked ∨ ∃ c ∈ s.calls, Covers c key a

theorem mem_set_or_eq {calls : List Call} {i : Nat} {d : Call} (c' : Call) (hc : calls[i]? = some c) (hd : d ∈ calls) :
    d = c ∨ d ∈ calls.set i c' := by
  obtain ⟨j, hj⟩ := List.mem_iff_getElem?.mp hd
  by_cases hij : i = j
  · subst hij
    exact .inl (Option.some.inj (hj.symm.trans hc))
  · refine .inr (List.mem_iff_getElem?.mpr ⟨j, ?_⟩)
    rw [List.getElem?_set_ne hij, hj]

theorem mem_set_self {calls : List Call} {i : Nat} (c' : Call) (hc : calls[i]? = some c) : c' ∈ calls.set i c' := by
  obtain ⟨hi, _⟩ := List.getElem?_eq_some_iff.mp hc
  exact List.mem_set hi c'

variable {s : State}

theorem accounted_advance {i : Nat} {t' : PeerTables} {stage' : Stage}
    (hacc : Accounted self s) (hwhole : BatchWhole self s (.advance i)) (hc : s.calls[i]? = some c)
    (hexec : exec self s.tables c.op c.stage = some (t', stage')) :
    Accounted self { s with tables := t', calls := s.calls.set i { c with stage := stage' } } := by
  have hnew := mem_set_self { c with stage := stage' } hc
  -- a pair that another call covers stays covered; one that `c` covers needs the statement of `c`
  have hkeep : ∀ key a, Owed self s.tables key a → ¬Covers c key a → (key, a) ∈ s.tables.noAck ∨ (key, a) ∈ s.acked ∨
      ∃ d ∈ s.calls.set i { c with stage := stage' }, Covers d key a := by
    intro key a howed hnot
    obtain h | h | ⟨d, hd, hcov⟩ := hacc key a howed
    · exact .inl h
    · exact .inr (.inl h)
    · obtain rfl | hmem := mem_set_or_eq { c with stage := stage' } hc hd
      · exact absurd hcov hnot
      · exact .inr (.inr ⟨d, hmem, hcov⟩)
  rintro key a ⟨hkey, ha, hself, horigin⟩
  obtain ⟨rfl, hidle⟩ | ⟨id, name, rfl, hidle, hcov⟩ | ⟨k, row, rfl, hidle, hcov⟩ | ⟨batch, hbatch, rfl⟩ :=
    exec_cases self hexec
  · exact hkeep key a ⟨hkey, ha, hself, horigin⟩ (hidle key a)
  · obtain rfl | ha := Table.mem_insert_row.mp ha
    · exact .inr (.inr ⟨_, hnew, (hcov.resolve_left hself) key⟩)
    · exact hkeep key a ⟨hkey, ha, hself, horigin⟩ (hidle key a)
  · obtain rfl | hkey := Table.mem_insert_row.mp hkey
    · exact .inr (.inr ⟨_, hnew, hcov a⟩)
    · exact hkeep key a ⟨hkey, ha, hself, horigin⟩ (hidle key a)
  · rw [orElse_insertNoAck_of_whole (hwhole c hc batch hbatch)] at hkey ha ⊢
    by_cases hcov : Covers c key a
    · obtain ⟨batch', hbatch', hmem⟩ := covers_mem_batch self ⟨hkey, ha, hself, horigin⟩ hcov
      obtain rfl := Option.some.inj (hbatch'.symm.trans hbatch)
      exact .inl (Finset.mem_union_right _ hmem)
    · obtain h | h := hkeep key a ⟨hkey, ha, hself, horigin⟩ hcov
      · exact .inl (Finset.mem_union_left _ h)
      · exact .inr h

theorem accounted_step {s' : State} {l : Label} (hacc : Accounted self s) (hwhole : BatchWhole self s l)
    (hstep : step self s l = some s') : Accounted self s' := by
  cases l with
  | call op =>
    cases hstep
    intro key a howed
    obtain h | h | ⟨c, hc, hcov⟩ := hacc key a howed
    · exact .inl h
    · exact .inr (.inl h)
    · exact .inr (.inr ⟨c, List.mem_append_left _ hc, hcov⟩)
  | advance i =>
    simp only [step] at hstep
    split at hstep
    · cases hstep
    · next c hc =>
      split at hstep
      · cases hstep
      · obtain ⟨⟨t', stage'⟩, hexec, rfl⟩ := Option.map_eq_some_iff.mp hstep
        exact accounted_advance self hacc hwhole hc hexec
  | ack k b =>
    simp only [step] at hstep
    split at hstep
    · cases hstep
    · cases hstep
      intro key a howed
      by_cases hpair : (key, a) = (k, b)
      · exact .inr (.inl (hpair ▸ Finset.mem_insert_self _ _))
      · obtain h | h | h := hacc key a howed
        · exact .inl (Finset.mem_erase.mpr ⟨hpair, h⟩)
        · exact .inr (.inl (Finset.mem_insert_of_mem h))
        · exact .inr (.inr h)

theorem accounted_reach (h : (machine self).Reach (BatchWhole self) s) : Accounted self s := by
  refine h.invariant ?_ fun s l s' hacc hwhole hstep => accounted_step self hacc hwhole hstep
  rintro s ⟨_, hbooked⟩ key a howed
  exact (hbooked key a howed).imp_right .inl

/-- If each `INSERT … SELECT` finds none or all of its rows, the acknowledgements are in order when all calls have
returned true. -/
theorem booked_of_batches_whole (h : (machine self).Reach (BatchWhole self) s)
    (hdone : AllReturnedTrue s) : Booked self s := by
  intro key a howed
  obtain h | h | ⟨c, hc, hcov⟩ := accounted_reach self h key a howed
  · exact .inl h
  · exact .inr h
  · obtain ⟨op, stage⟩ := c
    have hstage := hdone _ hc
    subst hstage
    cases op <;> cases hcov

instance (s : State) (l : Label) : Decidable (BatchWhole self s l) :=
  match l with
  | .advance i => inferInstanceAs (Decidable (∀ c ∈ s.calls[i]?, ∀ batch ∈ nextBatch self s.tables c,
      Disjoint batch s.tables.noAck ∨ batch ⊆ s.tables.noAck))
  | .call _ => inferInstanceAs (Decidable True)
  | .ack _ _ => inferInstanceAs (Decidable True)

def blankRow : PeerMessage := { messageTypeId := 2, time := 0, signature := [], data := [], processed := false }

def freshState : State := { tables := .empty, calls := [], acked := ∅ }

theorem freshState_init : (machine self).init freshState :=
  ⟨rfl, fun _ _ howed => absurd howed.1 Std.ExtTreeMap.not_mem_empty⟩

def orderlyRun : List Label :=
  [.call (.addServer (str "two") 2), .advance 0, .advance 0,
    .call (.putRemoteMessage (3, 1) blankRow), .advance 1, .advance 1]

theorem booked_of_batches_whole_orderly :
    ∃ s, play (step 1) (BatchWhole 1) freshState orderlyRun = some s ∧ Booked 1 s ∧ ((3, 1), 2) ∈ s.tables.noAck := by
  have hplay : (play (step 1) (BatchWhole 1) freshState orderlyRun).isSome := by decide
  obtain ⟨s, hs⟩ := Option.isSome_iff_exists.mp hplay
  have hdone : ∀ s ∈ play (step 1) (BatchWhole 1) freshState orderlyRun,
      (∀ c ∈ s.calls, c.stage = .returned true) ∧ ((3, 1), 2) ∈ s.tables.noAck := by decide
  exact ⟨s, hs, booked_of_batches_whole 1 ((Machine.Reach.init (freshState_init 1)).play hs) (hdone s hs).1,
    (hdone s hs).2⟩

/-- A message is stored while the `addServer` of server 2 waits. Its batch then meets the row of that message, and the
older message is never owed. -/
def overlappingRun : List Label :=
  [.call (.putRemoteMessage (3, 1) blankRow), .advance 0, .advance 0,
    .call (.addServer (str "two") 2), .advance 1,
    .call (.putRemoteMessage (3, 2) blankRow), .advance 2, .advance 2,
    .advance 1]

theorem not_booked_overlapping :
    ¬∀ (self : Nat) (s : State), (machine self).Reachable s → AllReturnedTrue s → Booked self s := by
  intro hall
  have hplay : (play (step 1) (fun _ _ => True) freshState overlappingRun).isSome := by decide
  obtain ⟨s, hs⟩ := Option.isSome_iff_exists.mp hplay
  have hend : ∀ s ∈ play (step 1) (fun _ _ => True) freshState overlappingRun,
      (∀ c ∈ s.calls, c.stage = .returned true) ∧ (3, 1) ∈ s.tables.peerMessage ∧ 2 ∈ s.tables.server ∧
        ((3, 1), 2) ∉ s.tables.noAck ∧ s.acked = ∅ := by decide
  obtain ⟨hdone, hkey, ha, hmissing, hacked⟩ := hend s hs
  obtain h | h := hall 1 s ((Machine.Reach.init (freshState_init 1)).play hs) hdone (3, 1) 2
    ⟨hkey, ha, by decide, by decide⟩
  · exact hmissing h
  · rw [hacked] at h
    exact Finset.notMem_empty _ h

end Abacus.Replication.Bookkeeping
