import Abacus.Peer.Store
import Abacus.Peer.Totality

/-! # What client actions share

A handler makes a message, which is stored, sent on and processed before the reply, or replies at
once. What else it does in the server is recorded as its effects.
-/

namespace Abacus.Client.Action

open Library Library.Bytes Misc Client.Block Client.Permissions Support.Timer
open Database.Schema Database.Marks Database.Peer
open Peer.Classes Peer.Process Peer.Store Peer.Totality

structure Connection where
  userId : Nat
  groupId : Nat
  permissions : PermissionSet
  userId_lt : userId < 4294967296

/-- The tables whose new rows are numbered by a counter in memory. -/
inductive Counter
  | submission
  | clarificationRequest
  | clarification
  | problem
  | user
  | group
  | server
  deriving DecidableEq, Repr

structure StandingsData where
  points : Int
  time : Int
  inStandings : Bool
  tries : Table Nat Int
  deriving DecidableEq

abbrev Standings := Table Nat StandingsData

/-- What the server holds in memory, its configuration, and what the queries leave open. -/
structure Server where
  /-- The cached result of `getId`, or 0. -/
  localId : Nat
  localId_lt : localId < 4294967296
  name : Str
  master : Bool
  languageSet : Str
  now : Int
  timer : TimerSupportModule
  counters : Counter → Nat
  /-- The submission that was issued to the marker on this connection, or 0. -/
  issued : Nat
  contestantStandings : Standings
  finalStandings : Standings
  hashpw : Str → Str → Str
  fresh : Fresh
  stateOrder : OrderBy (MarkRow × Nat)
  markOrder : OrderBy MarkRow
  requestOrder : OrderBy (Nat × ClarificationRequest)
  clarificationOrder : OrderBy (Nat × Clarification)

instance : Inhabited Server := ⟨{
  localId := 1
  localId_lt := one_lt_word
  name := str "master"
  master := true
  languageSet := []
  now := 100
  timer := default
  counters := fun _ => 0
  issued := 0
  contestantStandings := ∅
  finalStandings := ∅
  hashpw := fun _ password => password
  fresh := fun _ => 0
  stateOrder := .stable
  markOrder := .stable
  requestOrder := .stable
  clarificationOrder := .stable }⟩

inductive ClientFault
  /-- `bad_string`, thrown by `from_string`. -/
  | badString
  /-- A string assigned from a null pointer. -/
  | nullString
  /-- An array of negative length. -/
  | badLength
  /-- Memory outside an array is read or written. -/
  | outOfBounds
  | nullPointer
  | freedMemory
  /-- Thrown by the thread that processes messages: the server ends. -/
  | processing (fault : Fault)
  deriving DecidableEq, Repr

inductive Effect
  /-- By the message that is processed. -/
  | peer (o : Output)
  | sendToServers (key : MessageKey)
  | setCounter (counter : Counter) (value : Nat)
  | login (userId groupId userType : Nat)
  | deregisterClient
  | registerClient
  | subscribe (event : Str)
  | unsubscribe (event : Str)
  | enqueueMarker
  | preemptMarker
  | notifyMarked (submissionId : Nat)

abbrev ClientProg := Prog Db Effect ClientFault

def query {α : Type} (f : Contest → α) : ClientProg α := Prog.read fun db => f db.contest

variable (s : Server)

def time32 : Nat := toU32 s.now

def serverId (t : PeerTables) (name : Str) : Nat := ((t.server.toList.find? fun r => r.2 = name).map Prod.fst).getD 0

def getId (t : PeerTables) : Nat :=
  if s.localId ≠ 0 then s.localId
  else
    let id := serverId t s.name
    if id = 0 ∧ s.master then 1 else id

def idGranularity : Nat := 16

/-- `SELECT MAX` over the numbers that this server gave out, 0 if there is none. -/
def maxOwnId (self : Nat) (ids : List Nat) : Nat := (ids.filter fun id => id &&& (idGranularity - 1) = self).foldl max 0

def maxId (db : Db) (self : Nat) : Counter → Nat
  | .submission => maxOwnId self db.contest.submission.keys
  | .clarificationRequest => maxOwnId self db.contest.clarificationRequest.keys
  | .clarification => maxOwnId self db.contest.clarification.keys
  | .problem => maxOwnId self db.contest.problem.keys
  | .user => maxOwnId self db.contest.user.keys
  | .group => maxOwnId self db.contest.group.keys
  | .server => if db.peer.server.keys = [] then 4294967295 else db.peer.server.keys.foldl max 0

/-- The number after the current one. A counter that has not been used starts from the table. -/
def nextNumber (db : Db) (counter : Counter) : Option Nat :=
  let cur := if s.counters counter = 0 then maxId db (getId s db.peer) counter else s.counters counter
  if s.counters counter = 0 ∧ cur = 4294967295 then none
  else match counter with
    | .server => if cur = 0 then none else some (wrap32 (cur + 1))
    | _ => some (if cur = 0 then getId s db.peer else wrap32 (cur + idGranularity))

/-- `nextSubmissionId` and its like; an error is `~0U`. -/
def nextId (counter : Counter) : ClientProg Nat := do
  let next ← Prog.read fun db => nextNumber s db counter
  match next with
  | none => return 4294967295
  | some id => do
    Prog.output (.setCounter counter id)
    return id

def env (self : Nat) : Env where
  self
  now := s.now
  timer := s.timer
  order := s.stateOrder

/-- The blob that is sent to the other servers is a copy of the data with a header before it. -/
def makeBlob (size : Nat) (key : MessageKey) : ClientProg (Option MessageKey) :=
  if blobHeader + size < 4294967296 then do
    Prog.output (.sendToServers key)
    return some key
  else .raise .outOfBounds

/-- The buffer has the size that `storageRequired` says, whatever `store` writes. -/
def makeMessage (m : Message) : ClientProg (Option MessageKey) :=
  match storageRequired m with
  | none => return none
  | some size =>
    if extent 0 (fields m) ≤ size then do
      let (peer, key) ← Prog.read fun db => Peer.Store.makeMessage (getId s db.peer) (time32 s) s.fresh db.peer m
      Prog.set fun db => { db with peer }
      match key with
      | none => return none
      | some key => makeBlob size key
    else .raise .outOfBounds

/-- The handler waits until the message is processed, and replies whether that succeeded or not. -/
def triggerMessage (m : Message) (reply : MessageBlock) : ClientProg MessageBlock := do
  let made ← makeMessage s m
  match made with
  | none => return MessageBlock.error (str "Internal error creating message.  This is indicative of a bug.")
  | some key => do
    let self ← Prog.read fun db => getId s db.peer
    let _ ← Prog.embed .peer .processing (process (env s self) key m)
    return reply

/-- What a handler comes to: a reply, or a message that is triggered before the reply. -/
inductive Answer
  | reply (mb : MessageBlock)
  | message (m : Message) (reply : MessageBlock)

def Answer.error (msg : Str) : Answer := .reply (MessageBlock.error msg)

/-- Triggering the message is the last thing that a handler does. -/
def finish : Answer → ClientProg MessageBlock
  | .reply mb => return mb
  | .message m reply => triggerMessage s m reply

/-- Records with the same names, told apart by a number at the end of each name. -/
def numbered (mb : MessageBlock) (records : List AttributeList) : MessageBlock :=
  records.zipIdx.foldl (fun mb (record, c) => mb.setAll record (decimal c)) mb

def record (attrs : List (String × Str)) : AttributeList := Std.ExtTreeMap.ofList (attrs.map fun a => (str a.1, a.2))

def setContent (mb : MessageBlock) (data : Str) : ClientProg MessageBlock :=
  if data.length < 2147483648 then return mb.setContent data else .raise .badLength

def orThrow {α : Type} : Option α → ClientProg α
  | some a => .ret a
  | none => .raise .badString

section

/-- The numbers of the tables are words of 32 bits. -/
structure Bounded (db : Db) : Prop where
  contest : InRange db.contest
  server : ∀ id ∈ db.peer.server, id < 4294967296

variable {s} {db : Db} {E : ClientFault → Prop} {α β : Type}

@[grind ←] theorem reads_query (f : Contest → α) : Prog.Reads E (query f) := Prog.reads_read _

theorem orThrow_some_bind (a : α) (f : α → ClientProg β) : orThrow (some a) >>= f = f a := rfl

theorem result_query_bind (g : Contest → α) (f : α → ClientProg β) :
    Prog.result (query g >>= f) db = Prog.result (f (g db.contest)) db := rfl

@[simp] theorem returns_query_bind (g : Contest → α) (f : α → ClientProg β) :
    Prog.Returns (query g >>= f) db ↔ Prog.Returns (f (g db.contest)) db := Iff.rfl

theorem getId_lt (hdb : Bounded db) : getId s db.peer < 4294967296 := by
  unfold getId serverId
  split
  · exact s.localId_lt
  · dsimp only
    split
    · decide
    · cases hfind : db.peer.server.toList.find? fun r => r.2 = s.name with
      | none => decide
      | some r =>
        refine hdb.server r.1 (Table.mem_iff_exists_row.mpr ⟨r.2, ?_⟩)
        exact Std.ExtTreeMap.mem_toList_iff_getElem?_eq_some.mp (List.mem_of_find?_eq_some hfind)

def nextIdOf (s : Server) (db : Db) (counter : Counter) : Nat := (nextNumber s db counter).getD 4294967295

theorem nextIdOf_lt (hdb : Bounded db) (counter : Counter) : nextIdOf s db counter < 4294967296 := by
  have hwrap (n : Nat) : wrap32 n < 4294967296 := Nat.mod_lt n (by decide)
  have hid := getId_lt (s := s) hdb
  unfold nextIdOf nextNumber
  dsimp only
  generalize (if s.counters counter = 0 then maxId db (getId s db.peer) counter else s.counters counter) = cur
  split
  · decide
  · split
    · split
      · decide
      · exact hwrap _
    · rw [Option.getD_some]
      split
      · exact hid
      · exact hwrap _

theorem result_nextId (counter : Counter) : Prog.result (nextId s counter) db = .ok (nextIdOf s db counter) := by
  rw [nextId, Prog.result_read_bind, nextIdOf]
  cases nextNumber s db counter with
  | none | some id => rfl

@[grind ←] theorem reads_nextId (counter : Counter) : Prog.Reads E (nextId s counter) := by
  refine Prog.reads_bind (Prog.reads_read _) fun next => ?_
  cases next with
  | none => exact Prog.reads_pure _
  | some id => exact Prog.reads_bind (Prog.reads_output _) fun _ => Prog.reads_pure _

theorem gives_nextId (hdb : Bounded db) (counter : Counter) : Prog.Gives (nextId s counter) db (· < 4294967296) := by
  intro id hid
  rw [result_nextId] at hid
  cases hid
  exact nextIdOf_lt hdb counter

theorem gives_getId (hdb : Bounded db) :
    Prog.Gives (Prog.read fun db => getId s db.peer : ClientProg Nat) db (· < 4294967296) := by
  rintro id ⟨⟩
  exact getId_lt hdb

@[simp] theorem returns_nextId_bind (counter : Counter) (f : Nat → ClientProg β) :
    Prog.Returns (nextId s counter >>= f) db ↔ Prog.Returns (f (nextIdOf s db counter)) db := by
  have hreads : Prog.Reads (fun _ => True) (nextId s counter) := reads_nextId counter
  rw [hreads.returns_bind, result_nextId]
  simp

@[grind ←] theorem reads_orThrow (o : Option α) : Prog.Reads (fun _ => True) (orThrow o) := by
  cases o with
  | none => exact Prog.reads_raise trivial
  | some a => exact Prog.reads_pure a

theorem returns_orThrow_bind (o : Option α) (f : α → ClientProg β) :
    Prog.Returns (orThrow o >>= f) db ↔ ∃ a, o = some a ∧ Prog.Returns (f a) db := by
  cases o with
  | none => exact iff_of_false nofun nofun
  | some a => simp [orThrow, Prog.returns_bind]

@[grind ←] theorem reads_setContent (mb : MessageBlock) (data : Str) :
    Prog.Reads (fun _ => True) (setContent mb data) := by
  grind [setContent]

theorem returns_setContent (mb : MessageBlock) (data : Str) :
    Prog.Returns (setContent mb data) db ↔ data.length < 2147483648 := by
  unfold setContent
  split
  · next h => exact iff_of_true (Prog.returns_pure _ _) h
  · next h => exact iff_of_false (Prog.not_returns_raise _ _) h

end

section

/-- The next number of this server is in use. -/
def NumberTaken (self : Nat) (t : PeerTables) : Prop := (self, wrap32 (maxMessageId self t + 1)) ∈ t.peerMessage

/-- The blob has its place in memory, and the message can be processed. -/
structure Handled (s : Server) (db : Db) (m : Message) : Prop where
  data : ∀ size, storageRequired m = some size → extent 0 (fields m) ≤ size
  blob : ∀ size, storageRequired m = some size → ¬NumberTaken (getId s db.peer) db.peer →
    blobHeader + size < 4294967296 ∧ Ready db.contest m

variable {s} {db : Db} {m : Message}

theorem snd_makeMessage_eq_none_iff (self now : Nat) (fresh : Fresh) (t : PeerTables) {size : Nat}
    (hsize : storageRequired m = some size) :
    (Peer.Store.makeMessage self now fresh t m).2 = none ↔ NumberTaken self t := by
  rw [Peer.Store.makeMessage, hsize]
  dsimp only
  unfold putLocalMessage NumberTaken insertPeerMessage Table.insertNew
  dsimp only
  split
  · next h =>
    split at h
    · next hmem => exact iff_of_true rfl hmem
    · cases h
  · next h =>
    split at h
    · cases h
    · next hmem => exact iff_of_false nofun hmem

theorem contest_makeMessage (m : Message) (db : Db) : (Prog.final (makeMessage s m) db).contest = db.contest := by
  unfold makeMessage
  split
  · rfl
  · split
    · rw [Prog.final_read_bind]
      dsimp only
      rw [Prog.final_set_bind]
      split
      · rfl
      · unfold makeBlob
        split
        · rfl
        · rfl
    · rfl

theorem makeMessage_cases (m : Message) (db : Db) :
    (Prog.result (makeMessage s m) db = .ok none ∧
      (storageRequired m = none ∨ ∃ size, storageRequired m = some size ∧ extent 0 (fields m) ≤ size ∧
        NumberTaken (getId s db.peer) db.peer)) ∨
    (∃ key, Prog.result (makeMessage s m) db = .ok (some key)) ∧
      (∃ size, storageRequired m = some size ∧ extent 0 (fields m) ≤ size ∧
        ¬NumberTaken (getId s db.peer) db.peer ∧ blobHeader + size < 4294967296) ∨
    (∃ fault, Prog.result (makeMessage s m) db = .error fault) ∧
      (∃ size, storageRequired m = some size ∧ (extent 0 (fields m) ≤ size →
        ¬NumberTaken (getId s db.peer) db.peer ∧ ¬blobHeader + size < 4294967296)) := by
  unfold makeMessage
  split
  · next hsize => exact .inl ⟨rfl, .inl hsize⟩
  · next size hsize =>
    split
    · next hextent =>
      rw [Prog.result_read_bind]
      dsimp only
      rw [Prog.result_set_bind]
      have hnone := snd_makeMessage_eq_none_iff (getId s db.peer) (time32 s) s.fresh db.peer hsize
      cases hkey : (Peer.Store.makeMessage (getId s db.peer) (time32 s) s.fresh db.peer m).2 with
      | none => exact .inl ⟨rfl, .inr ⟨size, hsize, hextent, hnone.mp hkey⟩⟩
      | some key =>
        have hfree : ¬NumberTaken (getId s db.peer) db.peer := by
          intro htaken
          rw [hnone.mpr htaken] at hkey
          cases hkey
        dsimp only
        unfold makeBlob
        split
        · next hblob => exact .inr (.inl ⟨⟨key, rfl⟩, size, hsize, hextent, hfree, hblob⟩)
        · next hblob => exact .inr (.inr ⟨⟨.outOfBounds, rfl⟩, size, hsize, fun _ => ⟨hfree, hblob⟩⟩)
    · next hextent => exact .inr (.inr ⟨⟨.outOfBounds, rfl⟩, size, hsize, fun h => absurd h hextent⟩)

theorem returns_triggerMessage (hdb : InRange db.contest) (hm : Fits m) (reply : MessageBlock) :
    Prog.Returns (triggerMessage s m reply) db ↔ Handled s db m := by
  rw [triggerMessage, Prog.returns_bind]
  obtain ⟨hmade, hwhy⟩ | ⟨⟨key, hmade⟩, size, hsize, hextent, hfree, hblob⟩ | ⟨⟨fault, hmade⟩, size, hsize, hwhy⟩ :=
    makeMessage_cases (s := s) m db
  · refine iff_of_true ⟨none, hmade, Prog.returns_pure _ _⟩ ?_
    obtain hsize | ⟨size, hsize, hextent, htaken⟩ := hwhy
    · refine ⟨fun size h => ?_, fun size h => ?_⟩ <;>
        · rw [hsize] at h
          cases h
    · refine ⟨fun size' h => ?_, fun size' h hfree => absurd htaken hfree⟩
      obtain rfl := Option.some.inj (hsize.symm.trans h)
      exact hextent
  · have hrange : InRange (Prog.final (makeMessage s m) db).contest := by
      rw [contest_makeMessage]
      exact hdb
    have hready := returns_process_iff hrange hm (env s (getId s (Prog.final (makeMessage s m) db).peer)) key
    rw [contest_makeMessage] at hready
    constructor
    · rintro ⟨made, hmade', hreturns⟩
      obtain rfl := Except.ok.inj (hmade.symm.trans hmade')
      dsimp only at hreturns
      rw [Prog.returns_read_bind, Prog.returns_bind] at hreturns
      obtain ⟨status, hstatus, -⟩ := hreturns
      have hprocessed := hready.mp ((Prog.returns_embed _ _ _ _).mp ⟨status, hstatus⟩)
      refine ⟨fun size' h => ?_, fun size' h _ => ?_⟩
      · obtain rfl := Option.some.inj (hsize.symm.trans h)
        exact hextent
      · obtain rfl := Option.some.inj (hsize.symm.trans h)
        exact ⟨hblob, hprocessed⟩
    · intro hhandled
      refine ⟨some key, hmade, ?_⟩
      dsimp only
      rw [Prog.returns_read_bind, Prog.returns_bind]
      obtain ⟨status, hstatus⟩ :=
        (Prog.returns_embed Effect.peer ClientFault.processing _ _).mpr (hready.mpr (hhandled.blob size hsize hfree).2)
      exact ⟨status, hstatus, Prog.returns_pure _ _⟩
  · refine iff_of_false ?_ fun hhandled => ?_
    · rintro ⟨made, hmade', -⟩
      cases hmade.symm.trans hmade'
    · obtain ⟨hfree, hblob⟩ := hwhy (hhandled.data size hsize)
      exact hblob (hhandled.blob size hsize hfree).1

end

end Abacus.Client.Action
