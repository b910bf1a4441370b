import Abacus.Library.Bytes
import Abacus.Library.Table
import Mathlib.Data.Finset.Image

/-! # The replication tables

`Server`, `PeerMessage` and `PeerMessageNoAck`, and the functions of the database connection as sequences
of statements on them.
-/

namespace Abacus.Database.Peer

open Library Library.Bytes

abbrev MessageKey := Nat × Nat

structure PeerMessage where
  messageTypeId : Nat
  time : Nat
  signature : Str
  data : Str
  processed : Bool
  deriving DecidableEq

structure PeerTables where
  server : Table Nat Str
  peerMessage : Table MessageKey PeerMessage
  /-- Pairs of a message and the server that has not acknowledged it. -/
  noAck : Finset (MessageKey × Nat)
  deriving DecidableEq

def PeerTables.empty : PeerTables := { server := ∅, peerMessage := ∅, noAck := ∅ }

variable (self : Nat) (t : PeerTables)

def insertServer (id : Nat) (name : Str) : Option PeerTables :=
  (Table.insertNew t.server id name).map fun server => { t with server }

def insertPeerMessage (key : MessageKey) (row : PeerMessage) : Option PeerTables :=
  (Table.insertNew t.peerMessage key row).map fun peerMessage => { t with peerMessage }

/-- `INSERT … SELECT` into the table of missing acknowledgements: all rows of the batch or none. -/
def insertNoAck (batch : Finset (MessageKey × Nat)) : Option PeerTables :=
  if Disjoint batch t.noAck then some { t with noAck := t.noAck ∪ batch } else none

def serverBatch (id : Nat) : Finset (MessageKey × Nat) := t.peerMessage.keys.toFinset.image fun key => (key, id)

/-- The message, for every server but this one and its origin. A local message has this server as its origin. -/
def messageBatch (key : MessageKey) : Finset (MessageKey × Nat) :=
  (t.server.keys.toFinset.filter fun a => a ≠ self ∧ a ≠ key.1).image fun a => (key, a)

def maxMessageId : Nat := ((t.peerMessage.keys.filter fun key => key.1 = self).map Prod.snd).foldl max 0

def ackMessage (key : MessageKey) (ackServer : Nat) : PeerTables :=
  { t with noAck := t.noAck.erase (key, ackServer) }

def hasMessage (key : MessageKey) : Bool := key ∈ t.peerMessage

def markProcessed (key : MessageKey) : PeerTables :=
  { t with peerMessage := t.peerMessage.modify key fun row => { row with processed := true } }

/-- A second statement whose failure is logged and ignored. -/
def orElse (result : Option PeerTables) : PeerTables := result.getD t

variable {t} in
/-- A batch of which no row or every row is there already takes full effect. -/
theorem orElse_insertNoAck_of_whole {batch : Finset (MessageKey × Nat)}
    (h : Disjoint batch t.noAck ∨ batch ⊆ t.noAck) :
    orElse t (insertNoAck t batch) = { t with noAck := t.noAck ∪ batch } := by
  unfold orElse insertNoAck
  by_cases hdisj : Disjoint batch t.noAck
  · rw [if_pos hdisj]
    rfl
  · rw [if_neg hdisj, Finset.union_eq_left.mpr (h.resolve_left hdisj)]
    rfl

def addServer (name : Str) (id : Nat) : PeerTables × Bool :=
  match insertServer t id name with
  | none => (t, false)
  | some t => (if id ≠ self then orElse t (insertNoAck t (serverBatch t id)) else t, true)

def putRemoteMessage (key : MessageKey) (row : PeerMessage) : PeerTables × Bool :=
  match insertPeerMessage t key row with
  | none => (t, false)
  | some t => (orElse t (insertNoAck t (messageBatch self t key)), true)

def putLocalMessage (row : PeerMessage) : PeerTables × Option MessageKey :=
  let key := (self, wrap32 (maxMessageId self t + 1))
  match insertPeerMessage t key row with
  | none => (t, none)
  | some t => (orElse t (insertNoAck t (messageBatch self t key)), some key)

section

/-- Messages are never deleted, and no acknowledgement comes in. -/
def Grows (t t' : PeerTables) : Prop := (∀ key ∈ t.peerMessage, key ∈ t'.peerMessage) ∧ t.noAck ⊆ t'.noAck

variable {t} {t' t'' : PeerTables} {key : MessageKey} {row : PeerMessage}

theorem Grows.refl (t : PeerTables) : Grows t t := ⟨fun _ h => h, Finset.Subset.refl _⟩

theorem Grows.trans (h : Grows t t') (h' : Grows t' t'') : Grows t t'' :=
  ⟨fun key hkey => h'.1 key (h.1 key hkey), h.2.trans h'.2⟩

theorem grows_insertPeerMessage (h : insertPeerMessage t key row = some t') : Grows t t' ∧ key ∉ t.peerMessage ∧
    key ∈ t'.peerMessage := by
  obtain ⟨hfree, rfl⟩ := Table.map_insertNew.mp h
  refine ⟨⟨fun key' hkey' => ?_, Finset.Subset.refl _⟩, hfree, Std.ExtTreeMap.mem_insert_self⟩
  exact Table.mem_insert_row.mpr (.inr hkey')

theorem grows_orElse_insertNoAck (t : PeerTables) (batch : Finset (MessageKey × Nat)) :
    Grows t (orElse t (insertNoAck t batch)) := by
  rw [orElse, insertNoAck]
  split
  · exact ⟨fun _ h => h, Finset.subset_union_left⟩
  · exact .refl t

theorem grows_addServer (t : PeerTables) (name : Str) (id : Nat) : Grows t (addServer self t name id).1 := by
  rw [addServer]
  cases hserver : insertServer t id name with
  | none => exact .refl t
  | some t' =>
    obtain ⟨server, -, rfl⟩ := Option.map_eq_some_iff.mp hserver
    have hgrows : Grows t { t with server } := ⟨fun _ h => h, Finset.Subset.refl _⟩
    dsimp only
    split
    · exact hgrows.trans (grows_orElse_insertNoAck _ _)
    · exact hgrows

theorem grows_putLocalMessage (t : PeerTables) (row : PeerMessage) :
    Grows t (putLocalMessage self t row).1 ∧ ∀ key ∈ (putLocalMessage self t row).2,
      key.1 = self ∧ key ∈ (putLocalMessage self t row).1.peerMessage := by
  unfold putLocalMessage
  dsimp only
  cases hmessage : insertPeerMessage t (self, wrap32 (maxMessageId self t + 1)) row with
  | none => exact ⟨.refl t, nofun⟩
  | some t' =>
    obtain ⟨hgrows, -, hmem⟩ := grows_insertPeerMessage hmessage
    have hbook := grows_orElse_insertNoAck t' (messageBatch self t' (self, wrap32 (maxMessageId self t + 1)))
    refine ⟨hgrows.trans hbook, fun key hkey => ?_⟩
    cases hkey
    exact ⟨rfl, hbook.1 _ hmem⟩

theorem grows_markProcessed (t : PeerTables) (key : MessageKey) : Grows t (markProcessed t key) := by
  refine ⟨fun key' hkey' => ?_, Finset.Subset.refl _⟩
  obtain ⟨row, hrow⟩ := Table.mem_iff_exists_row.mp hkey'
  refine Table.mem_iff_exists_row.mpr ?_
  change ∃ row', (t.peerMessage.modify key _)[key']? = some row'
  rw [Table.getElem?_modify_row]
  split
  · next heq => exact ⟨_, congrArg _ (heq ▸ hrow)⟩
  · exact ⟨row, hrow⟩

end

end Abacus.Database.Peer
