import Abacus.Database.Peer
import Abacus.Library.OrderBy
import Abacus.Peer.Load

/-! # Messages from the database

A row of a type without functor, or one that `load` rejects, is left out of the list.
-/

namespace Abacus.Peer.Rebuild

open Library Library.Bytes Database.Peer Peer.Classes Peer.Load

def buildMessage (messageTypeId : Nat) (data : Str) : Option Message :=
  match classOfTypeId messageTypeId with
  | none => none
  | some cls =>
    match load cls data with
    | .ok (m, _) => some m
    | .error _ => none

abbrev MessageRow := MessageKey × PeerMessage

def getMessages (rows : List MessageRow) : List (MessageKey × Message) :=
  rows.filterMap fun r => (buildMessage r.2.messageTypeId r.2.data).map fun m => (r.1, m)

variable (o : OrderBy MessageRow) (t : PeerTables)

def unprocessedRows : List MessageRow := t.peerMessage.toList.filter fun r => !r.2.processed

def getUnprocessedMessages : List (MessageKey × Message) :=
  getMessages (o.sort (fun r => (r.2.time : Int)) (unprocessedRows t))

variable (ackServer : Nat)

def unackedRows (messageTypeId : Nat) : List MessageRow :=
  t.peerMessage.toList.filter fun r =>
    (r.1, ackServer) ∈ t.noAck ∧ (messageTypeId ≠ 0 → r.2.messageTypeId = messageTypeId)

/-- The oldest of these rows, as many as the limit says, or all for 0. -/
def getUnacked (messageTypeId limit : Nat) : List (MessageKey × Message) :=
  let rows := o.sort (fun r => (r.2.time : Int)) (unackedRows t ackServer messageTypeId)
  getMessages (if limit ≠ 0 then rows.take limit else rows)

structure Holds (m : Message) (row : PeerMessage) : Prop where
  type : row.messageTypeId = m.class.messageTypeId
  data : ∃ used, load m.class row.data = .ok (m, used)

variable {t}

variable {m : Message} {key : MessageKey}

theorem Holds.buildMessage {row : PeerMessage} (h : Holds m row) :
    buildMessage row.messageTypeId row.data = if m.class.registered then some m else none := by
  obtain ⟨used, hload⟩ := h.data
  rw [Rebuild.buildMessage, h.type, classOfTypeId_messageTypeId]
  cases m.class.registered with
  | false => rfl
  | true => simp only [if_true, hload]

theorem mem_getMessages {rows : List MessageRow} :
    (key, m) ∈ getMessages rows ↔ ∃ row,
      (key, row) ∈ rows ∧ Rebuild.buildMessage row.messageTypeId row.data = some m := by
  simp only [getMessages, List.mem_filterMap, Option.map_eq_some_iff, Prod.mk.injEq]
  constructor
  · rintro ⟨⟨key', row⟩, hrow, m', hm', rfl, rfl⟩
    exact ⟨row, hrow, hm'⟩
  · rintro ⟨row, hrow, hm⟩
    exact ⟨(key, row), hrow, m, hm, rfl, rfl⟩

theorem mem_unprocessedRows {row : PeerMessage} :
    (key, row) ∈ unprocessedRows t ↔ t.peerMessage[key]? = some row ∧ row.processed = false := by
  rw [unprocessedRows, List.mem_filter, Std.ExtTreeMap.mem_toList_iff_getElem?_eq_some, Bool.not_eq_true']

theorem mem_getUnprocessedMessages :
    (key, m) ∈ getUnprocessedMessages o t ↔ ∃ row, t.peerMessage[key]? = some row ∧ row.processed = false ∧
      Rebuild.buildMessage row.messageTypeId row.data = some m := by
  rw [getUnprocessedMessages, mem_getMessages]
  simp only [(o.perm _ _).mem_iff, mem_unprocessedRows, and_assoc]

theorem map_fst_getMessages_sublist (rows : List MessageRow) :
    ((getMessages rows).map Prod.fst).Sublist (rows.map Prod.fst) := by
  induction rows with
  | nil => exact .slnil
  | cons r rows ih =>
    rw [getMessages, List.filterMap_cons]
    cases Rebuild.buildMessage r.2.messageTypeId r.2.data with
    | none => exact ih.cons _
    | some m => exact ih.cons_cons _

theorem nodup_keys_unprocessedRows (t : PeerTables) : ((unprocessedRows t).map Prod.fst).Nodup := by
  have hkeys : (t.peerMessage.toList.map Prod.fst).Nodup := by
    rw [List.Nodup, List.pairwise_map]
    refine Std.ExtTreeMap.distinct_keys_toList.imp fun hne heq => hne ?_
    exact Std.LawfulEqOrd.compare_eq_iff_eq.mpr heq
  exact (List.filter_sublist.map Prod.fst).nodup hkeys

theorem nodup_keys_getUnprocessedMessages : ((getUnprocessedMessages o t).map Prod.fst).Nodup := by
  refine (map_fst_getMessages_sublist _).nodup ?_
  exact ((o.perm _ _).map Prod.fst).nodup_iff.mpr (nodup_keys_unprocessedRows t)

end Abacus.Peer.Rebuild
