import Abacus.Peer.Rebuild
import Abacus.Peer.Store

/-! # Resending messages

A peer that owes acknowledgements is sent all messages that create servers, or else the oldest message alone. A
row that cannot be rebuilt is left out only after the rows are chosen.
-/

namespace Abacus.Replication.Resend

open Library Library.Bytes Database.Peer Peer.Classes Peer.Rebuild Peer.Store

variable (o : OrderBy MessageRow) (t : PeerTables) (a : Nat)

def resendMessage : List (MessageKey × Message) :=
  let msg := getUnacked o t a MessageClass.createServer.messageTypeId 0
  if msg.isEmpty then getUnacked o t a 0 1 else msg

def Rebuilt (row : MessageRow) : Prop := (buildMessage row.2.messageTypeId row.2.data).isSome = true

instance : DecidablePred Rebuilt := fun _ => inferInstanceAs (Decidable (_ = true))

/-- Some message that the server has not acknowledged can be rebuilt. -/
def Pending : Prop := ∃ row ∈ unackedRows t a 0, Rebuilt row

/-- The call sends a message that the server has not acknowledged. -/
def Sends : Prop := ∃ row ∈ unackedRows t a 0, ∃ m, (row.1, m) ∈ resendMessage o t a

def ServerPending : Prop :=
  ∃ row ∈ unackedRows t a 0, Rebuilt row ∧ row.2.messageTypeId = MessageClass.createServer.messageTypeId

instance : Decidable (Pending t a) := inferInstanceAs (Decidable (∃ row ∈ unackedRows t a 0, Rebuilt row))

instance : Decidable (ServerPending t a) := inferInstanceAs (Decidable (∃ row ∈ unackedRows t a 0, Rebuilt row ∧ _ = _))

/-- Such a message is there, or every oldest message can be rebuilt. -/
def Sendable : Prop :=
  ServerPending t a ∨
    ∀ row, OrderBy.Least (fun r : MessageRow => (r.2.time : Int)) (unackedRows t a 0) row → Rebuilt row

variable {o t a}

theorem mem_unackedRows {row : MessageRow} {messageTypeId : Nat} : row ∈ unackedRows t a messageTypeId ↔
    row ∈ unackedRows t a 0 ∧ (messageTypeId ≠ 0 → row.2.messageTypeId = messageTypeId) := by
  simp only [unackedRows, List.mem_filter, decide_eq_true_eq]
  grind

theorem exists_mem_getMessages {rows : List MessageRow} {key : MessageKey} :
    (∃ m, (key, m) ∈ getMessages rows) ↔ ∃ row, (key, row) ∈ rows ∧ Rebuilt (key, row) := by
  simp only [mem_getMessages, Rebuilt, Option.isSome_iff_exists]
  exact ⟨fun ⟨m, row, hrow, hm⟩ => ⟨row, hrow, m, hm⟩, fun ⟨row, hrow, m, hm⟩ => ⟨m, row, hrow, hm⟩⟩

theorem sends_of_serverPending (h : ServerPending t a) : Sends o t a := by
  obtain ⟨row, hunacked, hrebuilt, htype⟩ := h
  obtain ⟨m, hmem⟩ : ∃ m, (row.1, m) ∈ getUnacked o t a MessageClass.createServer.messageTypeId 0 := by
    refine exists_mem_getMessages.mpr ⟨row.2, ?_, hrebuilt⟩
    exact (o.perm _ _).mem_iff.mpr (mem_unackedRows.mpr ⟨hunacked, fun _ => htype⟩)
  refine ⟨row, hunacked, m, ?_⟩
  rw [resendMessage, if_neg fun hempty => ?_]
  · exact hmem
  · rw [List.isEmpty_iff.mp hempty] at hmem
    cases hmem

theorem resendMessage_of_not_serverPending (h : ¬ServerPending t a) : resendMessage o t a = getUnacked o t a 0 1 := by
  refine if_pos (List.isEmpty_iff.mpr (List.eq_nil_iff_forall_not_mem.mpr ?_))
  rintro ⟨key, m⟩ hmem
  obtain ⟨row, hrow, hrebuilt⟩ := exists_mem_getMessages.mp ⟨m, hmem⟩
  obtain ⟨hunacked, htype⟩ := mem_unackedRows.mp ((o.perm _ _).mem_iff.mp hrow)
  exact h ⟨(key, row), hunacked, hrebuilt, htype (by decide)⟩

theorem sends_iff_head (h : ¬ServerPending t a) :
    Sends o t a ↔ ∃ row, (o.sort (fun r => (r.2.time : Int)) (unackedRows t a 0)).head? = some row ∧ Rebuilt row := by
  have hperm := o.perm (fun r => (r.2.time : Int)) (unackedRows t a 0)
  simp only [Sends, resendMessage_of_not_serverPending h, getUnacked, exists_mem_getMessages, List.take_one,
    Option.mem_toList, ne_eq, one_ne_zero, not_false_eq_true, if_true]
  constructor
  · rintro ⟨row, -, row', hhead, hrebuilt⟩
    exact ⟨(row.1, row'), hhead, hrebuilt⟩
  · rintro ⟨row, hhead, hrebuilt⟩
    exact ⟨row, hperm.mem_iff.mp (List.mem_of_mem_head? hhead), row.2, hhead, hrebuilt⟩

/-- A call sends a message exactly if one that creates a server can be rebuilt, or all of the oldest ones can. -/
theorem forall_sends_iff_sendable (h : Pending t a) : (∀ o, Sends o t a) ↔ Sendable t a := by
  by_cases hserver : ServerPending t a
  · exact iff_of_true (fun o => sends_of_serverPending hserver) (.inl hserver)
  · have hhead := OrderBy.forall_exists_head?_iff (fun _ : Unit => True) (fun r : MessageRow => (r.2.time : Int))
      (fun _ => unackedRows t a 0) Rebuilt
    simp only [true_and, exists_const] at hhead
    obtain ⟨row, hrow, -⟩ := h
    simp only [sends_iff_head hserver, hhead, Sendable, hserver, false_or]
    exact and_iff_right (List.ne_nil_of_mem hrow)

def admin (hashpw : Str) : MessageCreateUser where
  userId := 1
  type := 1
  groupId := 1
  requestorId := 0
  username := str "admin"
  friendlyname := str "Administrator"
  password := hashpw

def initialMessages (localname hashpw : Str) : List Message :=
  [.createServer { serverId := 1, name := localname, attribs := ∅ },
    .createGroup { groupId := 1, groupname := str "default" }, .createUser (admin hashpw)]

def makeAll (t : PeerTables) (ms : List (Nat × Message)) : PeerTables :=
  ms.foldl (fun t m => (makeMessage 1 m.1 (fun _ => 0) t m.2).1) t

def joined : PeerTables :=
  let t := makeAll .empty ([10, 10, 11].zip (initialMessages (str "one") (str "0")))
  let t := (addServer 1 t (str "one") 1).1
  let t := makeAll t [(20, .createServer { serverId := 2, name := str "two", attribs := ∅ })]
  (addServer 1 t (str "two") 2).1

theorem sends_joined : Pending joined 2 ∧ ∀ o, Sends o joined 2 := by
  have hpending : Pending joined 2 := by decide
  exact ⟨hpending, (forall_sends_iff_sendable hpending).mpr (.inl (by decide))⟩

/-- The oldest message that is left creates the default group. -/
def stuck : PeerTables := ackMessage (ackMessage joined (1, 1) 2) (1, 4) 2

theorem not_sends_stuck : Pending stuck 2 ∧ ¬Sends .stable stuck 2 := by
  have hnothing : resendMessage .stable stuck 2 = [] := by decide
  refine ⟨by decide, ?_⟩
  rintro ⟨row, -, m, hmem⟩
  rw [hnothing] at hmem
  cases hmem

end Abacus.Replication.Resend
