import Abacus.Client.Transfer
import Abacus.Messenger.Fragments

/-! # Large messages over TCP

A large message is announced by a frame without its blob. A retriever asks the servers that have announced
it for what it still lacks.
-/

namespace Abacus.Messenger.Retriever

open Library Library.Bytes Client.Block Client.Transfer Messenger.Fragments

/-- `BUFFER_SIZE - sizeof(st_frame)`. -/
def maxUdpMessageSize : Nat := 5120 - 21

inductive FrameType
  | ack
  | inline
  | notify
  deriving DecidableEq

/-- The checksum of a frame is filled in and never looked at. Frames of an unknown type are only logged. -/
structure Frame where
  senderId : Nat
  serverId : Nat
  messageId : Nat
  messageSize : Nat
  type : FrameType
  data : Str
  deriving DecidableEq

def Frame.key (f : Frame) : Nat × Nat := (f.serverId, f.messageId)

def Frame.dataSize (f : Frame) : Nat := if f.type = .inline then f.messageSize else 0

def sendMessage (self : Nat) (m : Outgoing) : Option Frame :=
  match m.blob with
  | none => none
  | some blob =>
    if blob.length = 0 then none
    else if blob.length < maxUdpMessageSize then
      some ⟨self, m.serverId, m.messageId, blob.length, .inline, blob⟩
    else some ⟨self, m.serverId, m.messageId, blob.length, .notify, []⟩

structure TCPRetriever where
  size : Nat
  /-- The servers to ask, each of them once. -/
  servers : List Nat
  deriving DecidableEq

def TCPRetriever.addSourceServer (r : TCPRetriever) (server : Nat) : TCPRetriever :=
  if server ∈ r.servers then r else { r with servers := r.servers ++ [server] }

structure State (α : Type) where
  tcpRetrievers : Table (Nat × Nat) TCPRetriever
  waitables : List (Nat × Nat)
  receivedMessages : List α

/-- `Server::putWaitable`, where waiting without delay is not implemented and only logged. -/
def putWaitable (immediate : Bool) (waitables : List (Nat × Nat)) (key : Nat × Nat) : List (Nat × Nat) :=
  if immediate then waitables else waitables ++ [key]

section

variable {α : Type} (buildMessage : Str → Option α)

def notifyTCPMessage (st : State α) (key : Nat × Nat) (size sender : Nat) : State α :=
  match st.tcpRetrievers[key]? with
  | some r => { st with tcpRetrievers := st.tcpRetrievers.insert key (r.addSourceServer sender) }
  | none =>
    { st with
      tcpRetrievers := st.tcpRetrievers.insert key ⟨size, [sender]⟩
      waitables := putWaitable true st.waitables key }

inductive Effect
  | putAck (serverId messageId ackingServer : Nat)
  | sendAck (serverId messageId toServer : Nat)
  deriving DecidableEq

/-- `UDPReceiver::socket_process` for a packet of a frame and its data, with what `hasMessage` says. -/
def receiveFrame (st : State α) (f : Frame) (hasMessage : Bool) : State α × List Effect :=
  if f.data.length ≠ f.dataSize then (st, [])
  else
    match f.type with
    | .ack => (st, [.putAck f.serverId f.messageId f.senderId])
    | .inline =>
      if hasMessage then (st, [.sendAck f.serverId f.messageId f.senderId])
      else
        match buildMessage f.data with
        | some m => ({ st with receivedMessages := st.receivedMessages ++ [m] }, [])
        | none => (st, [])
    | .notify =>
      if hasMessage then (st, [.sendAck f.serverId f.messageId f.senderId])
      else (notifyTCPMessage st f.key f.messageSize f.senderId, [])

end

section

inductive Attempt
  /-- There is no connection, and no `ThreadSSL` was made in this round. -/
  | unreachable
  /-- The handshake fails, or the request cannot be written. -/
  | unanswered
  /-- What the first read gives, and the bytes after it until the connection ends. -/
  | answered (first rest : Str)
  deriving DecidableEq

structure Loop where
  pos : Nat
  blob : Str
  /-- The pointer of an earlier round is left behind after its object is deleted. -/
  dangling : Bool

inductive Ended (α : Type)
  /-- The `ThreadSSL` of an earlier round is deleted a second time. -/
  | doubleFree
  /-- A header of one byte: the offset of its last two is out of range. -/
  | outOfRange
  /-- The first read did not end with the headers. -/
  | gaveUp
  /-- The size does not fit the `int` of a read. What is done with such a message is left out. -/
  | tooLong
  | unbuilt (blob : Str)
  | delivered (blob : Str) (m : α)
  /-- The loop goes on. -/
  | retrying (loop : Loop)

/-- The bytes are read to the start of the blob, and the position is their number. -/
def Loop.read (l : Loop) (size : Nat) (rest : Str) : Loop where
  pos := (rest.take size).length
  blob := rest.take size ++ l.blob.drop (rest.take size).length
  dangling := true

variable {α : Type} (buildMessage : Str → Option α) (size : Nat)

def socketProcess : List Attempt → Loop → Ended α
  | attempts, l =>
    if l.pos < size then
      match attempts with
      | [] => .retrying l
      | .unreachable :: attempts => if l.dangling then .doubleFree else socketProcess attempts l
      | .unanswered :: attempts => socketProcess attempts { l with dangling := true }
      | .answered first rest :: attempts =>
        if first.length = 1 then .outOfRange
        else if first ≠ [] ∧ first.drop (first.length - 2) ≠ [10, 10] then .gaveUp
        else if 2147483648 ≤ size then .tooLong
        else socketProcess attempts (l.read size rest)
    else
      match buildMessage l.blob with
      | none => .unbuilt l.blob
      | some m => .delivered l.blob m

end

section

variable {α : Type} {buildMessage : Str → Option α} {self : Nat} {m : Outgoing} {original : Str} {st : State α}
    {f : Frame}

theorem waitables_notifyTCPMessage (st : State α) (key : Nat × Nat) (size sender : Nat) :
    (notifyTCPMessage st key size sender).waitables = st.waitables := by
  unfold notifyTCPMessage
  split <;> rfl

theorem waitables_receiveFrame (hasMessage : Bool) :
    (receiveFrame buildMessage st f hasMessage).1.waitables = st.waitables := by
  unfold receiveFrame
  split
  · rfl
  · split
    · rfl
    · split
      · rfl
      · split <;> rfl
    · split
      · rfl
      · exact waitables_notifyTCPMessage _ _ _ _

theorem sendMessage_large (hblob : m.blob = some original) (hlarge : maxUdpMessageSize ≤ original.length) :
    sendMessage self m = some ⟨self, m.serverId, m.messageId, original.length, .notify, []⟩ := by
  have hpos : original.length ≠ 0 := by
    unfold maxUdpMessageSize at hlarge
    omega
  simp only [sendMessage, hblob, hpos, if_false, if_neg (Nat.not_lt.mpr hlarge)]

theorem size_notifyTCPMessage (st : State α) (key : Nat × Nat) (size sender : Nat)
    (hknown : ∀ r, st.tcpRetrievers[key]? = some r → r.size = size) :
    ∃ r, (notifyTCPMessage st key size sender).tcpRetrievers[key]? = some r ∧ r.size = size := by
  unfold notifyTCPMessage
  split
  · next r hr =>
    refine ⟨r.addSourceServer sender, ?_, ?_⟩
    · rw [Table.getElem?_insert_row, if_pos rfl]
    · unfold TCPRetriever.addSourceServer
      split
      · exact hknown r hr
      · exact hknown r hr
  · refine ⟨⟨size, [sender]⟩, ?_, rfl⟩
    rw [Table.getElem?_insert_row, if_pos rfl]

end

section

/-- A reply of which so many bytes of the content arrive. Its headers are what the first read gives. -/
structure Reply where
  headers : Str
  bytes : Nat
  ends : ∃ lines, headers = lines ++ [10, 10]

def messagePut (suffix : Str) : MessageBlock := (MessageBlock.ofAction (str "udtcppeermessageput")).setContent suffix

theorem headerLines_ends (headers : List (Str × Str)) (h : headers ≠ []) :
    ∃ lines, headerLines headers = lines ++ [10] := by
  obtain ⟨init, last, rfl⟩ := (List.eq_nil_or_concat' headers).resolve_left h
  refine ⟨headerLines init ++ headerLine last, ?_⟩
  simp [headerLines]

theorem getRaw_messagePut {suffix : Str} (h : suffix ≠ []) :
    ∃ r : Reply, r.bytes = suffix.length ∧ getRaw (messagePut suffix) = r.headers ++ suffix := by
  have hheaders : (messagePut suffix).headers.toList ≠ [] := by
    have hmem : (str "content-length", Misc.decimal suffix.length) ∈ (messagePut suffix).headers.toList := by
      rw [Std.ExtTreeMap.mem_toList_iff_getElem?_eq_some]
      simp [messagePut, MessageBlock.setContent, MessageBlock.set, h]
    exact List.ne_nil_of_mem hmem
  have hcontent : (messagePut suffix).content = suffix := by
    simp [messagePut, MessageBlock.setContent, h]
  obtain ⟨lines, hlines⟩ := headerLines_ends _ hheaders
  refine ⟨⟨(messagePut suffix).action ++ idPart (messagePut suffix) ++ 10 :: (lines ++ [10, 10]), suffix.length, ?_⟩,
    rfl, ?_⟩
  · exact ⟨(messagePut suffix).action ++ idPart (messagePut suffix) ++ 10 :: lines, by simp⟩
  · simp [getRaw, rawWith, hlines, hcontent]

/-- The rounds of a loop at the position `skip`: each asks for what comes after the position it has reached. -/
def transfers (original : Str) : Nat → List Reply → List Attempt
  | _, [] => []
  | skip, r :: replies =>
    .answered r.headers ((original.drop skip).take r.bytes) ::
      transfers original ((original.drop skip).take r.bytes).length replies

/-- Every reply breaks off before the end of what was asked for. -/
def Broken (size : Nat) : Nat → List Reply → Prop
  | _, [] => True
  | skip, r :: replies => r.bytes < size - skip ∧ Broken size r.bytes replies

def lastBytes : Nat → List Reply → Nat
  | skip, [] => skip
  | _, r :: replies => lastBytes r.bytes replies

variable {α : Type} {buildMessage : Str → Option α} {original : Str} {l : Loop} {skip : Nat}

theorem socketProcess_answered (hpos : l.pos < original.length) (r : Reply) (rest : Str) (attempts : List Attempt) :
    socketProcess buildMessage original.length (.answered r.headers rest :: attempts) l =
      if 2147483648 ≤ original.length then .tooLong
      else socketProcess buildMessage original.length attempts (l.read original.length rest) := by
  obtain ⟨lines, hends⟩ := r.ends
  have hlength : r.headers.length = lines.length + 2 := by
    rw [hends, List.length_append]
    rfl
  have hdrop : r.headers.drop (r.headers.length - 2) = [10, 10] := by
    rw [hlength, hends, Nat.add_sub_cancel, List.drop_left]
  rw [socketProcess, if_pos hpos, if_neg (by omega), if_neg (by simp [hdrop])]

theorem length_read (hlength : l.blob.length = original.length) (rest : Str) :
    (l.read original.length rest).blob.length = original.length := by
  simp only [Loop.read, List.length_append, List.length_drop, List.length_take, hlength]
  omega

/-- The loop is left with the blob exactly if the last reply but one has brought nothing. -/
theorem socketProcess_transfers {replies : List Reply} {whole : Reply} (hpos : l.pos = skip)
    (hskip : skip < original.length) (hlength : l.blob.length = original.length) (hfits : original.length < 2147483648)
    (hbroken : Broken original.length skip replies) (hwhole : original.length ≤ whole.bytes) :
    (lastBytes skip replies = 0 ∧
      socketProcess buildMessage original.length (transfers original skip (replies ++ [whole])) l =
        match buildMessage original with
        | none => .unbuilt original
        | some m => .delivered original m) ∨
    (lastBytes skip replies ≠ 0 ∧ ∃ l', l'.pos < original.length ∧
      socketProcess buildMessage original.length (transfers original skip (replies ++ [whole])) l = .retrying l') := by
  induction replies generalizing l skip with
  | nil =>
    have hall : (original.drop skip).take whole.bytes = original.drop skip := by
      rw [List.take_eq_self_iff, List.length_drop]
      omega
    have htake : (original.drop skip).take original.length = original.drop skip := by
      rw [List.take_eq_self_iff, List.length_drop]
      omega
    simp only [List.nil_append, transfers, lastBytes]
    rw [socketProcess_answered (by omega), if_neg (by omega), hall, socketProcess]
    have hread : (l.read original.length (original.drop skip)).pos = original.length - skip := by
      simp only [Loop.read, htake, List.length_drop]
    by_cases hzero : skip = 0
    · left
      have hblob : (l.read original.length (original.drop skip)).blob = original := by
        have hrest : l.blob.drop original.length = [] := List.drop_eq_nil_of_le hlength.le
        simp only [Loop.read, hzero, List.drop_zero, List.take_length, hrest, List.append_nil]
      rw [if_neg (by omega), hblob]
      exact ⟨hzero, rfl⟩
    · right
      rw [if_pos (by omega)]
      exact ⟨hzero, _, by omega, rfl⟩
  | cons r replies ih =>
    obtain ⟨hr, hrest⟩ := hbroken
    have hbytes : ((original.drop skip).take r.bytes).length = r.bytes := by
      rw [List.length_take, List.length_drop]
      omega
    have hread : (l.read original.length ((original.drop skip).take r.bytes)).pos = r.bytes := by
      simp only [Loop.read, List.length_take, List.length_drop]
      omega
    simp only [List.cons_append, transfers, lastBytes]
    rw [socketProcess_answered (by omega), if_neg (by omega), hbytes]
    exact ih hread (by omega) (length_read hlength _) hrest

theorem delivered_iff {garbage : Str} {replies : List Reply} {whole : Reply} (hpos : 0 < original.length)
    (hgarbage : garbage.length = original.length) (hbroken : Broken original.length 0 replies)
    (hwhole : original.length ≤ whole.bytes) :
    (∃ m, socketProcess buildMessage original.length (transfers original 0 (replies ++ [whole])) ⟨0, garbage, false⟩ =
        .delivered original m) ↔
      original.length < 2147483648 ∧ lastBytes 0 replies = 0 ∧ (buildMessage original).isSome := by
  by_cases hlong : 2147483648 ≤ original.length
  · obtain ⟨r, attempts, hattempts⟩ : ∃ (r : Reply) (attempts : List Attempt),
        transfers original 0 (replies ++ [whole]) =
            .answered r.headers ((original.drop 0).take r.bytes) :: attempts := by
      cases replies with
      | nil => exact ⟨whole, _, rfl⟩
      | cons r replies => exact ⟨r, _, rfl⟩
    rw [hattempts, socketProcess_answered hpos, if_pos hlong]
    simp [hlong]
  have hloop : _ ∨ _ ∧ ∃ l', _ ∧
      socketProcess buildMessage original.length _ (⟨0, garbage, false⟩ : Loop) = .retrying l' :=
    socketProcess_transfers rfl hpos hgarbage (Nat.not_le.mp hlong) hbroken hwhole
  rcases hloop with ⟨hlast, heq⟩ | ⟨hne, l', -, heq⟩
  · rw [heq]
    cases hbuild : buildMessage original with
    | none => simp
    | some m => simp [hlast, Nat.not_le.mp hlong]
  · rw [heq]
    simp [hne]

end

section

variable {α : Type} {buildMessage : Str → Option α} {self : Nat} {m : Outgoing} {original garbage : Str} {st : State α}
  {f : Frame} {replies : List Reply} {whole : Reply}

/-- A retriever is scheduled, and its loop on fresh memory delivers the message after the replies. -/
def Retrieves (buildMessage : Str → Option α) (st : State α) (f : Frame) (original garbage : Str)
    (replies : List Reply) : Prop :=
  f.key ∈ (receiveFrame buildMessage st f false).1.waitables ∧
    ∃ r, (receiveFrame buildMessage st f false).1.tcpRetrievers[f.key]? = some r ∧
      ∃ m, socketProcess buildMessage r.size (transfers original 0 replies) ⟨0, garbage, false⟩ = .delivered original m

/-- A retriever is scheduled only if it was before. It delivers a message that fits, and only if the last reply that
broke off had brought nothing. -/
theorem retrieves_iff (hblob : m.blob = some original) (hlarge : maxUdpMessageSize ≤ original.length)
    (hsend : sendMessage self m = some f) (hknown : ∀ r, st.tcpRetrievers[f.key]? = some r → r.size = original.length)
    (hgarbage : garbage.length = original.length) (hbroken : Broken original.length 0 replies)
    (hwhole : original.length ≤ whole.bytes) :
    Retrieves buildMessage st f original garbage (replies ++ [whole]) ↔
      f.key ∈ st.waitables ∧ original.length < 2147483648 ∧ lastBytes 0 replies = 0 ∧
        (buildMessage original).isSome := by
  have hpos : 0 < original.length := Nat.lt_of_lt_of_le (by decide) hlarge
  rw [sendMessage_large hblob hlarge] at hsend
  obtain rfl := Option.some.inj hsend
  obtain ⟨r, hr, hsize⟩ := size_notifyTCPMessage st (m.serverId, m.messageId) original.length self hknown
  have hretriever : (receiveFrame buildMessage st ⟨self, m.serverId, m.messageId, original.length, .notify, []⟩
      false).1.tcpRetrievers[(m.serverId, m.messageId)]? = some r := hr
  rw [Retrieves, waitables_receiveFrame]
  apply and_congr_right
  intro _
  rw [← delivered_iff hpos hgarbage hbroken hwhole]
  constructor
  · rintro ⟨r', hr', hdelivered⟩
    obtain rfl : r = r' := Option.some.inj (hretriever.symm.trans hr')
    rwa [hsize] at hdelivered
  · intro hdelivered
    exact ⟨r, hretriever, hsize ▸ hdelivered⟩

end

def headers : Str := str "udtcppeermessageput\ncontent-length:5099\n\n"

def reply (bytes : Nat) : Reply :=
  ⟨headers, bytes, str "udtcppeermessageput\ncontent-length:5099", by decide +kernel⟩

def announced : Frame := ⟨2, 1, 4, 5099, .notify, []⟩

def waitingOn (waitables : List (Nat × Nat)) : State Nat := ⟨∅, waitables, []⟩

theorem sendMessage_announced : sendMessage 2 (outgoing (zeros 5099)) = some announced := by
  rw [sendMessage_large rfl (by rw [length_zeros]; decide), length_zeros]
  rfl

theorem retrieves_scheduled :
    Retrieves (fun b => some b.length) (waitingOn [(1, 4)]) announced (zeros 5099) (zeros 5099)
    [reply 5099] := by
  have hlength : (zeros 5099).length = 5099 := length_zeros 5099
  have hlarge : maxUdpMessageSize ≤ (zeros 5099).length := by
    rw [hlength]
    decide
  have hiff : Retrieves (fun b => some b.length) (waitingOn [(1, 4)]) announced (zeros 5099) (zeros 5099)
      ([] ++ [reply 5099]) ↔ _ :=
    retrieves_iff (m := outgoing (zeros 5099)) rfl hlarge sendMessage_announced (by intro r hr; cases hr) rfl trivial
      hlength.le
  exact hiff.mpr ⟨List.mem_singleton_self _, by omega, rfl, rfl⟩

/-- In one go the message is retrieved. A retriever that is waited on gets one byte, and puts the rest where it does not
belong. -/
theorem not_retrieves_broken :
    ¬ Retrieves (fun b => some b.length) (waitingOn []) announced (zeros 5099) (zeros 5099) [reply 5099] ∧
      ¬ Retrieves (fun b => some b.length) (waitingOn [(1, 4)]) announced (zeros 5099) (zeros 5099)
        [reply 1, reply 5099] := by
  constructor
  · rintro ⟨hwait, -⟩
    rw [waitables_receiveFrame] at hwait
    cases hwait
  · rintro ⟨-, r, hr, hdelivered⟩
    have hlength : (zeros 5099).length = 5099 := length_zeros 5099
    obtain ⟨r', hr', hsize⟩ := size_notifyTCPMessage (waitingOn [(1, 4)]) (1, 4) 5099 2 (by intro r hr; cases hr)
    obtain rfl : r' = r := Option.some.inj (hr'.symm.trans hr)
    have hiff : (∃ m, socketProcess (fun b => some b.length) (zeros 5099).length
        (transfers (zeros 5099) 0 ([reply 1] ++ [reply 5099])) ⟨0, zeros 5099, false⟩ =
            .delivered (zeros 5099) m) ↔ _ :=
      delivered_iff (by omega) rfl ⟨by rw [hlength]; decide, trivial⟩ hlength.le
    rw [hlength] at hiff
    rw [hsize] at hdelivered
    exact absurd (hiff.mp hdelivered).2.1 (by decide)

end Abacus.Messenger.Retriever
