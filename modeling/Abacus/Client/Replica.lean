import Abacus.Client.Totality
import Abacus.Peer.Decoded
import Abacus.Peer.RoundTrip

/-! # What the other servers receive

The server of the request processes the message as it was made, and the others what they load from the
block. The two agree if no string has a zero byte and the class has a functor.
-/

namespace Abacus.Client.Replica

open Library.Bytes Client.Block Client.Action Client.Process Client.Created
open Database.Schema Peer.Classes Peer.Store Peer.Blob Peer.Decoded Peer.RoundTrip

variable (s : Server) (cc : Connection) (mb : MessageBlock) (db : Db)

/-- The request is let through to its handler, and the message that the handler makes is stored and sent. -/
def Sends (m : Message) : Prop :=
  getId s db.peer ≠ 0 ∧ ∃ action, findAction mb.action = some action ∧
    (permissionTest action).matches cc.permissions = true ∧
    (∃ r, (answer s cc mb action).result db = .ok (.message m r)) ∧
    ∃ key, (makeMessage s m).result db = .ok (some key)

/-- Another server with the same modules rebuilds the message from its block. -/
def Rebuilt (h : Header) (m : Message) : Prop :=
  ∃ size blob, storageRequired m = some size ∧ makeBlob h m.class.messageTypeId (store s.fresh m size) = .ok blob ∧
    buildMessage classOfTypeId blob = .ok (h, m)

variable {s cc mb db} {m : Message}

theorem registered_of_rebuilt {h : Header} (hrebuilt : Rebuilt s h m) : m.class.registered = true := by
  obtain ⟨size, blob, -, hblob, hbuild⟩ := hrebuilt
  by_contra hno
  have hclass : classOfTypeId (u32 blob 12) = none := by
    rw [u32_makeBlob (messageTypeId_lt _) hblob, classOfTypeId_messageTypeId, if_neg hno]
  unfold buildMessage at hbuild
  rw [hclass] at hbuild
  split at hbuild <;> cases hbuild

theorem dataSize_of_plain {size : Nat} (hplain : Plain m) (hsize : storageRequired m = some size)
    (hextent : extent 0 (fields m) ≤ size) : size = dataSize m := by
  rw [dataSize_eq_extent hplain] at hextent
  unfold storageRequired at hsize
  dsimp only at hsize
  split at hsize
  · cases hsize
    change dataSize m ≤ wrap32 (dataSize m) at hextent
    have hmod := Nat.mod_le (dataSize m) 4294967296
    exact Nat.le_antisymm hmod hextent
  · cases hsize

/-- The other servers get the same message exactly if its class has a functor and no string has a zero byte. -/
theorem rebuilt_iff_plain (hdb : Bounded db) (hsends : Sends s cc mb db m) (h : Header) :
    Rebuilt s h m ↔ m.class.registered = true ∧ Plain m := by
  obtain ⟨-, action, -, -, ⟨r, hanswer⟩, key, hmade⟩ := hsends
  have hformed : Wellformed m := gives_answer hdb action _ hanswer
  constructor
  · intro hrebuilt
    refine ⟨registered_of_rebuilt hrebuilt, ?_⟩
    obtain ⟨size, blob, -, -, hbuild⟩ := hrebuilt
    exact plain_of_buildMessage hbuild
  · rintro ⟨hregistered, hplain⟩
    obtain ⟨hnone, -⟩ | ⟨-, size, hsize, hextent, -, hblob⟩ | ⟨⟨fault, hfault⟩, -⟩ := makeMessage_cases (s := s) m db
    · cases hnone.symm.trans hmade
    · obtain rfl := dataSize_of_plain hplain hsize hextent
      have hfunctor : classOfTypeId m.class.messageTypeId = some m.class := by
        rw [classOfTypeId_messageTypeId, if_pos hregistered]
      obtain ⟨blob, hmake, hbuild⟩ := rebuilds_of_plain s.fresh hfunctor (hformed.typed (by omega)) hplain
        hformed.filesNamed hblob
      exact ⟨dataSize m, blob, hsize, hmake, hbuild⟩
    · cases hfault.symm.trans hmade

section

open Client.Totality

def ask (question : Str) : MessageBlock :=
  (MessageBlock.ofAction (str "clarificationrequest")).set (str "question") question

def asked (question : Str) : ClarificationMessage where
  request := 1
  clarificationRequestId := 1
  clarificationId := 0
  userId := 33
  probId := 0
  time := 100
  serverId := 1
  text := question

theorem sends_question {question : Str}
    (hmade : ∃ key, (makeMessage server (.clarification (asked question))).result ⟨.empty, .empty⟩ = .ok (some key)) :
    Sends server contestant (ask question) ⟨.empty, .empty⟩ (.clarification (asked question)) := by
  have haction : findAction (ask question).action = some .clarificationrequest := by
    change findAction (str "clarificationrequest") = some .clarificationrequest
    decide
  exact ⟨by decide, .clarificationrequest, haction, by decide, ⟨_, rfl⟩, hmade⟩

theorem rebuilt_question : Rebuilt server header (.clarification (asked (str "ab"))) := by
  have hsends : Sends server contestant (ask (str "ab")) ⟨.empty, .empty⟩ (.clarification (asked (str "ab"))) :=
    sends_question ⟨(1, 1), by decide +kernel⟩
  exact (rebuilt_iff_plain bounded_empty hsends header).mpr ⟨by decide, by decide⟩

/-- No header value has a newline, which would end it. -/
def OneLine (mb : MessageBlock) : Prop := ∀ p ∈ mb.headers.toList, (10 : UInt8) ∉ p.2

/-- The question has a zero byte in it. -/
theorem not_rebuilt_zero_byte :
    ¬∀ s cc mb db m h, Bounded db → OneLine mb → Sends s cc mb db m → Rebuilt s h m := by
  intro hall
  let question : Str := [97, 0, 98]
  have hsends : Sends server contestant (ask question) ⟨.empty, .empty⟩ (.clarification (asked question)) :=
    sends_question ⟨(1, 1), by decide +kernel⟩
  have hline : OneLine (ask question) := by
    unfold OneLine
    decide
  obtain ⟨size, blob, -, -, hbuild⟩ := hall _ _ _ _ _ header bounded_empty hline hsends
  exact absurd (plain_of_buildMessage hbuild) (by decide)

end

end Abacus.Client.Replica
