import Abacus.Misc
import Abacus.Peer.Classes

/-! # Client messages

The size of the content is the number in the header, so it may be negative; there are content
bytes only if it is positive.
-/

namespace Abacus.Client.Block

open Library.Bytes Peer.Classes

structure MessageBlock where
  action : Str
  messageId : Str
  headers : StringMap Str
  contentSize : Int
  content : Str
  contentMatches : content.length = contentSize.toNat
  deriving DecidableEq

namespace MessageBlock

def ofAction (action : Str) : MessageBlock where
  action
  messageId := []
  headers := ∅
  contentSize := 0
  content := []
  contentMatches := rfl

def get (mb : MessageBlock) (name : Str) : Str := mb.headers.getD name []

def set (mb : MessageBlock) (name value : Str) : MessageBlock :=
  { mb with headers := mb.headers.insert name value }

def setAll (mb : MessageBlock) (attrs : StringMap Str) (suffix : Str) : MessageBlock :=
  attrs.toList.foldl (fun mb (name, value) => mb.set (name ++ suffix) value) mb

def setMessageId (mb : MessageBlock) (id : Str) : MessageBlock := { mb with messageId := id }

def error (msg : Str) : MessageBlock := (ofAction (str "err")).set (str "msg") msg

def ok : MessageBlock := ofAction (str "ok")

/-- The content is set with its size in a header; empty content leaves no content and no header. -/
def setContent (mb : MessageBlock) (data : Str) : MessageBlock :=
  if data = [] then { mb with contentSize := 0, content := [], contentMatches := rfl }
  else { mb.set (str "content-length") (Misc.decimal data.length) with
    contentSize := data.length, content := data, contentMatches := (Int.toNat_natCast _).symm }

theorem action_setContent (mb : MessageBlock) (data : Str) : (mb.setContent data).action = mb.action := by
  unfold setContent
  split <;> rfl

theorem messageId_setContent (mb : MessageBlock) (data : Str) : (mb.setContent data).messageId = mb.messageId := by
  unfold setContent
  split <;> rfl

theorem headers_setContent (mb : MessageBlock) (data : Str) : (mb.setContent data).headers =
    if data = [] then mb.headers else mb.headers.insert (str "content-length") (Misc.decimal data.length) := by
  unfold setContent
  split <;> rfl

theorem content_setContent (mb : MessageBlock) (data : Str) : (mb.setContent data).content = data := by
  unfold setContent
  split
  · next h => exact h.symm
  · rfl

theorem contentSize_setContent (mb : MessageBlock) (data : Str) : (mb.setContent data).contentSize = data.length := by
  unfold setContent
  split
  · next h => rw [h, List.length_nil, Int.natCast_zero]
  · rfl

end MessageBlock

end Abacus.Client.Block
