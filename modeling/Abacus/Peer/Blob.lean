import Abacus.Library.Written
import Abacus.Peer.Load
import Abacus.Peer.Store

/-! # Blobs

A header of fixed size with the numbers and the signature of a message, and then its data. The receiver
finds the class by the number of its type.
-/

namespace Abacus.Peer.Blob

open Library.Bytes Library.Written Peer.Classes Peer.Load Peer.Store

def signatureSize : Nat := 128

structure Header where
  serverId : Nat
  messageId : Nat
  time : Nat
  signature : Str
  serverId_lt : serverId < 4294967296
  messageId_lt : messageId < 4294967296
  time_lt : time < 4294967296
  length_signature : signature.length = signatureSize
  deriving DecidableEq

/-- The size of the block is a word, and so much is allocated. -/
def makeBlob (h : Header) (messageTypeId : Nat) (data : Str) : Read Str :=
  if blobHeader + data.length < 4294967296 then
    return le32 h.serverId ++ (le32 h.messageId ++ (le32 h.time ++ (le32 messageTypeId ++ (h.signature ++ data))))
  else throw .outOfBounds

abbrev Functors := Nat → Option MessageClass

def headerOf (blob : Str) (h : blobHeader < blob.length) : Header where
  serverId := u32 blob 0
  messageId := u32 blob 4
  time := u32 blob 8
  signature := (blob.drop 16).take signatureSize
  serverId_lt := u32_lt blob 0
  messageId_lt := u32_lt blob 4
  time_lt := u32_lt blob 8
  length_signature := by
    rw [List.length_take, List.length_drop]
    unfold blobHeader at h
    unfold signatureSize
    omega

/-- A null pointer is returned for a block that is too short, a type without functor and data that `load` rejects. -/
def buildMessage (functors : Functors) (blob : Str) : Read (Header × Message) :=
  if h : blobHeader < blob.length then
    match functors (u32 blob 12) with
    | none => throw .reject
    | some cls => do
      let (m, used) ← load cls (blob.drop blobHeader)
      if used = 4294967295 then throw .reject
      return (headerOf blob h, m)
  else throw .reject

section

def TypedField : Field → Prop
  | .word n => n < 4294967296
  | .int z => -2147483648 ≤ z ∧ z ≤ 2147483647
  | _ => True

def PlainField : Field → Prop
  | .string s | .packed s => 0 ∉ s
  | _ => True

instance : DecidablePred TypedField
  | .word n => inferInstanceAs (Decidable (n < 4294967296))
  | .int z => inferInstanceAs (Decidable (-2147483648 ≤ z ∧ z ≤ 2147483647))
  | .bytes _ | .string _ | .packed _ => isTrue trivial

instance : DecidablePred PlainField
  | .string s | .packed s => inferInstanceAs (Decidable (0 ∉ s))
  | .word _ | .int _ | .bytes _ => isTrue trivial

def fieldImage : Field → Str
  | .word n => le32 n
  | .int z => le32 (z % 4294967296).toNat
  | .bytes s => s
  | .string s | .packed s => s ++ [0]

def image (fs : List Field) : Str := fs.flatMap fieldImage

variable {f : Field} {fs : List Field}

theorem length_fieldImage (f : Field) : (fieldImage f).length = f.length := by
  cases f <;> simp [fieldImage, Field.length]

theorem length_image (fs : List Field) : (image fs).length = (fs.map Field.length).sum := by
  rw [image, List.length_flatMap]
  simp only [length_fieldImage]

theorem write_eq_image (fresh : Fresh) (pos : Nat) (htyped : TypedField f) (hplain : PlainField f) :
    f.write fresh pos = fieldImage f := by
  cases f with
  | word n => rw [Field.write, fieldImage, wrap32, Nat.mod_eq_of_lt htyped]
  | int z | bytes s => rfl
  | string s =>
    rw [Field.write, fieldImage, cstr_eq_self hplain]
    simp
  | packed s => rw [Field.write, fieldImage, cstr_eq_self hplain]

theorem writeAll_eq_image (fresh : Fresh) (pos : Nat) (htyped : ∀ f ∈ fs, TypedField f)
    (hplain : ∀ f ∈ fs, PlainField f) : writeAll fresh pos fs = image fs := by
  induction fs generalizing pos with
  | nil => rfl
  | cons f fs ih =>
    rw [List.forall_mem_cons] at htyped hplain
    rw [writeAll, write_eq_image fresh pos htyped.1 hplain.1, ih _ htyped.2 hplain.2]
    rfl

theorem copied_eq_length (hplain : PlainField f) : f.copied = f.length := by
  cases f with
  | word n | int z | bytes s => rfl
  | string s | packed s => rw [Field.copied, Field.length, cstr_eq_self hplain]

end

section

def Typed (m : Message) : Prop := ∀ f ∈ fields m, TypedField f

/-- No string of the message has a zero byte. -/
def Plain (m : Message) : Prop := ∀ f ∈ fields m, PlainField f

/-- A file without name stands for the one stored before, and has no data. -/
def FilesNamed : Message → Prop
  | .prob m => ∀ (attr : Str) (file : FileAttrib), m.files[attr]? = some file → file.name = [] → file.data = []
  | _ => True

def dataSize (m : Message) : Nat := ((fields m).map Field.length).sum

def written (m : Message) : Nat := ((fields m).map Field.copied).sum

instance (m : Message) : Decidable (Typed m) := inferInstanceAs (Decidable (∀ f ∈ fields m, TypedField f))

instance (m : Message) : Decidable (Plain m) := inferInstanceAs (Decidable (∀ f ∈ fields m, PlainField f))

variable {m : Message}

theorem image_ne_nil (m : Message) : image (fields m) ≠ [] := by
  cases m <;> simp [fields, image, fieldImage, le32]

theorem storageRequired_eq (hproper : proper m = true) (hsize : blobHeader + dataSize m < 4294967296) :
    storageRequired m = some (dataSize m) := by
  unfold dataSize blobHeader at hsize
  have hwrap : wrap32 ((fields m).map Field.length).sum = dataSize m := Nat.mod_eq_of_lt (by omega)
  have hne : dataSize m ≠ 4294967295 := by
    unfold dataSize
    omega
  unfold storageRequired
  rw [hwrap]
  exact if_pos ⟨hproper, hne⟩

theorem store_eq_image (fresh : Fresh) (htyped : Typed m) (hplain : Plain m) :
    store fresh m (dataSize m) = image (fields m) := by
  unfold store
  rw [writeAll_eq_image fresh 0 htyped hplain]
  dsimp only
  rw [length_image, dataSize, Nat.sub_self]
  exact List.append_nil _

theorem written_eq_dataSize (hplain : Plain m) : written m = dataSize m := by
  unfold written dataSize
  rw [List.map_congr_left fun f hf => copied_eq_length (hplain f hf)]

theorem extent_of_plain {fs : List Field} (hplain : ∀ f ∈ fs, PlainField f) (pos : Nat) :
    extent pos fs = if (fs.map Field.length).sum = 0 then 0 else pos + (fs.map Field.length).sum := by
  induction fs generalizing pos with
  | nil => rfl
  | cons f fs ih =>
    obtain ⟨hf, hfs⟩ := List.forall_mem_cons.mp hplain
    have hadvance : f.advance = f.length := by
      cases f with
      | packed s => exact copied_eq_length hf
      | _ => rfl
    rw [extent, copied_eq_length hf, hadvance, ih hfs, List.map_cons, List.sum_cons]
    split <;> split <;> split <;> omega

theorem dataSize_eq_extent (hplain : Plain m) : extent 0 (fields m) = dataSize m := by
  have hne : dataSize m ≠ 0 := by
    rw [dataSize, ← length_image]
    exact fun hzero => image_ne_nil m (List.eq_nil_of_length_eq_zero hzero)
  rw [extent_of_plain hplain 0]
  exact (if_neg hne).trans (Nat.zero_add _)

theorem messageTypeId_lt (c : MessageClass) : c.messageTypeId < 4294967296 := by
  cases c <;> decide

theorem u32_makeBlob {h : Header} {messageTypeId : Nat} {data blob : Str} (hid : messageTypeId < 4294967296)
    (hblob : makeBlob h messageTypeId data = .ok blob) : u32 blob 12 = messageTypeId := by
  unfold makeBlob at hblob
  split at hblob
  · obtain rfl := Except.ok.inj hblob
    have hdrop := drop_written (drop_written (drop_written (List.drop_zero (l := le32 h.serverId ++ (le32 h.messageId ++
      (le32 h.time ++ (le32 messageTypeId ++ (h.signature ++ data))))))))
    exact u32_written hid hdrop
  · cases hblob

/-- If the class can load the data, the block gives back the header and the message. -/
theorem buildMessage_makeBlob_of_load {functors : Functors} {h : Header} {data blob : Str} {used : Nat}
    (hblob : makeBlob h m.class.messageTypeId data = .ok blob)
    (hfunctor : functors m.class.messageTypeId = some m.class) (hload : load m.class data = .ok (m, used))
    (hdata : data ≠ []) (hused : used ≠ 4294967295) : buildMessage functors blob = .ok (h, m) := by
  unfold makeBlob at hblob
  split at hblob
  · obtain rfl := Except.ok.inj hblob
    clear hblob
    generalize hbuf : le32 h.serverId ++ (le32 h.messageId ++ (le32 h.time ++
      (le32 m.class.messageTypeId ++ (h.signature ++ data)))) = blob
    have h₀ : blob.drop 0 = _ := hbuf.symm
    have h₁ := drop_written h₀
    have h₂ := drop_written h₁
    have h₃ := drop_written h₂
    have h₄ := drop_written h₃
    have h₅ := drop_written h₄
    simp only [length_le32, h.length_signature, Nat.zero_add] at h₁ h₂ h₃ h₄ h₅
    have hlen : blobHeader < blob.length := by
      have hpos := List.length_pos_iff.mpr hdata
      have hdrop := congrArg List.length h₅
      rw [List.length_drop] at hdrop
      unfold blobHeader
      unfold signatureSize at hdrop
      omega
    have hheader : headerOf blob hlen = h := by
      have hserver := u32_written h.serverId_lt h₀
      have hmessage := u32_written h.messageId_lt h₁
      have htime := u32_written h.time_lt h₂
      have hsignature : (blob.drop 16).take signatureSize = h.signature := by
        rw [h₄, ← h.length_signature, List.take_left]
      cases h
      simp only [headerOf, Header.mk.injEq]
      exact ⟨hserver, hmessage, htime, hsignature⟩
    rw [buildMessage, dif_pos hlen, u32_written (messageTypeId_lt _) h₃, hfunctor]
    change (load m.class (blob.drop (16 + signatureSize)) >>= _) = _
    rw [h₅, hload]
    change (if used = 4294967295 then _ else _) = _
    rw [if_neg hused, hheader]
    rfl
  · cases hblob

end

end Abacus.Peer.Blob
