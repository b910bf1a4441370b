import Mathlib.Algebra.BigOperators.Group.Finset.Piecewise
import Mathlib.Data.Fintype.Basic
import Abacus.Client.Block
import Abacus.Library.Machine
import Abacus.Library.Table

/-! # The blobs that replies share

`TCPTransmitAction` keeps a blob in a container that all requests for it share, counted under a lock. The
reply points into the blob and is serialised after its reference was given up. The two levels of the
map of containers are one table here.
-/

namespace Abacus.Messenger.Transmit

open Library Library.Bytes Misc Client.Block

structure Request where
  serverId : Nat
  messageId : Nat
  skip : Nat
  deriving DecidableEq

/-- No request if a field is not a number: `from_string` throws. -/
def Request.ofBlock (mb : MessageBlock) : Option Request := do
  let serverId ← fromStringU32 (mb.get (str "server_id"))
  let messageId ← fromStringU32 (mb.get (str "message_id"))
  let skip ← fromStringU32 (mb.get (str "skip"))
  return ⟨serverId, messageId, skip⟩

def Request.key (req : Request) : Nat × Nat := (req.serverId, req.messageId)

structure MessageContainer where
  messageBlob : Str
  rfcnt : Int
  deriving DecidableEq

/-- The content of a reply is an address, an offset from it and a size. -/
inductive Reply where
  | error (msg : Str)
  | shared (address : Nat) (offset : Nat) (size : Int)
  deriving DecidableEq

inductive Stage where
  | idle
  | referenced (req : Request) (address : Nat)
  | responded (req : Request) (address : Nat) (resp : Reply)
  -- `int_process` has returned
  | answered (req : Request) (resp : Reply)
  -- there is no container, and the next line reads through a null pointer
  | crashed
  deriving DecidableEq

def Stage.holds : Stage → Option (Request × Nat)
  | .referenced req address | .responded req address _ => some (req, address)
  | _ => none

inductive Fetched where
  | noConnection
  | noRow
  | unbuilt
  | built
  deriving DecidableEq

structure State (n : Nat) where
  messageMap : Table (Nat × Nat) Nat
  /-- The containers that have not been deleted, by their addresses. -/
  containers : Table Nat MessageContainer
  next : Nat
  stages : Fin n → Stage

def start (n : Nat) : State n where
  messageMap := ∅
  containers := ∅
  next := 0
  stages _ := .idle

inductive Label (n : Nat) where
  | lookup (k : Fin n) (mb : MessageBlock) (fetched : Fetched)
  | respond (k : Fin n)
  | release (k : Fin n)
  | serialise (k : Fin n)

/-- The size is passed as an `int`. -/
def makeReply (req : Request) (address blobSize : Nat) : Reply :=
  if req.skip < blobSize then .shared address req.skip (((blobSize - req.skip : Nat) : Int).bmod 4294967296)
  else .error (str "skip < block_size")

section

variable {n : Nat} (blobs : Nat × Nat → Option Str)

def State.enter (s : State n) (k : Fin n) (stage : Stage) : State n :=
  { s with stages := Function.update s.stages k stage }

/-- The first section under the lock. -/
def lookup (s : State n) (k : Fin n) (req : Request) (fetched : Fetched) : Option (State n) :=
  if req.serverId = 0 ∨ req.messageId = 0 then some (s.enter k (.answered req (.error (str "Ill-formed message"))))
  else match s.messageMap[req.key]? with
    | some address =>
      (s.containers[address]?).map fun mc =>
        { s.enter k (.referenced req address) with
          containers := s.containers.insert address { mc with rfcnt := mc.rfcnt + 1 } }
    | none =>
      match fetched with
      | .noConnection => some (s.enter k (.answered req (.error (str "Could not connect to database"))))
      | .noRow => some (s.enter k (.answered req (.error (str "Message not found"))))
      | .unbuilt => some (s.enter k .crashed)
      | .built =>
        (blobs req.key).map fun blob =>
          { s.enter k (.referenced req s.next) with
            messageMap := s.messageMap.insert req.key s.next
            containers := s.containers.insert s.next ⟨blob, 1⟩
            next := s.next + 1 }

/-- The second section under the lock. -/
def release (s : State n) (k : Fin n) (req : Request) (address : Nat) (resp : Reply) : Option (State n) :=
  (s.containers[address]?).map fun mc =>
    if mc.rfcnt - 1 = 0 then
      { s.enter k (.answered req resp) with
        messageMap := s.messageMap.erase req.key
        containers := s.containers.erase address }
    else
      { s.enter k (.answered req resp) with
        containers := s.containers.insert address { mc with rfcnt := mc.rfcnt - 1 } }

/-- There is no step where a container is read that has been deleted. -/
def step (s : State n) : Label n → Option (State n)
  | .lookup k mb fetched =>
    match s.stages k with
    | .idle => (Request.ofBlock mb).bind fun req => lookup blobs s k req fetched
    | _ => none
  | .respond k =>
    match s.stages k with
    | .referenced req address =>
      (s.containers[address]?).map fun mc =>
        s.enter k (.responded req address (makeReply req address mc.messageBlob.length))
    | _ => none
  | .release k =>
    match s.stages k with
    | .responded req address resp => release s k req address resp
    | _ => none
  | .serialise k =>
    match s.stages k with
    | .answered _ _ => some (s.enter k .idle)
    | _ => none

def machine (n : Nat) : Machine (State n) (Label n) := .ofFun (· = start n) (step blobs)

/-- The bytes that `getRaw` copies; none if they have been deleted. -/
def contentAt (s : State n) (address offset : Nat) (size : Int) : Option Str :=
  (s.containers[address]?).map fun mc => (mc.messageBlob.drop offset).take size.toNat

/-- Every reply that is to be serialised points into a container in the map, and to the bytes that were asked for. -/
def Intact (s : State n) : Prop :=
  ∀ k req address offset size, s.stages k = .answered req (.shared address offset size) →
    s.messageMap[req.key]? = some address ∧
      ∃ blob, blobs req.key = some blob ∧ contentAt s address offset size = some (blob.drop req.skip)

/-- When a request gives up its reference, another one has one; and the content fits into an `int`. -/
def Backed (s : State n) : Label n → Prop
  | .release k => ∀ req address, (s.stages k).holds = some (req, address) →
    (∃ j req' address', j ≠ k ∧ (s.stages j).holds = some (req', address') ∧ req'.key = req.key) ∧
      ∀ blob, blobs req.key = some blob → blob.length - req.skip < 2147483648
  | _ => True

end

section

variable {n : Nat}

def references (stages : Fin n → Stage) (address : Nat) : Nat :=
  (Finset.univ.filter fun k => (stages k).holds.map Prod.snd = some address).card

theorem references_update (stages : Fin n → Stage) (k : Fin n) (stage : Stage) (address : Nat) :
    references (Function.update stages k stage) address +
        (if (stages k).holds.map Prod.snd = some address then 1 else 0) =
      references stages address + if stage.holds.map Prod.snd = some address then 1 else 0 := by
  simp only [references, Finset.card_filter]
  rw [← Finset.add_sum_erase _ _ (Finset.mem_univ k), ← Finset.add_sum_erase _ _ (Finset.mem_univ k)]
  have hothers : ∀ j ∈ Finset.univ.erase k, Function.update stages k stage j = stages j := by
    intro j hj
    exact Function.update_of_ne (Finset.ne_of_mem_erase hj) ..
  have hsum := Finset.sum_congr rfl fun j hj => congrArg
    (fun st : Stage => if st.holds.map Prod.snd = some address then 1 else 0) (hothers j hj)
  rw [hsum, Function.update_self]
  omega

variable {stages : Fin n → Stage} {k : Fin n} {stage : Stage} {req : Request} {address : Nat}

theorem references_take (hfree : (stages k).holds = none) (hholds : stage.holds = some (req, address)) (a : Nat) :
    references (Function.update stages k stage) a = references stages a + if address = a then 1 else 0 := by
  have hupdate := references_update stages k stage a
  rw [hfree, hholds] at hupdate
  simpa using hupdate

theorem references_drop (hheld : (stages k).holds = some (req, address)) (hfree : stage.holds = none) (a : Nat) :
    references (Function.update stages k stage) a + (if address = a then 1 else 0) = references stages a := by
  have hupdate := references_update stages k stage a
  rw [hheld, hfree] at hupdate
  simpa using hupdate

theorem references_keep (hholds : stage.holds = (stages k).holds) (a : Nat) :
    references (Function.update stages k stage) a = references stages a := by
  have hupdate := references_update stages k stage a
  rw [hholds] at hupdate
  omega

theorem references_eq_zero (h : ∀ j req, (stages j).holds ≠ some (req, address)) : references stages address = 0 := by
  rw [references, Finset.card_eq_zero, Finset.filter_eq_empty_iff]
  intro j _ hj
  obtain ⟨⟨req, a⟩, hholds, rfl⟩ := Option.map_eq_some_iff.mp hj
  exact h j req hholds

theorem references_eq_one_iff (hheld : (stages k).holds = some (req, address)) :
    references stages address = 1 ↔ ∀ j ≠ k, ∀ req', (stages j).holds ≠ some (req', address) := by
  have hk : k ∈ Finset.univ.filter fun k => (stages k).holds.map Prod.snd = some address := by simp [hheld]
  rw [references, Finset.card_eq_one]
  constructor
  · rintro ⟨i, hi⟩ j hne req' hj
    have hmem : j ∈ Finset.univ.filter fun k => (stages k).holds.map Prod.snd = some address := by simp [hj]
    rw [hi, Finset.mem_singleton] at hk hmem
    exact hne (hmem.trans hk.symm)
  · intro halone
    refine ⟨k, Finset.eq_singleton_iff_unique_mem.mpr ⟨hk, fun j hj => ?_⟩⟩
    obtain ⟨⟨req', a⟩, hholds, rfl⟩ := Option.map_eq_some_iff.mp (Finset.mem_filter.mp hj).2
    by_contra hne
    exact halone j hne req' hholds

end

section

variable {n : Nat} (blobs : Nat × Nat → Option Str)

structure Stage.Sound (messageMap : Table (Nat × Nat) Nat) (stage : Stage) : Prop where
  held : ∀ req a, stage.holds = some (req, a) → messageMap[req.key]? = some a
  made : ∀ req a resp, stage = .responded req a resp → ∃ blob, blobs req.key = some blob ∧
    resp = makeReply req a blob.length

/-- A container in the map has the blob of its message, and its references are counted. -/
structure Owned (s : State n) : Prop where
  counted : ∀ (key : Nat × Nat) (a : Nat), s.messageMap[key]? = some a → ∃ mc, s.containers[a]? = some mc ∧
    blobs key = some mc.messageBlob ∧ mc.rfcnt = references s.stages a
  distinct : ∀ (key key' : Nat × Nat) (a : Nat), s.messageMap[key]? = some a → s.messageMap[key']? = some a → key = key'
  fresh : ∀ (key : Nat × Nat) (a : Nat), s.messageMap[key]? = some a → a < s.next
  stages : ∀ k, (s.stages k).Sound blobs s.messageMap

variable {blobs} {s s' : State n} {k : Fin n} {req : Request} {address : Nat} {stage : Stage} {resp : Reply}
  {mc : MessageContainer}

theorem Stage.sound_of_free {messageMap : Table (Nat × Nat) Nat} (hfree : stage.holds = none) :
    stage.Sound blobs messageMap where
  held req a hholds := by
    rw [hfree] at hholds
    cases hholds
  made req a resp hstage := by
    rw [hstage] at hfree
    cases hfree

theorem owned_start : Owned blobs (start n) where
  counted key a hmap := by cases hmap
  distinct key key' a hmap := by cases hmap
  fresh key a hmap := by cases hmap
  stages _ := Stage.sound_of_free rfl

theorem Owned.enter (h : Owned blobs s) (hholds : stage.holds = (s.stages k).holds)
    (hstage : stage.Sound blobs s.messageMap) : Owned blobs (s.enter k stage) where
  counted key a hmap := by
    obtain ⟨mc, hmc, hblob, hcount⟩ := h.counted key a hmap
    exact ⟨mc, hmc, hblob, hcount.trans (congrArg Nat.cast (references_keep hholds a).symm)⟩
  distinct := h.distinct
  fresh := h.fresh
  stages := (Function.forall_update_iff _ fun _ => Stage.Sound blobs s.messageMap).mpr ⟨hstage, fun j _ => h.stages j⟩

theorem Owned.recount (h : Owned blobs s) (hmc : s.containers[address]? = some mc) {rfcnt : Int}
    (hcount : rfcnt = references (Function.update s.stages k stage) address)
    (hothers : ∀ a, a ≠ address → references (Function.update s.stages k stage) a = references s.stages a)
    (hstage : stage.Sound blobs s.messageMap) :
    Owned blobs { s.enter k stage with containers := s.containers.insert address { mc with rfcnt } } where
  counted key a hmap := by
    obtain ⟨mc', hmc', hblob, hcount'⟩ := h.counted key a hmap
    dsimp only [State.enter]
    rw [Table.getElem?_insert_row]
    by_cases ha : address = a
    · subst ha
      obtain rfl := Option.some.inj (hmc.symm.trans hmc')
      exact ⟨_, if_pos rfl, hblob, hcount⟩
    · rw [if_neg ha, hothers a (Ne.symm ha)]
      exact ⟨mc', hmc', hblob, hcount'⟩
  distinct := h.distinct
  fresh := h.fresh
  stages := (Function.forall_update_iff _ fun _ => Stage.Sound blobs s.messageMap).mpr ⟨hstage, fun j _ => h.stages j⟩

theorem Owned.take (h : Owned blobs s) (hfree : (s.stages k).holds = none)
    (hmap : s.messageMap[req.key]? = some address) (hmc : s.containers[address]? = some mc) :
    Owned blobs { s.enter k (.referenced req address) with
      containers := s.containers.insert address { mc with rfcnt := mc.rfcnt + 1 } } := by
  have htake : ∀ a, references (Function.update s.stages k (.referenced req address)) a =
      references s.stages a + if address = a then 1 else 0 := references_take hfree rfl
  obtain ⟨mc', hmc', -, hcount⟩ := h.counted req.key address hmap
  obtain rfl := Option.some.inj (hmc.symm.trans hmc')
  apply h.recount hmc
  · rw [htake, if_pos rfl, hcount]
    rfl
  · intro a ha
    rw [htake, if_neg (Ne.symm ha)]
    rfl
  · refine ⟨fun req' a hholds => ?_, fun req' a resp hstage => by cases hstage⟩
    cases hholds
    exact hmap

theorem Owned.create (h : Owned blobs s) (hfree : (s.stages k).holds = none) (hnone : s.messageMap[req.key]? = none)
    {blob : Str} (hblob : blobs req.key = some blob) :
    Owned blobs { s.enter k (.referenced req s.next) with
      messageMap := s.messageMap.insert req.key s.next
      containers := s.containers.insert s.next ⟨blob, 1⟩
      next := s.next + 1 } := by
  have htake : ∀ a, references (Function.update s.stages k (.referenced req s.next)) a =
      references s.stages a + if s.next = a then 1 else 0 := references_take hfree rfl
  have hunused : references s.stages s.next = 0 := by
    apply references_eq_zero
    intro j req' hj
    exact absurd (h.fresh _ _ ((h.stages j).held req' s.next hj)) (Nat.lt_irrefl _)
  have hcases : ∀ (key : Nat × Nat) (a : Nat), (s.messageMap.insert req.key s.next)[key]? = some a →
      req.key = key ∧ s.next = a ∨ s.messageMap[key]? = some a := by
    intro key a hmap
    rw [Table.getElem?_insert_row] at hmap
    split at hmap
    · next hkey => exact .inl ⟨hkey, Option.some.inj hmap⟩
    · exact .inr hmap
  constructor
  · intro key a hmap
    dsimp only [State.enter]
    rw [Table.getElem?_insert_row, htake]
    obtain ⟨rfl, rfl⟩ | hmap := hcases key a hmap
    · rw [if_pos rfl, if_pos rfl, hunused]
      exact ⟨_, rfl, hblob, rfl⟩
    · have hne : s.next ≠ a := (h.fresh key a hmap).ne'
      rw [if_neg hne, if_neg hne]
      exact h.counted key a hmap
  · intro key key' a hmap hmap'
    obtain ⟨rfl, rfl⟩ | hmap := hcases key a hmap
    · obtain ⟨rfl, -⟩ | hmap' := hcases key' s.next hmap'
      · rfl
      · exact absurd (h.fresh key' s.next hmap') (Nat.lt_irrefl _)
    · obtain ⟨rfl, rfl⟩ | hmap' := hcases key' a hmap'
      · exact absurd (h.fresh key s.next hmap) (Nat.lt_irrefl _)
      · exact h.distinct key key' a hmap hmap'
  · intro key a hmap
    obtain ⟨-, rfl⟩ | hmap := hcases key a hmap
    · exact Nat.lt_succ_self _
    · exact Nat.lt_succ_of_lt (h.fresh key a hmap)
  · refine (Function.forall_update_iff _ fun _ => Stage.Sound blobs _).mpr
      ⟨⟨fun req' a hholds => ?_, fun req' a resp hstage => ?_⟩, fun j _ => ?_⟩
    · cases hholds
      rw [Table.getElem?_insert_row, if_pos rfl]
    · cases hstage
    · exact ⟨fun req' a hj => Table.getElem?_insert_kept hnone ((h.stages j).held req' a hj) _, (h.stages j).made⟩

theorem Owned.drop (h : Owned blobs s) (hheld : (s.stages k).holds = some (req, address))
    (hmc : s.containers[address]? = some mc) :
    Owned blobs { s.enter k (.answered req resp) with
      containers := s.containers.insert address { mc with rfcnt := mc.rfcnt - 1 } } := by
  have hdrop : ∀ a, references (Function.update s.stages k (.answered req resp)) a + (if address = a then 1 else 0) =
      references s.stages a := references_drop hheld rfl
  obtain ⟨mc', hmc', -, hcount⟩ := h.counted req.key address ((h.stages k).held req address hheld)
  obtain rfl := Option.some.inj (hmc.symm.trans hmc')
  apply h.recount hmc
  · rw [hcount, ← hdrop, if_pos rfl]
    omega
  · intro a ha
    rw [← hdrop a, if_neg (Ne.symm ha)]
    rfl
  · exact Stage.sound_of_free rfl

theorem Owned.delete (h : Owned blobs s) (hheld : (s.stages k).holds = some (req, address))
    (hmc : s.containers[address]? = some mc) (hlast : mc.rfcnt - 1 = 0) :
    Owned blobs { s.enter k (.answered req resp) with
      messageMap := s.messageMap.erase req.key
      containers := s.containers.erase address } := by
  have hdrop : ∀ a, references (Function.update s.stages k (.answered req resp)) a + (if address = a then 1 else 0) =
      references s.stages a := references_drop hheld rfl
  have hmap := (h.stages k).held req address hheld
  obtain ⟨mc', hmc', -, hcount⟩ := h.counted req.key address hmap
  obtain rfl := Option.some.inj (hmc.symm.trans hmc')
  have halone := (references_eq_one_iff hheld).mp (by omega)
  have hcases : ∀ (key : Nat × Nat) (a : Nat), (s.messageMap.erase req.key)[key]? = some a →
      s.messageMap[key]? = some a ∧ address ≠ a := by
    intro key a hkey
    rw [Table.getElem?_erase_row] at hkey
    split at hkey
    · cases hkey
    · next hne =>
      refine ⟨hkey, ?_⟩
      rintro rfl
      exact hne (h.distinct _ _ _ hmap hkey)
  constructor
  · intro key a hkey
    obtain ⟨hkey, hne⟩ := hcases key a hkey
    dsimp only [State.enter]
    have hsame := hdrop a
    rw [if_neg hne] at hsame
    rw [Table.getElem?_erase_row, if_neg hne, show references _ a = references s.stages a from hsame]
    exact h.counted key a hkey
  · intro key key' a hkey hkey'
    exact h.distinct key key' a (hcases key a hkey).1 (hcases key' a hkey').1
  · intro key a hkey
    exact h.fresh key a (hcases key a hkey).1
  · refine (Function.forall_update_iff _ fun _ => Stage.Sound blobs _).mpr ⟨Stage.sound_of_free rfl, fun j hj => ?_⟩
    refine ⟨fun req' a hholds => ?_, (h.stages j).made⟩
    have hkey := (h.stages j).held req' a hholds
    rw [Table.getElem?_erase_row, if_neg]
    · exact hkey
    · intro hsame
      rw [← hsame, hmap] at hkey
      obtain rfl := Option.some.inj hkey
      exact halone j hj req' hholds

end

section

variable {n : Nat} (blobs : Nat × Nat → Option Str)

inductive Move (s : State n) : Label n → State n → Prop
  | plain (l : Label n) (k : Fin n) (stage : Stage) (hlabel : ∀ j, l ≠ .release j)
      (hbefore : (s.stages k).holds = none) (hafter : stage.holds = none)
      (hreply : ∀ req a offset size, stage ≠ .answered req (.shared a offset size)) : Move s l (s.enter k stage)
  | take (k : Fin n) (mb : MessageBlock) (fetched : Fetched) (req : Request) (address : Nat) (mc : MessageContainer)
      (hbefore : (s.stages k).holds = none) (hmap : s.messageMap[req.key]? = some address)
      (hmc : s.containers[address]? = some mc) :
      Move s (.lookup k mb fetched) { s.enter k (.referenced req address) with
        containers := s.containers.insert address { mc with rfcnt := mc.rfcnt + 1 } }
  | create (k : Fin n) (mb : MessageBlock) (fetched : Fetched) (req : Request) (blob : Str)
      (hbefore : (s.stages k).holds = none) (hnone : s.messageMap[req.key]? = none)
      (hblob : blobs req.key = some blob) :
      Move s (.lookup k mb fetched) { s.enter k (.referenced req s.next) with
        messageMap := s.messageMap.insert req.key s.next
        containers := s.containers.insert s.next ⟨blob, 1⟩
        next := s.next + 1 }
  | respond (k : Fin n) (req : Request) (address : Nat) (mc : MessageContainer)
      (hbefore : s.stages k = .referenced req address) (hmc : s.containers[address]? = some mc) :
      Move s (.respond k) (s.enter k (.responded req address (makeReply req address mc.messageBlob.length)))
  | drop (k : Fin n) (req : Request) (address : Nat) (resp : Reply) (mc : MessageContainer)
      (hbefore : s.stages k = .responded req address resp) (hmc : s.containers[address]? = some mc)
      (hmore : mc.rfcnt - 1 ≠ 0) :
      Move s (.release k) { s.enter k (.answered req resp) with
        containers := s.containers.insert address { mc with rfcnt := mc.rfcnt - 1 } }
  | delete (k : Fin n) (req : Request) (address : Nat) (resp : Reply) (mc : MessageContainer)
      (hbefore : s.stages k = .responded req address resp) (hmc : s.containers[address]? = some mc)
      (hlast : mc.rfcnt - 1 = 0) :
      Move s (.release k) { s.enter k (.answered req resp) with
        messageMap := s.messageMap.erase req.key
        containers := s.containers.erase address }

variable {blobs} {s s' : State n} {l : Label n}

theorem move_lookup {k : Fin n} {mb : MessageBlock} {fetched : Fetched} {req : Request}
    (hbefore : (s.stages k).holds = none)
    (hlookup : lookup blobs s k req fetched = some s') : Move blobs s (.lookup k mb fetched) s' := by
  have herror : ∀ msg, Move blobs s (.lookup k mb fetched) (s.enter k (.answered req (.error msg))) :=
    fun msg => .plain _ k _ (by simp) hbefore rfl (by simp)
  unfold lookup at hlookup
  split at hlookup
  · cases hlookup
    exact herror _
  · split at hlookup
    · next address hmap =>
      obtain ⟨mc, hmc, rfl⟩ := Option.map_eq_some_iff.mp hlookup
      exact .take k mb fetched req address mc hbefore hmap hmc
    · next hnone =>
      cases fetched with
      | noConnection | noRow =>
        cases hlookup
        exact herror _
      | unbuilt =>
        cases hlookup
        exact .plain _ k _ (by simp) hbefore rfl (by simp)
      | built =>
        obtain ⟨blob, hblob, rfl⟩ := Option.map_eq_some_iff.mp hlookup
        exact .create k mb _ req blob hbefore hnone hblob

theorem move_step (hstep : step blobs s l = some s') : Move blobs s l s' := by
  cases l with
  | lookup k mb fetched =>
    dsimp only [step] at hstep
    split at hstep
    · next hidle =>
      obtain ⟨req, -, hlookup⟩ := Option.bind_eq_some_iff.mp hstep
      exact move_lookup (by rw [hidle]; rfl) hlookup
    · cases hstep
  | respond k =>
    dsimp only [step] at hstep
    split at hstep
    · next req address hbefore =>
      obtain ⟨mc, hmc, rfl⟩ := Option.map_eq_some_iff.mp hstep
      exact .respond k req address mc hbefore hmc
    · cases hstep
  | release k =>
    dsimp only [step] at hstep
    split at hstep
    · next req address resp hbefore =>
      obtain ⟨mc, hmc, rfl⟩ := Option.map_eq_some_iff.mp hstep
      split
      · next hlast => exact .delete k req address resp mc hbefore hmc hlast
      · next hmore => exact .drop k req address resp mc hbefore hmc hmore
    · cases hstep
  | serialise k =>
    dsimp only [step] at hstep
    split at hstep
    · next hbefore =>
      cases hstep
      exact .plain _ k .idle (by simp) (by rw [hbefore]; rfl) rfl (by simp)
    · cases hstep

theorem Owned.move (h : Owned blobs s) (hmove : Move blobs s l s') : Owned blobs s' := by
  cases hmove with
  | plain l k stage hlabel hbefore hafter hreply =>
    exact h.enter (hafter.trans hbefore.symm) (Stage.sound_of_free hafter)
  | take k mb fetched req address mc hbefore hmap hmc => exact h.take hbefore hmap hmc
  | create k mb fetched req blob hbefore hnone hblob => exact h.create hbefore hnone hblob
  | respond k req address mc hbefore hmc =>
    have hheld : (s.stages k).holds = some (req, address) := by rw [hbefore]; rfl
    have hmap := (h.stages k).held req address hheld
    obtain ⟨mc', hmc', hblob, -⟩ := h.counted req.key address hmap
    obtain rfl := Option.some.inj (hmc.symm.trans hmc')
    refine h.enter hheld.symm ⟨fun req' a hholds => ?_, fun req' a resp hstage => ?_⟩
    · cases hholds
      exact hmap
    · cases hstage
      exact ⟨mc.messageBlob, hblob, rfl⟩
  | drop k req address resp mc hbefore hmc hmore => exact h.drop (by rw [hbefore]; rfl) hmc
  | delete k req address resp mc hbefore hmc hlast => exact h.delete (by rw [hbefore]; rfl) hmc hlast

/-- In every run the count of a container in the map is the number of requests that have a reference to it. -/
theorem owned_of_reachable (h : (machine blobs n).Reachable s) : Owned blobs s := by
  apply h.invariant
  · rintro s rfl
    exact owned_start
  · intro s l s' howned _ hstep
    exact howned.move (move_step hstep)

end

section

variable {n : Nat} (blobs : Nat × Nat → Option Str)

def Stage.Live (messageMap : Table (Nat × Nat) Nat) (stage : Stage) : Prop :=
  ∀ req a offset size, stage = .answered req (.shared a offset size) → messageMap[req.key]? = some a ∧
    ∃ blob, blobs req.key = some blob ∧ offset = req.skip ∧ size = ((blob.length - req.skip : Nat) : Int)

variable {blobs} {s s' : State n} {l : Label n} {k : Fin n} {req : Request} {address : Nat}

theorem intact_of_live (howned : Owned blobs s) (hlive : ∀ k, (s.stages k).Live blobs s.messageMap) :
    Intact blobs s := by
  intro k req a offset size hk
  obtain ⟨hmap, blob, hblob, rfl, rfl⟩ := hlive k req a offset size hk
  obtain ⟨mc, hmc, hblob', -⟩ := howned.counted req.key a hmap
  obtain rfl := Option.some.inj (hblob.symm.trans hblob')
  refine ⟨hmap, mc.messageBlob, hblob, ?_⟩
  rw [contentAt, hmc, Option.map_some, Int.toNat_natCast, ← List.length_drop, List.take_length]

theorem makeReply_shared {a blobSize offset : Nat} {size : Int}
    (h : makeReply req address blobSize = .shared a offset size) :
    address = a ∧ req.skip = offset ∧ ((blobSize - req.skip : Nat) : Int).bmod 4294967296 = size := by
  unfold makeReply at h
  split at h
  · cases h
    exact ⟨rfl, rfl, rfl⟩
  · cases h

theorem live_makeReply (howned : Owned blobs s) {resp : Reply} (hbefore : s.stages k = .responded req address resp)
    (hfits : ∀ blob, blobs req.key = some blob → blob.length - req.skip < 2147483648) :
    (Stage.answered req resp).Live blobs s.messageMap := by
  rintro req' a offset size hstage
  cases hstage
  obtain ⟨blob, hblob, hresp⟩ := (howned.stages k).made req address _ hbefore
  obtain ⟨rfl, rfl, rfl⟩ := makeReply_shared hresp.symm
  have hshort := hfits blob hblob
  refine ⟨(howned.stages k).held req address (by rw [hbefore]; rfl), blob, hblob, rfl, ?_⟩
  rw [Int.bmod_eq_of_le] <;> omega

/-- A reference is the last one exactly if no other request for the message has one. -/
theorem Owned.last_iff (h : Owned blobs s) (hheld : (s.stages k).holds = some (req, address)) {mc : MessageContainer}
    (hmc : s.containers[address]? = some mc) :
    mc.rfcnt - 1 ≠ 0 ↔ ∃ j req' address', j ≠ k ∧ (s.stages j).holds = some (req', address') ∧ req'.key = req.key := by
  have hmap := (h.stages k).held req address hheld
  obtain ⟨mc', hmc', -, hcount⟩ := h.counted req.key address hmap
  obtain rfl := Option.some.inj (hmc.symm.trans hmc')
  have hone : mc.rfcnt - 1 = 0 ↔ references s.stages address = 1 := by omega
  rw [ne_eq, hone, references_eq_one_iff hheld]
  constructor
  · intro hothers
    push Not at hothers
    obtain ⟨j, hj, req', hholds⟩ := hothers
    have hmap' := (h.stages j).held req' address hholds
    exact ⟨j, req', address, hj, hholds, h.distinct _ _ _ hmap' hmap⟩
  · rintro ⟨j, req', address', hj, hholds, hkey⟩ halone
    have hmap' := (h.stages j).held req' address' hholds
    rw [hkey, hmap] at hmap'
    obtain rfl := Option.some.inj hmap'
    exact halone j hj req' hholds

theorem live_move (howned : Owned blobs s) (hlive : ∀ k, (s.stages k).Live blobs s.messageMap)
    (hbacked : Backed blobs s l) (hmove : Move blobs s l s') : ∀ k, (s'.stages k).Live blobs s'.messageMap := by
  cases hmove with
  | plain l k stage hlabel hbefore hafter hreply =>
    refine (Function.forall_update_iff _ fun _ => Stage.Live blobs s.messageMap).mpr ⟨?_, fun j _ => hlive j⟩
    intro req a offset size hstage
    exact absurd hstage (hreply req a offset size)
  | take k mb fetched req address mc hbefore hmap hmc =>
    refine (Function.forall_update_iff _ fun _ => Stage.Live blobs s.messageMap).mpr ⟨?_, fun j _ => hlive j⟩
    intro req a offset size hstage
    cases hstage
  | create k mb fetched req blob hbefore hnone hblob =>
    refine (Function.forall_update_iff _ fun _ => Stage.Live blobs _).mpr ⟨?_, fun j _ => ?_⟩
    · intro req a offset size hstage
      cases hstage
    · intro req' a offset size hstage
      obtain ⟨hmap, hreply⟩ := hlive j req' a offset size hstage
      exact ⟨Table.getElem?_insert_kept hnone hmap _, hreply⟩
  | respond k req address mc hbefore hmc =>
    refine (Function.forall_update_iff _ fun _ => Stage.Live blobs s.messageMap).mpr ⟨?_, fun j _ => hlive j⟩
    intro req a offset size hstage
    cases hstage
  | drop k req address resp mc hbefore hmc hmore =>
    have hfits := (hbacked req address (by rw [hbefore]; rfl)).2
    exact (Function.forall_update_iff _ fun _ => Stage.Live blobs s.messageMap).mpr
      ⟨live_makeReply howned hbefore hfits, fun j _ => hlive j⟩
  | delete k req address resp mc hbefore hmc hlast =>
    have hheld : (s.stages k).holds = some (req, address) := by rw [hbefore]; rfl
    exact absurd hlast ((howned.last_iff hheld hmc).mpr (hbacked req address hheld).1)

theorem fits_of_content {blob : Str} (hskip : req.skip < blob.length)
    (h : (blob.drop req.skip).take (((blob.length - req.skip : Nat) : Int).bmod 4294967296).toNat =
      blob.drop req.skip) : blob.length - req.skip < 2147483648 := by
  have hlength := congrArg List.length h
  rw [List.length_take, List.length_drop] at hlength
  have hlt := Int.bmod_lt (x := ((blob.length - req.skip : Nat) : Int)) (m := 4294967296) (by decide)
  omega

/-- A release that leaves all replies as they should be was backed. -/
theorem backed_of_intact (howned : Owned blobs s) {a offset : Nat} {size : Int}
    (hbefore : s.stages k = .responded req address (.shared a offset size)) (hmove : Move blobs s (.release k) s')
    (hintact : Intact blobs s') : Backed blobs s (.release k) := by
  intro req' address' hholds
  have hheld : (s.stages k).holds = some (req, address) := by rw [hbefore]; rfl
  cases hheld.symm.trans hholds
  obtain ⟨blob, hblob, hresp⟩ := (howned.stages k).made req address _ hbefore
  obtain ⟨rfl, rfl, rfl⟩ := makeReply_shared hresp.symm
  cases hmove with
  | plain l j stage hlabel => exact absurd rfl (hlabel k)
  | drop k req'' address' resp mc hbefore' hmc hmore =>
    cases hbefore.symm.trans hbefore'
    obtain ⟨-, blob', hblob', hcontent⟩ := hintact k req address req.skip _ (Function.update_self ..)
    obtain rfl := Option.some.inj (hblob.symm.trans hblob')
    obtain ⟨mc', hmc', hstored, -⟩ := howned.counted req.key address ((howned.stages k).held req address hheld)
    obtain rfl := Option.some.inj (hmc.symm.trans hmc')
    obtain rfl := Option.some.inj (hblob.symm.trans hstored)
    refine ⟨(howned.last_iff hheld hmc).mp hmore, fun blob' hblob' => ?_⟩
    obtain rfl := Option.some.inj (hblob.symm.trans hblob')
    apply fits_of_content
    · unfold makeReply at hresp
      split at hresp
      · assumption
      · cases hresp
    · dsimp only [contentAt] at hcontent
      rw [Table.getElem?_insert_row, if_pos rfl] at hcontent
      exact Option.some.inj hcontent
  | delete k req'' address' resp mc hbefore' hmc hlast =>
    cases hbefore.symm.trans hbefore'
    obtain ⟨hmap, -⟩ := hintact k req address req.skip _ (Function.update_self ..)
    rw [Table.getElem?_erase_row, if_pos rfl] at hmap
    cases hmap

theorem owned_and_live (h : (machine blobs n).Reach (Backed blobs) s) :
    Owned blobs s ∧ ∀ k, (s.stages k).Live blobs s.messageMap := by
  apply h.invariant
  · rintro s rfl
    exact ⟨owned_start, fun k req a offset size hstage => by cases hstage⟩
  · rintro s l s' ⟨howned, hlive⟩ hbacked hstep
    exact ⟨howned.move (move_step hstep), live_move howned hlive hbacked (move_step hstep)⟩

end

theorem intact_iff_backed (n : Nat) (blobs : Nat × Nat → Option Str) (s : State n)
    (h : (machine blobs n).Reach (Backed blobs) s) :
    Intact blobs s ∧ ∀ k req address a offset size s', s.stages k = .responded req address (.shared a offset size) →
      step blobs s (.release k) = some s' → (Intact blobs s' ↔ Backed blobs s (.release k)) := by
  obtain ⟨howned, hlive⟩ := owned_and_live h
  refine ⟨intact_of_live howned hlive, fun k req address a offset size s' hbefore hstep => ?_⟩
  have hmove := move_step hstep
  constructor
  · exact backed_of_intact howned hbefore hmove
  · intro hbacked
    exact intact_of_live (howned.move hmove) (live_move howned hlive hbacked hmove)

def stored (key : Nat × Nat) : Option Str := if key = (2, 5) then some [1, 2, 3, 4] else none

def getMessage : MessageBlock :=
  (((MessageBlock.ofAction (str "udtcppeermessageget")).set (str "server_id") (str "2")).set (str "message_id")
    (str "5")).set (str "skip") (str "1")

def overlapping : List (Label 2) :=
  [.lookup ⟨0, Nat.zero_lt_two⟩ getMessage .built, .lookup ⟨1, Nat.one_lt_two⟩ getMessage .built,
   .respond ⟨0, Nat.zero_lt_two⟩]

theorem owned_overlapping : ∃ s, (machine stored 2).Reachable s ∧ Owned stored s ∧ s.messageMap[(2, 5)]? = some 0 := by
  obtain ⟨s, hplay, hmap⟩ : ∃ s, play (step stored) (fun _ _ => True) (start 2) overlapping = some s ∧
      s.messageMap[(2, 5)]? = some 0 := by decide +kernel
  have hreach : (machine stored 2).Reachable s := Machine.Reach.play (.init rfl) hplay
  exact ⟨s, hreach, owned_of_reachable hreach, hmap⟩

theorem intact_overlapping : ∃ s, (machine stored 2).Reach (Backed stored) s ∧
    s.stages 0 = .answered ⟨2, 5, 1⟩ (.shared 0 1 3) ∧ s.messageMap[(2, 5)]? = some 0 ∧
    contentAt s 0 1 3 = some [2, 3, 4] := by
  have hplay : ∃ s, play (step stored) (fun _ _ => True) (start 2) overlapping = some s ∧
      ∃ s', step stored s (.release 0) = some s' ∧ s.stages 0 = .responded ⟨2, 5, 1⟩ 0 (.shared 0 1 3) ∧
        s.stages 1 = .referenced ⟨2, 5, 1⟩ 0 ∧ s'.stages 0 = .answered ⟨2, 5, 1⟩ (.shared 0 1 3) := by decide +kernel
  obtain ⟨s, hplay, s', hstep, hfirst, hsecond, hstage⟩ := hplay
  have hplain : ∀ l ∈ overlapping, ∀ s, Backed stored s l := by
    intro l hl s
    simp only [overlapping, List.mem_cons, List.not_mem_nil, or_false] at hl
    rcases hl with rfl | rfl | rfl <;> trivial
  have hreach : (machine stored 2).Reach (Backed stored) s := Machine.Reach.playAll hplain (.init rfl) hplay
  have hbacked : Backed stored s (.release 0) := by
    intro req address hholds
    rw [hfirst] at hholds
    cases hholds
    refine ⟨⟨1, ⟨2, 5, 1⟩, 0, by decide, by rw [hsecond]; rfl, rfl⟩, fun blob hblob => ?_⟩
    cases hblob
    decide
  have hnext := Machine.Reach.step hreach hbacked hstep
  obtain ⟨hmap, blob, hblob, hcontent⟩ := (intact_iff_backed 2 stored s' hnext).1 0 ⟨2, 5, 1⟩ 0 1 3 hstage
  cases hblob
  exact ⟨s', hnext, hstage, hmap, hcontent⟩

/-- A single request deletes its container before the reply is serialised. -/
theorem not_intact_alone : ∃ s, (machine stored 1).Reachable s ∧ Request.ofBlock getMessage = some ⟨2, 5, 1⟩ ∧
    s.stages 0 = .answered ⟨2, 5, 1⟩ (.shared 0 1 3) ∧ s.messageMap[(2, 5)]? = none ∧
    contentAt s 0 1 3 = none ∧ ¬Intact stored s := by
  have hplay : ∃ s, play (step stored) (fun _ _ => True) (start 1)
      [.lookup 0 getMessage .built, .respond 0, .release 0] = some s ∧
      s.stages 0 = .answered ⟨2, 5, 1⟩ (.shared 0 1 3) ∧ s.messageMap[(2, 5)]? = none ∧ contentAt s 0 1 3 = none := by
    decide +kernel
  obtain ⟨s, hplay, hstage, hmap, hcontent⟩ := hplay
  have hreach : (machine stored 1).Reachable s := Machine.Reach.play (.init rfl) hplay
  refine ⟨s, hreach, by decide +kernel, hstage, hmap, hcontent, fun hintact => ?_⟩
  obtain ⟨hmap', -⟩ := hintact 0 ⟨2, 5, 1⟩ 0 1 3 hstage
  exact absurd (hmap.symm.trans hmap') (by simp)

end Abacus.Messenger.Transmit
