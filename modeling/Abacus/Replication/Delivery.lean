import Abacus.Library.Machine
import Abacus.Peer.Store
import Abacus.Replication.Pointer

/-! # Delivery and acknowledgement of messages

The network may lose, duplicate and reorder frames. A server waits for an acknowledgement until the other server
has the message, and delivers each message once.
-/

namespace Abacus.Replication.Delivery

open Library Library.Bytes Database.Peer Peer.Classes Peer.Store Node Single Pointer

variable {self : Nat} {s s' : Server} {frames : List (Nat × Frame)}

theorem tables_step {a : Action} (hstep : step self s a = some (s', frames)) : Grows s.tables s'.tables ∨
    ∃ sender key addr, a = .receive (.ack sender key) addr ∧ s'.tables = ackMessage s.tables key sender := by
  cases does_of_step hstep with
  | @refused addr row tables hput | @made addr row tables key hput =>
    have hgrows := (grows_putLocalMessage self s.tables row).1
    rw [hput] at hgrows
    exact .inl hgrows
  | acked => exact .inr ⟨_, _, _, rfl, rfl⟩
  | inserted hlistener hinsert => exact .inl (grows_insertPeerMessage hinsert).1
  | booked => exact .inl (grows_orElse_insertNoAck _ _)
  | added => exact .inl (grows_addServer _ _ _ _)
  | finished => exact .inl (grows_finish _ _ _)
  | _ => exact .inl (.refl _)

theorem stored_step {a : Action} (hstep : step self s a = some (s', frames)) {key : MessageKey}
    (hkey : key ∈ s.tables.peerMessage) : key ∈ s'.tables.peerMessage := by
  obtain hgrows | ⟨sender, key', addr, -, htables⟩ := tables_step hstep
  · exact hgrows.1 key hkey
  · rw [htables]
    exact hkey

/-- All servers, and every frame that was sent. A frame may be received late, more than once, or never. -/
structure World where
  servers : Nat → Server
  net : List (Nat × Frame)

abbrev Label := Nat × Action

def Arrives (w : World) (i : Nat) : Action → Prop
  | .receive frame _ => (i, frame) ∈ w.net
  | _ => True

instance (w : World) (i : Nat) (a : Action) : Decidable (Arrives w i a) := by
  cases a <;> unfold Arrives <;> infer_instance

def worldStep (w : World) (l : Label) : Option World :=
  if Arrives w l.1 l.2 then
    (step l.1 (w.servers l.1) l.2).map fun r =>
      { servers := Function.update w.servers l.1 r.1, net := w.net ++ r.2 }
  else none

def machine : Machine World Label :=
  .ofFun (fun w => w.net = [] ∧ ∀ i, ∃ s o, w.servers i = restart s o) worldStep

/-- A missing acknowledgement is deleted only when that server has the message. -/
def AckSound (w : World) : Prop :=
  ∀ l w', machine.step w l w' → ∀ i key a, (key, a) ∈ (w.servers i).tables.noAck →
    (key, a) ∉ (w'.servers i).tables.noAck → key ∈ (w.servers a).tables.peerMessage

/-- No remote message was put on the queue twice since the server started. -/
def SingleDelivery (w : World) : Prop :=
  ∀ i, ((w.servers i).delivered.filter fun key => key.1 ≠ i).Nodup

/-- The listener has read what it acknowledges before the handler frees it. -/
def SparesLabel (w : World) (l : Label) : Prop := Spares (w.servers l.1) l.2

variable {w w' : World} {l : Label}

theorem worldStep_cases (h : machine.step w l w') : Arrives w l.1 l.2 ∧
    ∃ s' frames, step l.1 (w.servers l.1) l.2 = some (s', frames) ∧
      w' = { servers := Function.update w.servers l.1 s', net := w.net ++ frames } := by
  change worldStep w l = some w' at h
  unfold worldStep at h
  split at h
  · next harrives =>
    obtain ⟨⟨s', frames⟩, hstep, rfl⟩ := Option.map_eq_some_iff.mp h
    exact ⟨harrives, s', frames, hstep, rfl⟩
  · cases h

/-- What a step does on the server that takes it is all there is to show of a property of every server. -/
theorem forall_server_step {P : Nat → Server → Prop} (h : ∀ i, P i (w.servers i)) (hstep : machine.step w l w')
    (hserver : ∀ s' frames, step l.1 (w.servers l.1) l.2 = some (s', frames) → P l.1 s') : ∀ i, P i (w'.servers i) := by
  obtain ⟨-, s', frames, hs', rfl⟩ := worldStep_cases hstep
  intro i
  dsimp only
  rw [Function.update_apply]
  split
  · next heq => exact heq ▸ hserver s' frames hs'
  · exact h i

theorem stored_worldStep (hstep : machine.step w l w') {i : Nat} {key : MessageKey}
    (hkey : key ∈ (w.servers i).tables.peerMessage) : key ∈ (w'.servers i).tables.peerMessage := by
  obtain ⟨-, s', frames, hs', rfl⟩ := worldStep_cases hstep
  dsimp only
  rw [Function.update_apply]
  split
  · next heq =>
    subst heq
    exact stored_step hs' hkey
  · exact hkey

theorem once_reachable (h : machine.Reachable w) : ∀ i, Once i (w.servers i) := by
  refine h.invariant (I := fun w => ∀ i, Once i (w.servers i)) ?_ fun w l w' honce _ hstep => ?_
  · rintro w ⟨-, hstart⟩ i
    obtain ⟨s, o, hs⟩ := hstart i
    exact hs ▸ once_restart s o
  · exact forall_server_step honce hstep fun s' frames hs' => (honce l.1).step hs'

theorem singleDelivery_of_reachable (h : machine.Reachable w) : SingleDelivery w := fun i => (once_reachable h i).nodup

structure Honest (w : World) : Prop where
  once : ∀ i, Once i (w.servers i)
  sound : ∀ i, Sound (w.servers i)
  acks : ∀ dest a key, (dest, Frame.ack a key) ∈ w.net → key ∈ (w.servers a).tables.peerMessage

theorem Honest.step (h : Honest w) (hspares : SparesLabel w l) (hstep : machine.step w l w') : Honest w' where
  once := forall_server_step h.once hstep fun s' frames hs' => (h.once l.1).step hs'
  sound := forall_server_step h.sound hstep fun s' frames hs' => (h.sound l.1).step (h.once l.1) hspares hs'
  acks dest a key hack := by
    refine stored_worldStep hstep ?_
    obtain ⟨-, s', frames, hs', rfl⟩ := worldStep_cases hstep
    obtain hold | hnew := List.mem_append.mp hack
    · exact h.acks dest a key hold
    · obtain ⟨rfl, hstored⟩ := ack_stored_step (h.sound l.1) hs' hnew
      exact hstored

theorem honest_reach (h : machine.Reach SparesLabel w) : Honest w := by
  refine h.invariant ?_ fun w l w' hhonest hspares hstep => hhonest.step hspares hstep
  rintro w ⟨hnet, hstart⟩
  refine ⟨fun i => ?_, fun i => ?_, fun dest a key hack => ?_⟩
  · obtain ⟨s, o, hs⟩ := hstart i
    exact hs ▸ once_restart s o
  · obtain ⟨s, o, hs⟩ := hstart i
    exact hs ▸ sound_restart s o
  · rw [hnet] at hack
    cases hack

theorem Honest.ackSound (h : Honest w) : AckSound w := by
  intro l w' hstep i key a hmissing hgone
  obtain ⟨harrives, s', frames, hs', rfl⟩ := worldStep_cases hstep
  dsimp only at hgone
  rw [Function.update_apply] at hgone
  split at hgone
  · next heq =>
    subst heq
    obtain hgrows | ⟨sender, key', addr, haction, htables⟩ := tables_step hs'
    · exact absurd (hgrows.2 hmissing) hgone
    · rw [haction] at harrives
      rw [htables] at hgone
      by_cases hpair : (key, a) = (key', sender)
      · obtain ⟨rfl, rfl⟩ := Prod.mk.inj hpair
        exact h.acks l.1 a key harrives
      · exact absurd (Finset.mem_erase.mpr ⟨hpair, hmissing⟩) hgone
  · exact absurd hmissing hgone

/-- In every run in which the handler spares the object that the listener is about to acknowledge. -/
theorem ackSound_and_singleDelivery_of_spares (h : machine.Reach SparesLabel w) : AckSound w ∧ SingleDelivery w :=
  ⟨(honest_reach h).ackSound, singleDelivery_of_reachable h.reachable⟩

instance (w : World) (l : Label) : Decidable (SparesLabel w l) := by
  obtain ⟨i, a⟩ := l
  unfold SparesLabel Spares
  dsimp only
  split <;> infer_instance

def peerTables : PeerTables where
  server := Std.ExtTreeMap.ofList [(1, str "one"), (2, str "two")]
  peerMessage := ∅
  noAck := ∅

def started : Server where
  tables := peerTables
  retrieving := []
  received := []
  listener := .idle
  queue := []
  handler := none
  clients := []
  delivered := []

def freshWorld : World where
  servers _ := restart started .stable
  net := []

theorem freshWorld_init : machine.init freshWorld := ⟨rfl, fun _ => ⟨started, .stable, rfl⟩⟩

def startRow (time : Nat) : PeerMessage :=
  let m := Message.startStop { groupId := 0, time, action := 0 }
  { messageTypeId := m.class.messageTypeId, time, signature := List.replicate 128 0,
    data := store (fun _ => 0) m 12, processed := false }

def sentRun : List Label :=
  [(1, .make 0 (startRow 10)), (1, .make 1 (startRow 20)), (1, .send 2 (1, 1) true), (1, .send 2 (1, 2) true),
    (2, .receive (.inline 1 (1, 1) (startRow 10)) 0), (2, .listener .get), (2, .listener .insert), (2, .listener .book),
    (2, .listener .enqueue)]

theorem ackSound_and_singleDelivery_of_spares_sentRun :
    ∃ w, play worldStep SparesLabel freshWorld (sentRun ++ [(2, .listener (.acknowledge (1, 1)))]) = some w ∧
      (1, .ack 2 (1, 1)) ∈ w.net ∧ (w.servers 2).delivered = [(1, 1)] ∧ AckSound w ∧ SingleDelivery w := by
  have hplay : (play worldStep SparesLabel freshWorld
      (sentRun ++ [(2, .listener (.acknowledge (1, 1)))])).isSome := by decide
  obtain ⟨w, hw⟩ := Option.isSome_iff_exists.mp hplay
  have hend : ∀ w ∈ play worldStep SparesLabel freshWorld (sentRun ++ [(2, .listener (.acknowledge (1, 1)))]),
      (1, Frame.ack 2 (1, 1)) ∈ w.net ∧ (w.servers 2).delivered = [(1, 1)] := by decide
  exact ⟨w, hw, (hend w hw).1, (hend w hw).2,
    ackSound_and_singleDelivery_of_spares ((Machine.Reach.init freshWorld_init).play hw)⟩

/-- The first message is freed before the listener goes on, and the second is received in its place and acknowledged. -/
def freedRun : List Label :=
  sentRun ++ [(2, .handler .dequeue), (2, .handler (.finish true)),
    (2, .receive (.inline 1 (1, 2) (startRow 20)) 0), (2, .listener (.acknowledge (1, 2)))]

theorem not_ackSound_freedRun : ¬∀ w, machine.Reachable w → AckSound w ∧ SingleDelivery w := by
  intro hall
  have hplay : (play worldStep (fun _ _ => True) freshWorld freedRun).isSome := by decide
  obtain ⟨w, hw⟩ := Option.isSome_iff_exists.mp hplay
  have hend : ∀ w ∈ play worldStep (fun _ _ => True) freshWorld freedRun, ((1, 2), 2) ∈ (w.servers 1).tables.noAck ∧
      (1, 2) ∉ (w.servers 2).tables.peerMessage ∧
      ∃ w' ∈ worldStep w (1, .receive (.ack 2 (1, 2)) 0), ((1, 2), 2) ∉ (w'.servers 1).tables.noAck := by decide
  obtain ⟨hmissing, hlacks, w', hstep, hgone⟩ := hend w hw
  have hsound := (hall w ((Machine.Reach.init freshWorld_init).play hw)).1
  exact hlacks (hsound _ w' hstep 1 (1, 2) 2 hmissing hgone)

end Abacus.Replication.Delivery
