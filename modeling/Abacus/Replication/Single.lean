import Abacus.Replication.Node

/-! # A message is delivered once

Between two starts of a server no message of another server comes to its queue twice: the listener puts a message
there only after it has stored it, and a stored message is not stored again.
-/

namespace Abacus.Replication.Single

open Library Database.Peer Peer.Rebuild Node

variable {a : Action}

section

variable (self : Nat) (s : Server)

/-- What a step can do. A frame or a transfer may change nothing but the list of messages that are being fetched. -/
inductive Does : Action → Server → List (Nat × Frame) → Prop
  | refused {addr row tables} (hput : putLocalMessage self s.tables row = (tables, none)) :
    Does (.make addr row) { s with tables } []
  | made {addr row tables key} (hput : putLocalMessage self s.tables row = (tables, some key))
    (hfree : ∀ m ∈ s.live, m.addr ≠ addr) :
    Does (.make addr row) { s with tables, clients := ⟨addr, key, row⟩ :: s.clients } []
  | triggered {m} (hmem : m ∈ s.clients) :
    Does (.trigger m)
      { s with clients := s.clients.erase m, queue := s.queue ++ [m], delivered := m.key :: s.delivered } []
  | sent {dest key small row} (hrow : s.tables.peerMessage[key]? = some row) :
    Does (.send dest key small) s [(dest, if small then .inline self key row else .notify self key)]
  | acked {sender key addr} : Does (.receive (.ack sender key) addr)
      { s with tables := ackMessage s.tables key sender } []
  | known {frame addr sender key} (hstored : key ∈ s.tables.peerMessage) :
    Does (.receive frame addr) s [(sender, .ack self key)]
  | noted {a retrieving} : Does a { s with retrieving } []
  | arrived {a retrieving addr key row} (hfree : ∀ m ∈ s.live, m.addr ≠ addr) :
    Does a { s with retrieving, received := s.received ++ [⟨addr, key, row⟩] } []
  | got {m received} (hlistener : s.listener = .idle) (hreceived : s.received = m :: received) :
    Does (.listener .get) { s with listener := .got m, received } []
  | dropped {m} (hlistener : s.listener = .got m) : Does (.listener .insert) { s with listener := .idle } []
  | inserted {m tables} (hlistener : s.listener = .got m)
    (hinsert : insertPeerMessage s.tables m.key { m.row with processed := false } = some tables) :
    Does (.listener .insert) { s with tables, listener := .inserted m } []
  | booked {m} (hlistener : s.listener = .inserted m) :
    Does (.listener .book) { s with
      tables := orElse s.tables (insertNoAck s.tables (messageBatch self s.tables m.key)), listener := .stored m } []
  | enqueued {m} (hlistener : s.listener = .stored m) :
    Does (.listener .enqueue) { s with
      listener := .enqueued m.addr, queue := s.queue ++ [m], delivered := m.key :: s.delivered } []
  | acknowledged {addr key} (hlistener : s.listener = .enqueued addr) (hreads : Reads s addr key) :
    Does (.listener (.acknowledge key)) { s with listener := .idle }
      ((remoteServers self s.tables).map fun a => (a, .ack self key))
  | dequeued {m queue} (hhandler : s.handler = none) (hqueue : s.queue = m :: queue) :
    Does (.handler .dequeue) { s with handler := some m, queue } []
  | added {name id} :
    Does (.handler (.addServer name id)) { s with tables := (Database.Peer.addServer self s.tables name id).1 } []
  | finished {processed m} (hhandler : s.handler = some m) :
    Does (.handler (.finish processed)) { s with
      tables := if processed then markProcessed s.tables m.key else s.tables, handler := none } []
  | restarted {o} : Does (.restart o) (restart s o) []

variable {self s} {s' : Server} {frames : List (Nat × Frame)} {addr : Nat} {key : MessageKey} {row : PeerMessage}

theorem allocate_eq_some {m : Object}
    (h : allocate s addr key row = some m) : (∀ m ∈ s.live, m.addr ≠ addr) ∧ m = ⟨addr, key, row⟩ := by
  unfold allocate at h
  split at h
  · next hfree => exact ⟨hfree, (Option.some.inj h).symm⟩
  · cases h

theorem deliverMessage_cases
    (h : deliverMessage s key row addr = some s') :
    s' = s ∨ (∀ m ∈ s.live, m.addr ≠ addr) ∧ s' = { s with received := s.received ++ [⟨addr, key, row⟩] } := by
  unfold deliverMessage at h
  split at h
  · cases h
    exact .inl rfl
  · obtain ⟨m, hm, rfl⟩ := Option.map_eq_some_iff.mp h
    obtain ⟨hfree, rfl⟩ := allocate_eq_some hm
    exact .inr ⟨hfree, rfl⟩

theorem does_deliverMessage {retrieving : List MessageKey}
    (h : deliverMessage { s with retrieving } key row addr = some s') : Does self s a s' [] := by
  obtain rfl | ⟨hfree, rfl⟩ := deliverMessage_cases h
  · exact .noted
  · exact .arrived hfree

theorem does_receive {frame : Frame} (h : receive self s addr frame = some (s', frames)) :
    Does self s (.receive frame addr) s' frames := by
  cases frame with
  | ack sender key =>
    rw [receive] at h
    split at h
    · cases h
      exact .acked
    · cases h
      exact .noted
  | inline sender key row =>
    rw [receive] at h
    split at h
    · next hstored =>
      cases h
      exact .known (of_decide_eq_true hstored)
    · obtain ⟨s'', hdeliver, heq⟩ := Option.map_eq_some_iff.mp h
      cases heq
      exact does_deliverMessage hdeliver
  | notify sender key =>
    rw [receive] at h
    split at h
    · next hstored =>
      cases h
      exact .known (of_decide_eq_true hstored)
    · cases h
      exact .noted

theorem does_listen {a : ListenerStep} (h : Node.listen self s a = some (s', frames)) :
    Does self s (.listener a) s' frames := by
  cases a with
  | get =>
    rw [Node.listen] at h
    split at h
    · next hlistener hreceived =>
      cases h
      exact .got hlistener hreceived
    · cases h
  | insert =>
    rw [Node.listen] at h
    split at h
    · next m hlistener =>
      split at h
      · cases h
        exact .dropped hlistener
      · next hinsert =>
        cases h
        exact .inserted hlistener hinsert
    · cases h
  | book =>
    rw [Node.listen] at h
    split at h
    · next m hlistener =>
      cases h
      exact .booked hlistener
    · cases h
  | enqueue =>
    rw [Node.listen] at h
    split at h
    · next m hlistener =>
      cases h
      exact .enqueued hlistener
    · cases h
  | acknowledge key =>
    rw [Node.listen] at h
    split at h
    · next addr hlistener =>
      split at h
      · next hreads =>
        cases h
        exact .acknowledged hlistener hreads
      · cases h
    · cases h

theorem does_handle {a : HandlerStep} (h : handle self s a = some s') : Does self s (.handler a) s' [] := by
  cases a with
  | dequeue =>
    rw [handle] at h
    split at h
    · next hhandler hqueue =>
      cases h
      exact .dequeued hhandler hqueue
    · cases h
  | addServer name id =>
    rw [handle] at h
    split at h
    · cases h
      exact .added
    · cases h
  | finish processed =>
    rw [handle] at h
    split at h
    · next m hhandler =>
      cases h
      exact .finished hhandler
    · cases h

theorem does_of_step (h : step self s a = some (s', frames)) : Does self s a s' frames := by
  cases a with
  | make addr row =>
    rw [step] at h
    split at h
    · next tables hput =>
      cases h
      exact .refused hput
    · next tables key hput =>
      obtain ⟨m, hm, hpair⟩ := Option.map_eq_some_iff.mp h
      cases hpair
      obtain ⟨hfree, rfl⟩ := allocate_eq_some hm
      exact .made hput hfree
  | trigger m =>
    rw [step] at h
    split at h
    · next hmem =>
      cases h
      exact .triggered hmem
    · cases h
  | send dest key small =>
    obtain ⟨row, hrow, hpair⟩ := Option.map_eq_some_iff.mp h
    cases hpair
    exact .sent hrow
  | receive frame addr => exact does_receive h
  | fetch key row addr =>
    rw [step] at h
    split at h
    · obtain ⟨s'', hdeliver, hpair⟩ := Option.map_eq_some_iff.mp h
      cases hpair
      exact does_deliverMessage hdeliver
    · cases h
  | listener a => exact does_listen h
  | handler a =>
    obtain ⟨s'', hhandle, hpair⟩ := Option.map_eq_some_iff.mp h
    cases hpair
    exact does_handle hhandle
  | restart o =>
    cases h
    exact .restarted

theorem grows_finish (t : PeerTables) (key : MessageKey) (processed : Bool) :
    Grows t (if processed then markProcessed t key else t) := by
  split
  · exact grows_markProcessed _ _
  · exact .refl _

end

structure Once (me : Nat) (s : Server) : Prop where
  delivered : ∀ key ∈ s.delivered, key ∈ s.tables.peerMessage
  clients : ∀ m ∈ s.clients, m.key.1 = me ∧ m.key ∈ s.tables.peerMessage
  waiting : ∀ m, s.listener = .inserted m ∨ s.listener = .stored m →
    m.key ∈ s.tables.peerMessage ∧ (m.key.1 ≠ me → m.key ∉ s.delivered)
  nodup : (s.delivered.filter fun key => key.1 ≠ me).Nodup

variable {self : Nat} {s s' : Server}

theorem Once.of_grows (h : Once self s) (hgrows : Grows s.tables s'.tables) (hdelivered : s'.delivered = s.delivered)
    (hclients : ∀ m ∈ s'.clients, m ∈ s.clients)
    (hlistener : ∀ m, s'.listener = .inserted m ∨ s'.listener = .stored m →
      s.listener = .inserted m ∨ s.listener = .stored m) : Once self s' where
  delivered key hkey := hgrows.1 key (h.delivered key (hdelivered ▸ hkey))
  clients m hm := ⟨(h.clients m (hclients m hm)).1, hgrows.1 _ (h.clients m (hclients m hm)).2⟩
  waiting m hm := by
    obtain ⟨hstored, hfresh⟩ := h.waiting m (hlistener m hm)
    exact ⟨hgrows.1 _ hstored, hdelivered ▸ hfresh⟩
  nodup := hdelivered ▸ h.nodup

theorem Once.of_eq (h : Once self s) (htables : s'.tables.peerMessage = s.tables.peerMessage)
    (hdelivered : s'.delivered = s.delivered) (hclients : s'.clients = s.clients)
    (hlistener : s'.listener = s.listener) : Once self s' where
  delivered key hkey := htables ▸ h.delivered key (hdelivered ▸ hkey)
  clients m hm := htables ▸ h.clients m (hclients ▸ hm)
  waiting m hm := htables ▸ hdelivered ▸ h.waiting m (hlistener ▸ hm)
  nodup := hdelivered ▸ h.nodup

theorem once_restart (s : Server) (o : OrderBy MessageRow) : Once self (restart s o) := by
  have hsub : ((o.sort (fun r => (r.2.time : Int)) (unprocessedRows s.tables)).filter fun r =>
      (buildMessage r.2.messageTypeId r.2.data).isSome).Sublist
          (o.sort (fun r => (r.2.time : Int)) (unprocessedRows s.tables)) :=
    List.filter_sublist
  refine ⟨fun key hkey => ?_, by simp [restart], by simp [restart], ?_⟩
  · obtain ⟨row, hrow, rfl⟩ := List.mem_map.mp hkey
    have hmem := (o.perm _ _).mem_iff.mp (hsub.subset hrow)
    exact Table.mem_iff_exists_row.mpr ⟨row.2, (mem_unprocessedRows.mp hmem).1⟩
  · refine List.Nodup.filter _ ((hsub.map Prod.fst).nodup ?_)
    exact ((o.perm _ _).map Prod.fst).nodup_iff.mpr (nodup_keys_unprocessedRows s.tables)

theorem Once.step {frames : List (Nat × Frame)} (h : Once self s) (hstep : step self s a = some (s', frames)) :
    Once self s' := by
  cases does_of_step hstep with
  | @refused addr row tables hput =>
    have hgrows := (grows_putLocalMessage self s.tables row).1
    rw [hput] at hgrows
    exact h.of_grows hgrows rfl (fun _ hm => hm) fun _ hm => hm
  | @made addr row tables key hput =>
    obtain ⟨hgrows, hkey⟩ := grows_putLocalMessage self s.tables row
    rw [hput] at hgrows hkey
    have hold : Once self { s with tables } := h.of_grows hgrows rfl (fun _ hm => hm) fun _ hm => hm
    exact ⟨hold.delivered, List.forall_mem_cons.mpr ⟨hkey key rfl, hold.clients⟩, hold.waiting, hold.nodup⟩
  | @triggered m hmem =>
    obtain ⟨hself, hstored⟩ := h.clients m hmem
    refine ⟨List.forall_mem_cons.mpr ⟨hstored, h.delivered⟩, fun m' hm' => h.clients m' (List.mem_of_mem_erase hm'),
      fun m' hm' => ?_, ?_⟩
    · obtain ⟨hstored', hfresh⟩ := h.waiting m' hm'
      refine ⟨hstored', fun hremote => ?_⟩
      rw [List.mem_cons, not_or]
      exact ⟨fun heq => hremote (heq ▸ hself), hfresh hremote⟩
    · rw [List.filter_cons_of_neg (by simpa using hself)]
      exact h.nodup
  | sent | known => exact h
  | acked | noted | arrived | dequeued => exact h.of_eq rfl rfl rfl rfl
  | got | dropped | acknowledged => exact h.of_grows (.refl _) rfl (fun _ hm => hm) (by simp)
  | @inserted m tables hlistener hinsert =>
    obtain ⟨hgrows, hfree, hmem⟩ := grows_insertPeerMessage hinsert
    refine ⟨fun key hkey => hgrows.1 key (h.delivered key hkey), fun m hm => ?_, ?_, h.nodup⟩
    · exact ⟨(h.clients m hm).1, hgrows.1 _ (h.clients m hm).2⟩
    · rintro m' (hm' | hm')
      · cases hm'
        exact ⟨hmem, fun _ hdelivered => hfree (h.delivered _ hdelivered)⟩
      · cases hm'
  | booked hlistener =>
    refine h.of_grows (grows_orElse_insertNoAck _ _) rfl (fun _ hm => hm) ?_
    rintro m' (hm' | hm')
    · cases hm'
    · cases hm'
      exact .inl hlistener
  | @enqueued m hlistener =>
    -- only a message that was not stored before comes to the queue from the listener
    obtain ⟨hstored, hfresh⟩ := h.waiting m (.inr hlistener)
    refine ⟨List.forall_mem_cons.mpr ⟨hstored, h.delivered⟩, h.clients, by simp, ?_⟩
    by_cases hself : m.key.1 = self
    · rw [List.filter_cons_of_neg (by simpa using hself)]
      exact h.nodup
    · rw [List.filter_cons_of_pos (by simpa using hself)]
      exact List.nodup_cons.mpr ⟨fun hmem => hfresh hself (List.mem_of_mem_filter hmem), h.nodup⟩
  | added => exact h.of_grows (grows_addServer _ _ _ _) rfl (fun _ hm => hm) fun _ hm => hm
  | finished => exact h.of_grows (grows_finish _ _ _) rfl (fun _ hm => hm) fun _ hm => hm
  | restarted => exact once_restart s _

end Abacus.Replication.Single
