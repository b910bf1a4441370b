import Abacus.Replication.Single

/-! # The pointer of the listener

The listener reads the identification of a message through its pointer after it has put the message on the
queue. It reads what it stored as long as the handler has not freed the object.
-/

namespace Abacus.Replication.Pointer

open Library Database.Peer Peer.Rebuild Node Single

/-- Each address belongs to one object, and the pointer of the listener to an object that is stored. -/
structure Sound (s : Server) : Prop where
  unique : (s.live.map Object.addr).Nodup
  pointer : ∀ addr, s.listener = .enqueued addr → ∃ m ∈ s.live, m.addr = addr ∧ m.key ∈ s.tables.peerMessage

/-- The handler does not free the object whose identification the listener has still to read. -/
def Spares (s : Server) : Action → Prop
  | .handler (.finish _) => ∀ m ∈ s.handler, s.listener ≠ .enqueued m.addr
  | _ => True

variable {self : Nat} {s s' : Server}

theorem Sound.of_perm (h : Sound s) (hgrows : ∀ key ∈ s.tables.peerMessage, key ∈ s'.tables.peerMessage)
    (hperm : s'.live.Perm s.live) (hlistener : ∀ addr, s'.listener = .enqueued addr → s.listener = .enqueued addr) :
    Sound s' where
  unique := (hperm.map _).nodup_iff.mpr h.unique
  pointer addr haddr := by
    obtain ⟨m, hm, hmaddr, hkey⟩ := h.pointer addr (hlistener addr haddr)
    exact ⟨m, hperm.mem_iff.mpr hm, hmaddr, hgrows _ hkey⟩

theorem Sound.of_allocate (h : Sound s) (hgrows : ∀ key ∈ s.tables.peerMessage, key ∈ s'.tables.peerMessage)
    {m : Object} (hperm : s'.live.Perm (m :: s.live)) (hfree : ∀ m' ∈ s.live, m'.addr ≠ m.addr)
    (hlistener : ∀ addr, s'.listener = .enqueued addr → s.listener = .enqueued addr) : Sound s' where
  unique := by
    refine (hperm.map _).nodup_iff.mpr (List.nodup_cons.mpr ⟨fun hmem => ?_, h.unique⟩)
    obtain ⟨m', hm', haddr⟩ := List.mem_map.mp hmem
    exact hfree m' hm' haddr
  pointer addr haddr := by
    obtain ⟨m', hm', hmaddr, hkey⟩ := h.pointer addr (hlistener addr haddr)
    exact ⟨m', hperm.mem_iff.mpr (List.mem_cons_of_mem _ hm'), hmaddr, hgrows _ hkey⟩

theorem Sound.of_free (h : Sound s) (hgrows : ∀ key ∈ s.tables.peerMessage, key ∈ s'.tables.peerMessage) {m : Object}
    (hperm : s.live.Perm (m :: s'.live))
    (hlistener : ∀ addr, s'.listener = .enqueued addr → s.listener = .enqueued addr ∧ m.addr ≠ addr) : Sound s' where
  unique := (List.nodup_cons.mp ((hperm.map _).nodup_iff.mp h.unique)).2
  pointer addr haddr := by
    obtain ⟨hpointer, hspared⟩ := hlistener addr haddr
    obtain ⟨m', hm', hmaddr, hkey⟩ := h.pointer addr hpointer
    obtain heq | hlive := List.mem_cons.mp (hperm.mem_iff.mp hm')
    · exact absurd (heq ▸ hmaddr) hspared
    · exact ⟨m', hlive, hmaddr, hgrows _ hkey⟩

/-- What the listener reads is then the message that it stored. -/
theorem Sound.reads (h : Sound s) {addr : Nat} {key : MessageKey} (hlistener : s.listener = .enqueued addr)
    (hreads : Reads s addr key) : key ∈ s.tables.peerMessage := by
  obtain ⟨m, hm, rfl, hkey⟩ := h.pointer addr hlistener
  obtain ⟨m', hm', haddr, rfl⟩ | hnone := hreads
  · rwa [List.inj_on_of_nodup_map h.unique hm' hm haddr]
  · exact absurd rfl (hnone m hm)

theorem sound_restart (s : Server) (o : OrderBy MessageRow) : Sound (restart s o) := by
  refine ⟨?_, nofun⟩
  simp only [restart, Server.live, Listener.holding, Option.toList, List.append_nil, List.nil_append, List.map_map]
  change ((List.zipIdx _).map Prod.snd).Nodup
  rw [List.zipIdx_map_snd]
  exact List.nodup_range'

theorem Sound.step {a : Action} {frames : List (Nat × Frame)} (h : Sound s) (honce : Once self s) (hspares : Spares s a)
    (hstep : step self s a = some (s', frames)) : Sound s' := by
  cases does_of_step hstep with
  | @refused addr row tables hput =>
    have hgrows := (grows_putLocalMessage self s.tables row).1
    rw [hput] at hgrows
    exact h.of_perm hgrows.1 (.refl _) fun _ haddr => haddr
  | @made addr row tables key hput hfree =>
    have hgrows := (grows_putLocalMessage self s.tables row).1
    rw [hput] at hgrows
    refine h.of_allocate hgrows.1 (m := ⟨addr, key, row⟩) ?_ hfree fun _ haddr => haddr
    refine List.perm_iff_count.mpr fun m' => ?_
    simp only [Server.live, List.count_append, List.count_cons]
    omega
  | @triggered m hmem =>
    refine h.of_perm (fun _ hkey => hkey) ?_ fun _ haddr => haddr
    refine List.perm_iff_count.mpr fun m' => ?_
    have hclients := (List.perm_cons_erase hmem).count_eq m'
    simp only [Server.live, List.count_append, List.count_cons, List.count_nil] at hclients ⊢
    omega
  | sent | known => exact h
  | acked | noted => exact h.of_perm (fun _ hkey => hkey) (.refl _) fun _ haddr => haddr
  | @arrived _ retrieving addr key row hfree =>
    refine h.of_allocate (fun _ hkey => hkey) (m := ⟨addr, key, row⟩) ?_ hfree fun _ haddr => haddr
    refine List.perm_iff_count.mpr fun m => ?_
    simp only [Server.live, List.count_append, List.count_cons, List.count_nil]
    omega
  | got hlistener hreceived =>
    refine h.of_perm (fun _ hkey => hkey) ?_ (by simp)
    refine List.perm_iff_count.mpr fun m' => ?_
    simp only [Server.live, hlistener, hreceived, Listener.holding, List.count_append, List.count_cons, List.count_nil]
    omega
  | @dropped m hlistener =>
    refine h.of_free (fun _ hkey => hkey) (m := m) ?_ (by simp)
    refine List.perm_iff_count.mpr fun m' => ?_
    simp only [Server.live, hlistener, Listener.holding, List.count_append, List.count_cons, List.count_nil]
    omega
  | @inserted m tables hlistener hinsert =>
    refine h.of_perm (grows_insertPeerMessage hinsert).1.1 ?_ (by simp)
    simp only [Server.live, hlistener, Listener.holding, List.Perm.refl]
  | booked hlistener =>
    refine h.of_perm (grows_orElse_insertNoAck _ _).1 ?_ (by simp)
    simp only [Server.live, hlistener, Listener.holding, List.Perm.refl]
  | @enqueued m hlistener =>
    have hperm : (Server.live { s with
        listener := .enqueued m.addr, queue := s.queue ++ [m], delivered := m.key :: s.delivered }).Perm s.live := by
      refine List.perm_iff_count.mpr fun m' => ?_
      simp only [Server.live, hlistener, Listener.holding, List.count_append, List.count_cons, List.count_nil]
      omega
    refine ⟨(hperm.map _).nodup_iff.mpr h.unique, ?_⟩
    rintro addr ⟨⟩
    exact ⟨m, by simp [Server.live], rfl, (honce.waiting m (.inr hlistener)).1⟩
  | acknowledged hlistener =>
    refine h.of_perm (fun _ hkey => hkey) ?_ (by simp)
    simp only [Server.live, hlistener, Listener.holding, List.Perm.refl]
  | dequeued hhandler hqueue =>
    refine h.of_perm (fun _ hkey => hkey) ?_ fun _ haddr => haddr
    refine List.perm_iff_count.mpr fun m' => ?_
    simp only [Server.live, hhandler, hqueue, Option.toList, List.count_append, List.count_cons, List.count_nil]
    omega
  | added => exact h.of_perm (grows_addServer _ _ _ _).1 (.refl _) fun _ haddr => haddr
  | @finished processed m hhandler =>
    refine h.of_free (grows_finish _ _ _).1 (m := m) ?_ fun addr haddr => ⟨haddr, ?_⟩
    · refine List.perm_iff_count.mpr fun m' => ?_
      simp only [Server.live, hhandler, Option.toList, List.count_append, List.count_cons, List.count_nil]
      omega
    · rintro rfl
      exact hspares m hhandler haddr
  | restarted => exact sound_restart s _

/-- A server acknowledges in its own name, and only what it has stored. -/
theorem ack_stored_step {a : Action} {frames : List (Nat × Frame)} (h : Sound s)
    (hstep : step self s a = some (s', frames))
    {dest sender : Nat} {key : MessageKey} (hack : (dest, .ack sender key) ∈ frames) :
    sender = self ∧ key ∈ s.tables.peerMessage := by
  cases does_of_step hstep with
  | @sent _ _ small => cases small <;> simp at hack
  | known hstored =>
    obtain ⟨⟩ := List.mem_singleton.mp hack
    exact ⟨rfl, hstored⟩
  | acknowledged hlistener hreads =>
    obtain ⟨a, -, heq⟩ := List.mem_map.mp hack
    cases heq
    exact ⟨rfl, h.reads hlistener hreads⟩
  | _ => cases hack

end Abacus.Replication.Pointer
