import Abacus.Peer.Rebuild

/-! # The threads of one server

The receiver, the listener, the message handler and the threads of the clients take turns. A message is an
object on the heap, passed on by its address; the handler frees it.
-/

namespace Abacus.Replication.Node

open Library Library.Bytes Database.Peer Peer.Rebuild

structure Object where
  addr : Nat
  key : MessageKey
  row : PeerMessage
  deriving DecidableEq

/-- Where `peer_listener` stands. After it has put the object on the queue it keeps the pointer only. -/
inductive Listener
  | idle
  | got (m : Object)
  | inserted (m : Object)
  | stored (m : Object)
  | enqueued (addr : Nat)
  deriving DecidableEq

def Listener.holding : Listener → List Object
  | .got m | .inserted m | .stored m => [m]
  | .idle | .enqueued _ => []

structure Server where
  tables : PeerTables
  /-- The messages that are being fetched after a notification. -/
  retrieving : List MessageKey
  received : List Object
  listener : Listener
  queue : List Object
  handler : Option Object
  /-- Made for a client, and not on the queue yet. -/
  clients : List Object
  /-- What was put on the queue since the server started. -/
  delivered : List MessageKey

def Server.live (s : Server) : List Object :=
  s.received ++ s.listener.holding ++ s.queue ++ s.handler.toList ++ s.clients

inductive Frame
  | ack (sender : Nat) (key : MessageKey)
  | inline (sender : Nat) (key : MessageKey) (row : PeerMessage)
  | notify (sender : Nat) (key : MessageKey)
  deriving DecidableEq

inductive ListenerStep
  | get
  | insert
  | book
  | enqueue
  | acknowledge (key : MessageKey)
  deriving DecidableEq

inductive HandlerStep
  | dequeue
  | addServer (name : Str) (id : Nat)
  | finish (processed : Bool)
  deriving DecidableEq

inductive Action
  | make (addr : Nat) (row : PeerMessage)
  | trigger (m : Object)
  | send (dest : Nat) (key : MessageKey) (small : Bool)
  | receive (frame : Frame) (addr : Nat)
  | fetch (key : MessageKey) (row : PeerMessage) (addr : Nat)
  | listener (a : ListenerStep)
  | handler (a : HandlerStep)
  | restart (o : OrderBy MessageRow)

def allocate (s : Server) (addr : Nat) (key : MessageKey) (row : PeerMessage) : Option Object :=
  if ∀ m ∈ s.live, m.addr ≠ addr then some { addr, key, row } else none

/-- A frame or a transfer brought a message that is not there: it goes to the listener if it can be rebuilt. -/
def deliverMessage (s : Server) (key : MessageKey) (row : PeerMessage) (addr : Nat) : Option Server :=
  match buildMessage row.messageTypeId row.data with
  | none => some s
  | some _ => (allocate s addr key row).map fun m => { s with received := s.received ++ [m] }

variable (self : Nat)

/-- `UDPReceiver`: what is done with a frame, and what is sent in return. -/
def receive (s : Server) (addr : Nat) : Frame → Option (Server × List (Nat × Frame))
  | .ack sender key =>
    if sender ≠ 0 ∧ key.1 ≠ 0 ∧ key.2 ≠ 0 then some ({ s with tables := ackMessage s.tables key sender }, [])
    else some (s, [])
  | .inline sender key row =>
    if hasMessage s.tables key then some (s, [(sender, .ack self key)])
    else (deliverMessage s key row addr).map fun s => (s, [])
  | .notify sender key =>
    if hasMessage s.tables key then some (s, [(sender, .ack self key)])
    else some ({ s with retrieving := key :: s.retrieving }, [])

/-- What may be read through a pointer: the object that is there now, or anything if the memory is free. -/
def Reads (s : Server) (addr : Nat) (key : MessageKey) : Prop :=
  (∃ m ∈ s.live, m.addr = addr ∧ m.key = key) ∨ ∀ m ∈ s.live, m.addr ≠ addr

instance (s : Server) (addr : Nat) (key : MessageKey) : Decidable (Reads s addr key) :=
  inferInstanceAs (Decidable (_ ∨ _))

def remoteServers (t : PeerTables) : List Nat := t.server.keys.filter fun a => a ≠ self

/-- `peer_listener`, a step at a time; `putRemoteMessage` is two statements. -/
def listen (s : Server) : ListenerStep → Option (Server × List (Nat × Frame))
  | .get =>
    match s.listener, s.received with
    | .idle, m :: received => some ({ s with listener := .got m, received }, [])
    | _, _ => none
  | .insert =>
    match s.listener with
    | .got m =>
      match insertPeerMessage s.tables m.key { m.row with processed := false } with
      | none => some ({ s with listener := .idle }, [])
      | some tables => some ({ s with tables, listener := .inserted m }, [])
    | _ => none
  | .book =>
    match s.listener with
    | .inserted m => some ({ s with
        tables :=
          orElse s.tables (insertNoAck s.tables (messageBatch self s.tables m.key)), listener := .stored m }, [])
    | _ => none
  | .enqueue =>
    match s.listener with
    | .stored m => some ({ s with
        listener := .enqueued m.addr, queue := s.queue ++ [m], delivered := m.key :: s.delivered }, [])
    | _ => none
  | .acknowledge key =>
    match s.listener with
    | .enqueued addr =>
      if Reads s addr key then
        some ({ s with listener := .idle }, (remoteServers self s.tables).map fun a => (a, .ack self key))
      else none
    | _ => none

/-- `message_handler`: what processing does to the tables of the peers, and the end of the object. -/
def handle (s : Server) : HandlerStep → Option Server
  | .dequeue =>
    match s.handler, s.queue with
    | none, m :: queue => some { s with handler := some m, queue }
    | _, _ => none
  | .addServer name id =>
    if s.handler.isSome then some { s with tables := (Database.Peer.addServer self s.tables name id).1 } else none
  | .finish processed =>
    match s.handler with
    | some m => some { s with tables := if processed then markProcessed s.tables m.key else s.tables, handler := none }
    | none => none

/-- The messages that were not processed are put on the queue before the threads start. -/
def restart (s : Server) (o : OrderBy MessageRow) : Server :=
  let rows := (o.sort (fun r => (r.2.time : Int)) (unprocessedRows s.tables)).filter fun r =>
    (buildMessage r.2.messageTypeId r.2.data).isSome
  { tables := s.tables
    retrieving := []
    received := []
    listener := .idle
    queue := rows.zipIdx.map fun (r, addr) => { addr, key := r.1, row := r.2 }
    handler := none
    clients := []
    delivered := rows.map Prod.fst }

def step (s : Server) : Action → Option (Server × List (Nat × Frame))
  | .make addr row =>
    match putLocalMessage self s.tables row with
    | (tables, none) => some ({ s with tables }, [])
    | (tables, some key) => (allocate s addr key row).map fun m => ({ s with tables, clients := m :: s.clients }, [])
  | .trigger m =>
    if m ∈ s.clients then some ({ s with
      clients := s.clients.erase m, queue := s.queue ++ [m], delivered := m.key :: s.delivered }, [])
    else none
  | .send dest key small =>
    (s.tables.peerMessage[key]?).map fun row => (s, [(dest, if small then .inline self key row else .notify self key)])
  | .receive frame addr => receive self s addr frame
  | .fetch key row addr =>
    if key ∈ s.retrieving then
      (deliverMessage { s with retrieving := s.retrieving.erase key } key row addr).map fun s => (s, [])
    else none
  | .restart o => some (restart s o, [])
  | .listener a => listen self s a
  | .handler a => (handle self s a).map fun s => (s, [])

end Abacus.Replication.Node
