import Swayclip.Daemon.Transitions

/-! # What a client is sent

The events that a client has been sent or is yet to be sent, and how its record is found again
after a change to the clients.
-/

namespace Swayclip

def Message.event? : Message → Option EventMsg
  | .event msg => some msg
  | _ => none

namespace Client

/-- The events in the write queue, in order. -/
def enqueued (client : Client) : List EventMsg := client.writeQueue.filterMap Message.event?

/-- All events emitted to the client; the pending ones come last. -/
def sent (client : Client) : List EventMsg := client.enqueued ++ client.pendingEvents

/-- An event emitted now does not overtake a pending one. -/
def Ready (client : Client) : Prop := client.handlingReq = true ∨ client.pendingEvents = []

theorem sent_emit {client : Client} (h : client.Ready) (msg : EventMsg) :
    (client.emit msg).sent = if msg.flag ∈ client.events then client.sent ++ [msg]
      else client.sent := by
  rw [emit]
  split
  · split
    · simp only [sent, enqueued, List.append_assoc]
    · rename_i hnot
      have hempty : client.pendingEvents = [] := h.resolve_left hnot
      simp [sent, enqueued, ipcCtWriteMsg, hempty, Message.event?, List.filterMap_append]
  · rfl

theorem ready_emit {client : Client} (h : client.Ready) (msg : EventMsg) :
    (client.emit msg).Ready := by
  rw [Ready, emit_handlingReq, or_iff_not_imp_left]
  intro hnot
  have hempty : client.pendingEvents = [] := h.resolve_left hnot
  rw [emit, if_neg hnot]
  split
  · exact hempty
  · exact hempty

theorem sent_write {msg : Message} (hmsg : msg.isEvent = false) (client : Client) :
    (client.ipcCtWriteMsg msg).sent = client.sent := by
  have hnone : Message.event? msg = none := by
    cases msg with
    | event e => cases hmsg
    | _ => rfl
  simp [sent, enqueued, ipcCtWriteMsg, List.filterMap_append, hnone]

theorem enqueued_flush (client : Client) :
    client.ipcClientFlushEvents.enqueued = client.sent := by
  simp only [enqueued, ipcClientFlushEvents, List.filterMap_append, sent, List.filterMap_map]
  congr 1
  exact List.filterMap_some

theorem sent_flush (client : Client) : client.ipcClientFlushEvents.sent = client.sent := by
  rw [sent, enqueued_flush]
  exact List.append_nil _

end Client

namespace State

theorem findClient_fd {s : State} {fd : ℕ} {client : Client} (h : s.findClient fd = some client) :
    client.fd = fd := by
  simpa using List.find?_some h

theorem find?_map_clients {f : Client → Client} (hf : ∀ client, (f client).fd = client.fd)
    (clients : List Client) (fd : ℕ) :
    (clients.map f).find? (fun client => client.fd = fd) =
      (clients.find? (fun client => client.fd = fd)).map f := by
  rw [List.find?_map]
  congr 2
  funext client
  simp [hf]

theorem findClient_emit {fd : ℕ} (msg : EventMsg) (s : State) :
    ({ s with ipc := ipcEvent msg s.ipc } : State).findClient fd =
      (s.findClient fd).map (Client.emit msg) := by
  rw [findClient, ipcEvent_eq_map]
  exact find?_map_clients (fun _ => Client.emit_fd ..) s.ipc fd

theorem findClient_onClient {fd : ℕ} {f : Client → Client} (hf : ∀ c, (f c).fd = c.fd) (fd' : ℕ)
    (s : State) :
    (s.onClient fd' f).findClient fd =
      (s.findClient fd).map (fun c => if c.fd = fd' then f c else c) := by
  rw [findClient, onClient]
  exact find?_map_clients (fun c => by split <;> simp [hf]) s.ipc fd

theorem findClient_onClient_of_ne {f : Client → Client} (hf : ∀ c, (f c).fd = c.fd) {fd fd' : ℕ}
    (hfd : fd' ≠ fd) (s : State) : (s.onClient fd' f).findClient fd = s.findClient fd := by
  rw [findClient_onClient hf]
  cases hc : s.findClient fd with
  | none => rfl
  | some c => rw [Option.map_some, findClient_fd hc, if_neg (Ne.symm hfd)]

end State

end Swayclip
