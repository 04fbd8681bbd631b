import Citizen.Lib.Transition
import Citizen.Lib.Loop

namespace sync

/-- A create, sync or remove record (types 1, 2 and 3) with the frame that it was written in. `serial` tells records
apart. -/
structure UpdateRecord where
  frame : Nat
  syncType : Nat
  objectId : Nat
  uniqifier : Nat
  ts : Nat
  serial : Nat
  deriving DecidableEq

/-- What is written to the send buffer: takeovers (type 4), timestamps (5), frame indexes in 32 bits (6), and
records. -/
inductive SendItem
  | takeover (clientId objectId : Nat)
  | timestamp (ts : Nat)
  | index (value : Nat)
  | record (r : UpdateRecord)
  deriving DecidableEq

/-- What `WriteUpdates` comes to: an object to give away, or an object or a pending removal to send a record of. -/
inductive UpdateItem
  | takeover (clientId objectId : Nat)
  | record (syncType objectId uniqifier : Nat)
  deriving DecidableEq

/-- The client's side: `m_serverSendFrame`, `m_sendBuffer` and `m_serverAcks`; `clones` are the packets on their
way, and `sent` all that were sent. -/
structure UpdateClient where
  serverSendFrame : Nat := 0
  sendBuffer : List SendItem := []
  serverAcks : List (Nat × UpdateRecord) := []
  clones : List (List SendItem) := []
  sent : List (List SendItem) := []
  nextSerial : Nat := 0

namespace UpdateClient

/-- `SendUpdates` for the send buffer. -/
def sendUpdates (c : UpdateClient) : UpdateClient :=
  if c.sendBuffer = [] then c
  else { c with sendBuffer := [], clones := c.clones ++ [c.sendBuffer], sent := c.sent ++ [c.sendBuffer] }

/-- `AttemptFlushCloneBuffer`: `full` says that the buffer could compress to more than 1100 bytes. -/
def attemptFlush (c : UpdateClient) (full : Bool) : UpdateClient := if full then c.sendUpdates else c

/-- The acks that are not too old. -/
def recentAcks (c : UpdateClient) : List (Nat × UpdateRecord) :=
  if 5000 < c.serverSendFrame then c.serverAcks.filter fun ack => c.serverSendFrame - 5000 ≤ ack.1 else c.serverAcks

/-- `touchTimestamp`, when it is called first. -/
def touchTimestamp (c : UpdateClient) (ts : Nat) : UpdateClient :=
  { c with
    serverAcks := c.recentAcks
    serverSendFrame := c.serverSendFrame + 1
    sendBuffer := c.sendBuffer ++ [.timestamp ts, .index ((c.serverSendFrame + 1) % 2 ^ 32)] }

/-- The pending ack, and the record. -/
def writeRecord (c : UpdateClient) (ts syncType objectId uniqifier : Nat) : UpdateClient :=
  let r : UpdateRecord := ⟨c.serverSendFrame, syncType, objectId, uniqifier, ts, c.nextSerial⟩
  { c with
    serverAcks := c.serverAcks ++ [(c.serverSendFrame, r)]
    sendBuffer := c.sendBuffer ++ [.record r]
    nextSerial := c.nextSerial + 1 }

/-- `GiveObjectToClient` up to its flush. -/
def giveObject (c : UpdateClient) (clientId objectId : Nat) : UpdateClient :=
  { c with sendBuffer := c.sendBuffer ++ [.takeover clientId objectId] }

/-- One round of `WriteUpdates`, with `hitTimestamp`. -/
def writeItem (ts : Nat) (s : UpdateClient × Bool) (item : UpdateItem × Bool) : UpdateClient × Bool :=
  match item.1 with
  | .takeover clientId objectId => ((s.1.giveObject clientId objectId).attemptFlush item.2, s.2)
  | .record syncType objectId uniqifier =>
    let touched := if s.2 then s.1 else s.1.touchTimestamp ts
    ((touched.writeRecord ts syncType objectId uniqifier).attemptFlush item.2, true)

/-- `Update`: `WriteUpdates`, and the rest of the buffer. Each item says whether the buffer is full after it. -/
def update (c : UpdateClient) (ts : Nat) (items : List (UpdateItem × Bool)) : UpdateClient :=
  (items.foldl (writeItem ts) (c, false)).1.sendUpdates

/-- The stored acks of a frame. -/
def acksOf (c : UpdateClient) (frameIndex : Nat) : List UpdateRecord :=
  (c.serverAcks.filter fun ack => ack.1 = frameIndex).map Prod.snd

/-- `HandleCloneAcksNew`, as far as stored acks go. -/
def handleCloneAcksNew (c : UpdateClient) (frameIndex : Nat) : UpdateClient :=
  if frameIndex = 0 then c else { c with serverAcks := c.serverAcks.filter fun ack => ack.1 ≠ frameIndex }

end UpdateClient

/-- The server's side: the last frame index, and the records that were parsed. -/
structure UpdateServer where
  fidx : Nat := 0
  parsed : List UpdateRecord := []

namespace UpdateServer

/-- A round of the loop of `ParseClonePacket`. -/
def parseItem (s : UpdateServer) : SendItem → UpdateServer
  | .index value => { s with fidx := value }
  | .record r => { s with parsed := r :: s.parsed }
  | .takeover .. | .timestamp _ => s

/-- `ParseClonePacket`; the answer has the last index. -/
def parseClonePacket (s : UpdateServer) (packet : List SendItem) : UpdateServer := packet.foldl parseItem s

end UpdateServer

/-- Both sides, the answers on their way, and the packets that have arrived. -/
structure UpdateWorld where
  client : UpdateClient := {}
  server : UpdateServer := {}
  answers : List Nat := []
  arrived : List (List SendItem) := []

namespace UpdateWorld

/-- The client updates, or gives an object away at another time; the first packet or answer on its way arrives, or
is lost. -/
inductive Action
  | update (ts : Nat) (items : List (UpdateItem × Bool))
  | giveObject (clientId objectId : Nat) (full : Bool)
  | deliverClones
  | loseClones
  | deliverAnswer
  | loseAnswer

/-- One step. -/
def step (w : UpdateWorld) : Action → Option UpdateWorld
  | .update ts items => some { w with client := w.client.update ts items }
  | .giveObject clientId objectId full =>
    some { w with client := (w.client.giveObject clientId objectId).attemptFlush full }
  | .deliverClones =>
    match w.client.clones with
    | [] => none
    | packet :: rest =>
      let server := w.server.parseClonePacket packet
      some {
        client := { w.client with clones := rest }
        server
        answers := w.answers ++ [server.fidx]
        arrived := packet :: w.arrived }
  | .loseClones =>
    match w.client.clones with
    | [] => none
    | _ :: rest => some { w with client := { w.client with clones := rest } }
  | .deliverAnswer =>
    match w.answers with
    | [] => none
    | frameIndex :: rest => some { w with client := w.client.handleCloneAcksNew frameIndex, answers := rest }
  | .loseAnswer =>
    match w.answers with
    | [] => none
    | _ :: rest => some { w with answers := rest }

/-- The stored acks that the client processes are of records that the server has parsed. -/
def Acknowledges (w : UpdateWorld) : Action → Prop
  | .deliverAnswer => ∀ frameIndex rest, w.answers = frameIndex :: rest → frameIndex ≠ 0 →
    ∀ r ∈ w.client.acksOf frameIndex, r ∈ w.server.parsed
  | _ => True

/-- The packet has a record of the frame. -/
def Carries (packet : List SendItem) (frame : Nat) : Prop := ∃ r, .record r ∈ packet ∧ r.frame = frame

/-- An answer that the client processes names a frame that was sent in one packet, or all of whose packets have
arrived. -/
def Orderly (w : UpdateWorld) : Action → Prop
  | .deliverAnswer => ∀ frameIndex rest, w.answers = frameIndex :: rest → frameIndex ≠ 0 →
    (∀ packet ∈ w.client.sent, ∀ packet' ∈ w.client.sent, Carries packet frameIndex → Carries packet' frameIndex →
      packet = packet') ∨
    ∀ packet ∈ w.client.sent, Carries packet frameIndex → packet ∈ w.arrived
  | _ => True

instance (packet : List SendItem) (frame : Nat) : Decidable (Carries packet frame) :=
  decidable_of_iff (∃ item ∈ packet, (match item with | .record r => r.frame == frame | _ => false) = true) (by
    constructor
    · rintro ⟨item, hmem, hframe⟩
      cases item with
      | record r => exact ⟨r, hmem, beq_iff_eq.mp hframe⟩
      | takeover | timestamp | index => cases hframe
    · rintro ⟨r, hmem, hframe⟩
      exact ⟨.record r, hmem, beq_iff_eq.mpr hframe⟩)

instance (w : UpdateWorld) : (a : Action) → Decidable (w.Orderly a)
  | .deliverAnswer =>
    decidable_of_iff (∀ frameIndex ∈ w.answers.head?, frameIndex ≠ 0 →
      (∀ packet ∈ w.client.sent, ∀ packet' ∈ w.client.sent, Carries packet frameIndex → Carries packet' frameIndex →
        packet = packet') ∨
      ∀ packet ∈ w.client.sent, Carries packet frameIndex → packet ∈ w.arrived)
      ⟨fun h frameIndex rest hanswers => h frameIndex (by rw [hanswers]; rfl),
        fun h frameIndex hhead => by
          obtain ⟨rest, hanswers⟩ := List.head?_eq_some_iff.mp hhead
          exact h frameIndex rest hanswers⟩
  | .update .. | .giveObject .. | .deliverClones | .loseClones | .loseAnswer => .isTrue trivial

end UpdateWorld

end sync
