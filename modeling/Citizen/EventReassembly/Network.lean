import Citizen.EventReassembly.Sender
import Citizen.EventReassembly.WireFormat
import Citizen.Lib.Transition

open Bits rl Std OrderedMap

namespace fx

/-- A datagram, by the packet that was unparsed into it. -/
structure Datagram where
  source : Int
  target : Int
  packet : EventPacket
  deriving DecidableEq

/-- An event that `TriggerEvent` did not skip. -/
structure Accepted where
  sender : Int
  eventId : EventId
  eventName : List Byte
  eventPayload : List Byte
  targets : TreeSet Int

/-- The peers by their ids, the datagrams sent so far, and three histories: the events accepted, the datagrams
delivered, and the events queued with the peer they were queued at. A datagram that was sent can be
delivered never, once or many times, and in any order. -/
structure Network where
  peers : Int → EventReassemblyComponentImpl
  sent : List Datagram
  accepted : List Accepted
  delivered : List Datagram
  queued : List (Int × QueuedEvent)

/-- A call at a peer, or the delivery of a datagram. -/
inductive Action where
  | call (peer : Int) (a : Call)
  | deliver (datagram : Datagram) (stack : List Byte) (now : Int) (limit : Bool)
      (stack_length : stack.length = kFragmentSize)

namespace EventReassemblyComponentImpl

/-- The event that a call at `peer` is accepted for. -/
def accepts (c : EventReassemblyComponentImpl) (peer : Int) : Call → Option Accepted
  | .triggerEvent target eventName eventPayload _ =>
    (c.acceptedTargets target eventName eventPayload).map fun targets =>
      ⟨peer, c.eventId, eventName, eventPayload, targets⟩
  | _ => none

end EventReassemblyComponentImpl

namespace Network

/-- Every peer is created at `start`. -/
def create (start : Int) : Network := ⟨fun _ => .create start, [], [], [], []⟩

/-- Peer `peer` has done a call. -/
def put (w : Network) (peer : Int) (o : Outcome) : Network :=
  { w with
    peers := Function.update w.peers peer o.component
    sent := w.sent ++ o.sends.map fun send => ⟨peer, send.1, send.2⟩
    queued := w.queued ++ o.queued.toList.map (peer, ·) }

/-- Packets reach a component from the network only. -/
def step (latency : Int → Int) (w : Network) : Action → Option Network
  | .call _ (.handlePacket _) => none
  | .call peer a => do
    let o ← (w.peers peer).call latency a
    some { w.put peer o with accepted := w.accepted ++ ((w.peers peer).accepts peer a).toList }
  | .deliver datagram stack now limit stack_length =>
    if datagram ∈ w.sent then do
      let data ← datagram.packet.datagram
      let o ← (w.peers datagram.target).call latency
        (.handlePacket ⟨datagram.source, data, stack, now, limit, stack_length⟩)
      some { w.put datagram.target o with delivered := w.delivered ++ [datagram] }
    else none

end Network

end fx
