import Citizen.ClientRegistry.Basic

namespace fx

/-- A vouch that was counted: who sent it, for which net id, and for whom. -/
structure Vouch where
  client : ClientPtr
  allegedNewId : Nat
  newClient : ClientPtr
  deriving DecidableEq

/-- The registry with `m_hostNetId`, what the handlers know of the clients, and the vote counts. `broadcasts` are
the net ids and bases of the host broadcasts, `counted` the vouches in the vote counts, and `sent` those since
the last host change. -/
structure HostWorld where
  registry : ClientRegistry
  hostNetId : Nat
  netBase : ClientPtr → Nat
  hasRouted : ClientPtr → Bool
  isDropping : ClientPtr → Bool
  voteCounts : Nat → Option Nat
  broadcasts : List (Nat × Nat)
  counted : List Vouch
  sent : List Vouch

/-- `ceil(numClients * 0.6)`. -/
def majority (numClients : Nat) : Nat := (3 * numClients + 4) / 5

namespace HostWorld

/-- `GetHost`. -/
def getHost (w : HostWorld) : Option ClientPtr :=
  if w.hostNetId = noFinalNetId then none else w.registry.getClientByNetID w.hostNetId

/-- `SetHost`. -/
def setHost (w : HostWorld) (c : Option ClientPtr) : HostWorld :=
  { w with
    hostNetId := match c with
      | none => noFinalNetId
      | some c => if w.registry.oneSync then w.hostNetId else (w.registry.objects c).netId % 2 ^ 16
    sent := [] }

/-- The broadcast of a new host. -/
def broadcastHost (w : HostWorld) (netId netBase : Nat) : HostWorld :=
  { w with broadcasts := (netId % 2 ^ 16, netBase) :: w.broadcasts }

/-- `SetNetBase`, `SetHost` and the broadcast. -/
def makeHost (w : HostWorld) (c : ClientPtr) (baseNum : Nat) : HostWorld :=
  ({ w with netBase := Function.update w.netBase c baseNum }.setHost (some c)).broadcastHost
    (w.registry.objects c).netId baseNum

/-- The clients that `ForAllClients` finds routed. -/
def numClients (w : HostWorld) : Nat :=
  ((List.range w.registry.nextClient).filter fun c =>
    w.registry.Registered c ∧ w.isDropping c = false ∧ w.hasRouted c = true).length

def votesNeeded (w : HostWorld) : Nat := if majority w.numClients ≤ 0 then 1 else majority w.numClients

/-- The count after a vouch: a new one starts at 1. -/
def votes (w : HostWorld) (allegedNewId : Nat) : Nat := (w.voteCounts allegedNewId).getD 1 + 1

/-- Whom a vouch is counted for. -/
def candidate (w : HostWorld) (allegedNewId : Nat) : Option ClientPtr :=
  if w.registry.oneSync then none
  else if w.getHost.any fun host => (w.registry.objects host).netId = allegedNewId then none
  else w.registry.getClientByNetID allegedNewId

/-- `HeHostPacketHandler`. -/
def heHost (w : HostWorld) (client : ClientPtr) (allegedNewId baseNum : Nat) : HostWorld :=
  match w.candidate allegedNewId with
  | none => w
  | some newClient =>
    if w.votesNeeded ≤ w.votes allegedNewId then
      { w with voteCounts := fun _ => none, counted := [] }.makeHost newClient baseNum
    else
      { w with
        voteCounts := Function.update w.voteCounts allegedNewId (some (w.votes allegedNewId))
        counted := ⟨client, allegedNewId, newClient⟩ :: w.counted
        sent := ⟨client, allegedNewId, newClient⟩ :: w.sent }

/-- There is no living host. -/
def HostGone (w : HostWorld) (hostIsDead : Bool) : Prop :=
  w.registry.oneSync = false ∧ (w.getHost = none ∨ hostIsDead = true)

instance (w : HostWorld) (hostIsDead : Bool) : Decidable (w.HostGone hostIsDead) := inferInstanceAs (Decidable (_ ∧ _))

/-- `IHostPacketHandler`; `hostIsDead` is what `IsDead` says of the current host. -/
def iHost (w : HostWorld) (client : ClientPtr) (baseNum : Nat) (hostIsDead : Bool) : HostWorld :=
  if w.HostGone hostIsDead then w.makeHost client baseNum else w

/-- `DropClientInternal` as far as the host and the registry go. -/
def dropClientInternal (w : HostWorld) (c : ClientPtr) : HostWorld :=
  let w := if w.getHost = some c then (w.setHost none).broadcastHost 0xFFFF 0xFFFF else w
  { w with registry := w.registry.removeClient c }

/-- A client's packet, found by its peer; a call of the registry; a client has routed; and the two parts of a drop. -/
inductive Action
  | heHost (peer allegedNewId baseNum : Nat)
  | iHost (peer baseNum : Nat) (hostIsDead : Bool)
  | registry (a : ClientRegistry.Action)
  | route (peer : Nat)
  | dropClient (c : ClientPtr)
  | dropClientInternal (c : ClientPtr)

/-- One step. -/
def step (w : HostWorld) : Action → Option HostWorld
  | .heHost peer allegedNewId baseNum =>
    (w.registry.getClientByPeer peer).map fun client => w.heHost client allegedNewId baseNum
  | .iHost peer baseNum hostIsDead =>
    (w.registry.getClientByPeer peer).map fun client => w.iHost client baseNum hostIsDead
  | .registry a => (w.registry.step a).map fun r => { w with registry := r }
  | .route peer =>
    (w.registry.getClientByPeer peer).map fun client => { w with hasRouted := Function.update w.hasRouted client true }
  | .dropClient c =>
    if w.registry.alive c then some { w with isDropping := Function.update w.isDropping c true } else none
  | .dropClientInternal c => if w.registry.alive c then some (w.dropClientInternal c) else none

/-- No client, and no host. -/
def empty (oneSync bigMode : Bool) : HostWorld where
  registry := .empty oneSync bigMode
  hostNetId := noFinalNetId
  netBase _ := 2 ^ 32 - 1
  hasRouted _ := false
  isDropping _ := false
  voteCounts _ := none
  broadcasts := []
  counted := []
  sent := []

/-- The votes for the net id were for this client; and if the vouch makes it the host, so many different clients
that are registered have vouched for it since the last host change as are a majority of those that have routed. -/
def Elects (w : HostWorld) : Action → Prop
  | .heHost peer allegedNewId _ =>
    ∀ client newClient, w.registry.getClientByPeer peer = some client → w.candidate allegedNewId = some newClient →
      (∀ vouch ∈ w.counted, vouch.allegedNewId = allegedNewId → vouch.newClient = newClient) ∧
      (w.votesNeeded ≤ w.votes allegedNewId → ∃ voters : List ClientPtr, voters.Nodup ∧
        majority w.numClients ≤ voters.length ∧ ∀ voter ∈ voters, w.registry.Registered voter ∧
          ∃ vouch ∈ ⟨client, allegedNewId, newClient⟩ :: w.sent, vouch.client = voter ∧ vouch.newClient = newClient)
  | _ => True

/-- The clients with counted vouches stay registered, and the net ids lead to the same clients. -/
def KeepsVotes (w : HostWorld) (r : ClientRegistry) : Prop :=
  ∀ vouch ∈ w.counted, r.Registered vouch.client ∧ r.getClientByNetID vouch.allegedNewId = some vouch.newClient

/-- A vouch is from a registered client that has none in the count, and does not meet the need exactly, unless one
vote is enough. As long as vouches are counted, the host does not change in another way, the clients that have
sent them stay registered, and the net ids that they are for lead to the same clients. -/
def Orderly (w : HostWorld) : Action → Prop
  | .heHost peer allegedNewId _ =>
    ∀ client, w.registry.getClientByPeer peer = some client → (w.candidate allegedNewId).isSome = true →
      w.registry.Registered client ∧
      (∀ vouch ∈ w.counted, vouch.allegedNewId = allegedNewId → vouch.client ≠ client) ∧
      (w.votes allegedNewId = w.votesNeeded → w.votesNeeded = 1)
  | .iHost _ _ hostIsDead => w.HostGone hostIsDead → w.counted = []
  | .registry a => ∀ r, w.registry.step a = some r → w.KeepsVotes r
  | .dropClientInternal c =>
    (w.getHost = some c → w.counted = []) ∧ w.KeepsVotes (w.registry.removeClient c)
  | _ => True

instance (w : HostWorld) (r : ClientRegistry) : Decidable (w.KeepsVotes r) :=
  inferInstanceAs (Decidable (∀ vouch ∈ w.counted, _ ∧ _))

instance (w : HostWorld) : (a : Action) → Decidable (w.Orderly a)
  | .heHost peer allegedNewId _ =>
    inferInstanceAs (Decidable (∀ client ∈ w.registry.getClientByPeer peer, (w.candidate allegedNewId).isSome = true →
      w.registry.Registered client ∧
      (∀ vouch ∈ w.counted, vouch.allegedNewId = allegedNewId → vouch.client ≠ client) ∧
      (w.votes allegedNewId = w.votesNeeded → w.votesNeeded = 1)))
  | .iHost _ _ hostIsDead => inferInstanceAs (Decidable (w.HostGone hostIsDead → w.counted = []))
  | .registry a => inferInstanceAs (Decidable (∀ r ∈ w.registry.step a, w.KeepsVotes r))
  | .dropClientInternal c =>
    inferInstanceAs (Decidable ((w.getHost = some c → w.counted = []) ∧ w.KeepsVotes (w.registry.removeClient c)))
  | .route _ | .dropClient _ => .isTrue trivial

end HostWorld

end fx
