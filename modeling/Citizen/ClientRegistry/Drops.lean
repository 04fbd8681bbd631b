import Citizen.ClientRegistry.Handshake

namespace fx

/-- The registry, and the drops of clients. `drops` are the callbacks of `DropClient` on the main thread, `onDrops`
counts the calls of `OnDrop`, `removed` are the clients that `RemoveClient` was called for while they were not
dropping, and `entered` those that the table of the registry has had. -/
structure ClientDrops where
  registry : ClientRegistry
  isDropping : ClientPtr → Bool
  drops : List ClientPtr
  onDrops : ClientPtr → Nat
  removed : ClientPtr → Bool
  entered : ClientPtr → Bool

/-- What the handlers call. -/
inductive RegistryCall
  | makeClient (guid token : String) (netId : Nat)
  | connect (packet : ConnectPacket)
  | allowClient (c : ClientPtr)
  | dropClient (c : ClientPtr)
  | dropClientInternal (c : ClientPtr)
  | removeClient (c : ClientPtr)
  | destroy (c : ClientPtr)

namespace ClientDrops

/-- `RemoveClient`: some code expects `OnDrop` to follow any `OnClientCreated`. -/
def removeClient (s : ClientDrops) (c : ClientPtr) : ClientDrops :=
  { s with
    registry := s.registry.removeClient c
    onDrops := if s.isDropping c then s.onDrops else Function.update s.onDrops c (s.onDrops c + 1)
    removed := if s.isDropping c then s.removed else Function.update s.removed c true }

/-- `MakeClient`, and what `initConnect` sets on the new client. -/
def makeClient (s : ClientDrops) (guid token : String) (netId : Nat) : ClientDrops :=
  let c := s.registry.nextClient
  { s with
    registry := ((s.registry.makeClient guid).setConnectionToken c token).setNetId c netId
    entered := if (s.registry.clients guid).isSome then s.entered else Function.update s.entered c true }

/-- `DropClient`. -/
def dropClient (s : ClientDrops) (c : ClientPtr) : ClientDrops :=
  if s.isDropping c then s else { s with isDropping := Function.update s.isDropping c true, drops := c :: s.drops }

/-- `DropClientInternal`. -/
def dropClientInternal (s : ClientDrops) (c : ClientPtr) : ClientDrops :=
  removeClient { s with
    onDrops := Function.update s.onDrops c (s.onDrops c + 1)
    drops := s.drops.erase c } c

/-- A call. -/
def call (s : ClientDrops) : RegistryCall → ClientDrops
  | .makeClient guid token netId => s.makeClient guid token netId
  | .connect packet =>
    match s.registry.connect packet with
    | none => s
    | some (none, r) => { s with registry := r }
    | some (some c, r) => removeClient { s with registry := r } c
  | .allowClient c =>
    if s.registry.alive c then
      { s with registry := s.registry.modify c fun client => { client with passedValidation := true } }
    else s
  | .dropClient c => s.dropClient c
  | .dropClientInternal c => s.dropClientInternal c
  | .removeClient c => s.removeClient c
  | .destroy c => { s with registry := { s.registry with alive := Function.update s.registry.alive c false } }

/-- The table of the registry has no other client for the guid, unless that one is dropping. -/
def Alone (s : ClientDrops) (c : ClientPtr) : Prop :=
  ∀ c' ∈ s.registry.clients (s.registry.objects c).guid, c' = c ∨ s.isDropping c' = true

instance (s : ClientDrops) (c : ClientPtr) : Decidable (s.Alone c) :=
  inferInstanceAs (Decidable (∀ c' ∈ s.registry.clients (s.registry.objects c).guid, c' = c ∨ s.isDropping c' = true))

/-- The client was registered, and is not any more. -/
def Left (s : ClientDrops) (c : ClientPtr) : Prop := s.entered c = true ∧ ¬ s.registry.Registered c

instance (s : ClientDrops) (c : ClientPtr) : Decidable (s.Left c) := inferInstanceAs (Decidable (_ ∧ _))

/-- No client's `OnDrop` is called twice, and that of a client that has left was called, or is about to be. -/
def Once (s : ClientDrops) : Prop :=
  ∀ c, s.onDrops c + s.drops.count c ≤ 1 ∧ (s.Left c → s.onDrops c + s.drops.count c = 1)

end ClientDrops

/-- `ClientDeferral`: what each resource has said so far, done and rejected. -/
structure ClientDeferral where
  deferralStates : List (String × Bool × Bool) := []
  ranEvents : Bool := false
  pending : Bool := false
  completed : Bool := false

/-- How `UpdateDeferrals` ends a deferral. -/
inductive DeferralResult
  | reject
  | resolve
  deriving DecidableEq

/-- The callbacks of a deferral: `update` and `done` with a message or without. -/
inductive DeferralCall
  | defer (resource : String)
  | update (resource : String) (message : Bool)
  | done (resource : String) (message : Bool)
  | presentCard (resource : String) (callback : Bool)

/-- A resource is done with a message. -/
def DeferralCall.rejects : DeferralCall → Bool
  | .done _ message => message
  | _ => false

namespace ClientDeferral

/-- `IsDeferred`. -/
def isDeferred (d : ClientDeferral) : Bool := !d.deferralStates.isEmpty

/-- The state of a resource, done and rejected. -/
def deferralState (d : ClientDeferral) (resource : String) : Bool × Bool :=
  ((d.deferralStates.find? (·.1 == resource)).map (·.2)).getD (false, false)

/-- A resource has rejected the client. -/
def rejected (d : ClientDeferral) : Bool := d.deferralStates.any (·.2.2)

def setState (d : ClientDeferral) (resource : String) (state : Bool × Bool) : ClientDeferral :=
  { d with deferralStates := (resource, state) :: d.deferralStates.filter (·.1 != resource) }

/-- `UpdateDeferrals`, without the messages. -/
def updateDeferrals (d : ClientDeferral) : ClientDeferral × Option DeferralResult :=
  if d.ranEvents = false then ({ d with pending := true }, none)
  else if d.rejected then ({ d with completed := true }, some .reject)
  else if d.deferralStates.all (·.2.1) then ({ d with completed := true }, some .resolve)
  else (d, none)

/-- `RanEvents`. -/
def runEvents (d : ClientDeferral) : ClientDeferral × Option DeferralResult :=
  let d := { d with ranEvents := true }
  if d.pending then
    let result := d.updateDeferrals
    ({ result.1 with pending := false }, result.2)
  else (d, none)

/-- A callback of `GetCallbacks`. -/
def receive (d : ClientDeferral) : DeferralCall → ClientDeferral × Option DeferralResult
  | .defer resource => (d.setState resource (false, false)).updateDeferrals
  | .update resource message =>
    let d := d.setState resource (d.deferralState resource)
    if message then d.updateDeferrals else (d, none)
  | .done resource message =>
    (d.setState resource (true, (d.deferralState resource).2 || message)).updateDeferrals
  | .presentCard resource _ => (d.setState resource (d.deferralState resource), none)

/-- A callback, after the event, with which a resource rejects the client, or after one has. -/
def rejects (d : ClientDeferral) (call : DeferralCall) : Bool := d.ranEvents && (d.rejected || call.rejects)

end ClientDeferral

/-- Where a connection attempt is: its callback on the main thread is queued, or runs the event with the deferral
that it has found, if there was one; it is over, or over with a refusal. -/
inductive AttemptPhase
  | authenticating
  | queued
  | inEvent (deferralsRef : Bool)
  | over
  | refused
  deriving DecidableEq

/-- A connection attempt of `initConnect`. `deferrals` says that its reference to the deferral is there, `kept` that
a card's callback holds the deferral, and `cancelled` that the request was cancelled. -/
structure Attempt where
  client : ClientPtr
  phase : AttemptPhase := .authenticating
  deferral : ClientDeferral := {}
  deferrals : Bool := false
  kept : Bool := false
  cancelHandler : Bool := false
  cancelled : Bool := false
  didSucceed : Bool := false
  earlyReject : Bool := false

namespace Attempt

/-- The callback on the main thread is not over. -/
def holdsClient (attempt : Attempt) : Bool := attempt.phase == .queued || attempt.phase matches .inEvent _

/-- A script's reference to the deferral locks. -/
def deferralAlive (attempt : Attempt) : Bool :=
  attempt.deferrals || attempt.kept || attempt.phase == .inEvent true

/-- The reject and the resolve callback. -/
def settle (attempt : Attempt) (alive : Bool) : Option DeferralResult → Attempt × List RegistryCall
  | none => (attempt, [])
  | some .resolve =>
    ({ attempt with deferrals := false, didSucceed := attempt.didSucceed || attempt.cancelHandler },
      [.allowClient attempt.client])
  | some .reject =>
    ({ attempt with deferrals := false, earlyReject := attempt.earlyReject || attempt.holdsClient },
      if alive then [.removeClient attempt.client] else [])

/-- A script calls back. -/
def receive (attempt : Attempt) (alive : Bool) (call : DeferralCall) : Attempt × List RegistryCall :=
  if attempt.deferralAlive = false ∨ attempt.deferral.completed then (attempt, [])
  else
    let result := attempt.deferral.receive call
    settle { attempt with
      deferral := result.1
      kept := attempt.kept || call matches .presentCard _ true } alive result.2

/-- The end of the callback on the main thread, when the event has run. -/
def endEvent (attempt : Attempt) (deferralsRef canceled alive : Bool) : Attempt × List RegistryCall :=
  let shouldAllow := deferralsRef && !canceled
  let result := if deferralsRef then attempt.deferral.runEvents else (attempt.deferral, none)
  let settled := settle { attempt with deferral := result.1 } alive result.2
  let attempt := { settled.1 with phase := .over }
  if shouldAllow = false then ({ attempt with phase := .refused }, settled.2 ++ [.removeClient attempt.client])
  else if attempt.earlyReject then ({ attempt with phase := .refused }, settled.2 ++ [.removeClient attempt.client])
  else if attempt.deferral.isDeferred then (attempt, settled.2)
  else
    ({ attempt with deferrals := false, didSucceed := attempt.didSucceed || attempt.cancelHandler },
      settled.2 ++ [.allowClient attempt.client])

/-- The cancel handler of the request. -/
def cancel (attempt : Attempt) (alive : Bool) : Attempt × List RegistryCall :=
  ({ attempt with deferrals := false, cancelHandler := false, cancelled := true },
    if attempt.didSucceed = false ∧ alive then [.removeClient attempt.client] else [])

/-- The attempt has turned its client away: it was refused, its deferral was rejected, or the request was cancelled
before it had succeeded. -/
def gone (attempt : Attempt) : Bool :=
  attempt.phase == .refused || attempt.deferral.completed && attempt.deferral.rejected ||
    attempt.cancelled && !attempt.didSucceed

end Attempt

/-- The registry and the connection attempts. -/
structure ConnectWorld where
  drops : ClientDrops
  attempts : Nat → Attempt
  nextAttempt : Nat
  tempIds : Nat

namespace ConnectWorld

/-- A request begins, with the client's game matching or not; a provider refuses it, or the last one has passed it;
its event begins and ends; scripts call back; the request is cancelled; a handshake comes; a client is dropped,
the main thread handles a drop, and a client is removed; and an object goes away when no one holds it. -/
inductive Action
  | initConnect (guid token : String) (gameNameMatch : Bool)
  | authFails (i : Nat)
  | done (i : Nat) (refused : Bool)
  | beginEvent (i : Nat)
  | deferral (i : Nat) (call : DeferralCall)
  | endEvent (i : Nat) (canceled : Bool)
  | cancel (i : Nat)
  | connect (packet : ConnectPacket)
  | dropClient (c : ClientPtr)
  | dropClientInternal (c : ClientPtr)
  | removeClient (c : ClientPtr)
  | destroy (c : ClientPtr)

/-- The calls of a step, and the attempts after it. -/
structure Plan where
  calls : List RegistryCall
  attempts : Nat → Attempt
  nextAttempt : Nat
  tempIds : Nat

/-- The step changes one attempt. -/
def planAttempt (w : ConnectWorld) (i : Nat) (result : Attempt × List RegistryCall) : Plan where
  calls := result.2
  attempts := Function.update w.attempts i result.1
  nextAttempt := w.nextAttempt
  tempIds := w.tempIds

/-- The step is calls alone. -/
def planCalls (w : ConnectWorld) (calls : List RegistryCall) : Plan where
  calls := calls
  attempts := w.attempts
  nextAttempt := w.nextAttempt
  tempIds := w.tempIds

/-- What a step does. -/
def plan (w : ConnectWorld) : Action → Option Plan
  | .initConnect guid token gameNameMatch =>
    let drop := ((w.drops.registry.getClientByGuid guid).map RegistryCall.dropClient).toList
    some {
      calls := drop ++ [.makeClient guid token ((0x10000 + w.tempIds) % 2 ^ 32)]
      attempts := Function.update w.attempts w.nextAttempt
        { client := w.drops.registry.nextClient, phase := if gameNameMatch then .authenticating else .over }
      nextAttempt := w.nextAttempt + 1
      tempIds := w.tempIds + 1 }
  | .authFails i =>
    let attempt := w.attempts i
    if i < w.nextAttempt ∧ attempt.phase = .authenticating then
      some (w.planAttempt i ({ attempt with phase := .refused },
        if w.drops.registry.alive attempt.client then [.removeClient attempt.client] else []))
    else none
  | .done i refused =>
    let attempt := w.attempts i
    if i < w.nextAttempt ∧ attempt.phase = .authenticating then
      some (w.planAttempt i (
        if w.drops.registry.alive attempt.client = false then ({ attempt with phase := .over }, [])
        else if refused then ({ attempt with phase := .refused }, [.removeClient attempt.client])
        else ({ attempt with phase := .queued, deferrals := true, cancelHandler := true }, [])))
    else none
  | .beginEvent i =>
    let attempt := w.attempts i
    if i < w.nextAttempt ∧ attempt.phase = .queued then
      some (w.planAttempt i ({ attempt with phase := .inEvent attempt.deferrals }, []))
    else none
  | .deferral i call =>
    let attempt := w.attempts i
    if i < w.nextAttempt then some (w.planAttempt i (attempt.receive (w.drops.registry.alive attempt.client) call))
      else none
  | .endEvent i canceled =>
    let attempt := w.attempts i
    match attempt.phase with
    | .inEvent deferralsRef =>
      if i < w.nextAttempt then
        some (w.planAttempt i (attempt.endEvent deferralsRef canceled (w.drops.registry.alive attempt.client)))
      else none
    | _ => none
  | .cancel i =>
    let attempt := w.attempts i
    if i < w.nextAttempt ∧ attempt.cancelHandler then
      some (w.planAttempt i (attempt.cancel (w.drops.registry.alive attempt.client)))
    else none
  | .connect packet => some (w.planCalls [.connect packet])
  | .dropClient c => if w.drops.registry.alive c then some (w.planCalls [.dropClient c]) else none
  | .dropClientInternal c => if c ∈ w.drops.drops then some (w.planCalls [.dropClientInternal c]) else none
  | .removeClient c => if w.drops.registry.alive c then some (w.planCalls [.removeClient c]) else none
  | .destroy c =>
    if ¬ w.drops.registry.Registered c ∧ c ∉ w.drops.drops ∧
        (∀ i < w.nextAttempt, (w.attempts i).client = c → (w.attempts i).holdsClient = false) then
      some (w.planCalls [.destroy c])
    else none

/-- One step. -/
def step (w : ConnectWorld) (a : Action) : Option ConnectWorld :=
  (w.plan a).map fun plan =>
    { drops := plan.calls.foldl ClientDrops.call w.drops
      attempts := plan.attempts
      nextAttempt := plan.nextAttempt
      tempIds := plan.tempIds }

/-- The client is dropping; or it has not left the table of the registry, and its attempt has not turned it away. -/
def Present (w : ConnectWorld) (c : ClientPtr) : Prop :=
  w.drops.isDropping c = true ∨
    ¬ w.drops.Left c ∧ ∀ i < w.nextAttempt, (w.attempts i).client = c → (w.attempts i).gone = false

/-- The client is present, and does not take another one out of the table. -/
def MayRemove (w : ConnectWorld) (c : ClientPtr) : Prop := w.Present c ∧ w.drops.Alone c

/-- The client of an attempt that turns it away may be removed, and is dropping if a rejection waits for the end of
the event; a client that is dropped is present, and takes no other one with it when the drop is handled; and
only a client that is in the table, or is dropping, is removed otherwise. -/
def Orderly (w : ConnectWorld) : Action → Prop
  | .authFails i => w.drops.registry.alive (w.attempts i).client = true → w.MayRemove (w.attempts i).client
  | .done i refused =>
    refused = true → w.drops.registry.alive (w.attempts i).client = true → w.MayRemove (w.attempts i).client
  | .deferral i call =>
    let attempt := w.attempts i
    attempt.deferralAlive = true → attempt.deferral.completed = false → attempt.deferral.rejects call = true →
      w.drops.registry.alive attempt.client = true → w.MayRemove attempt.client
  | .endEvent i canceled =>
    let attempt := w.attempts i
    let rejecting := attempt.phase = .inEvent true ∧ attempt.deferral.pending = true ∧ attempt.deferral.rejected = true
    (rejecting → w.drops.isDropping attempt.client = true) ∧
      (rejecting ∨ canceled = true ∨ attempt.phase = .inEvent false ∨ attempt.earlyReject = true →
        w.MayRemove attempt.client)
  | .cancel i =>
    (w.attempts i).didSucceed = false → w.drops.registry.alive (w.attempts i).client = true →
      w.MayRemove (w.attempts i).client
  | .dropClient c => w.Present c
  | .dropClientInternal c => w.drops.Alone c
  | .removeClient c => w.drops.registry.Registered c ∨ w.drops.isDropping c = true ∧ w.drops.Alone c
  | _ => True

instance (w : ConnectWorld) (c : ClientPtr) : Decidable (w.Present c) :=
  inferInstanceAs (Decidable (_ ∨ ¬ _ ∧ ∀ i < w.nextAttempt, (w.attempts i).client = c → (w.attempts i).gone = false))

instance (w : ConnectWorld) (c : ClientPtr) : Decidable (w.MayRemove c) := inferInstanceAs (Decidable (_ ∧ _))

instance (w : ConnectWorld) : (a : Action) → Decidable (w.Orderly a)
  | .authFails _ => inferInstanceAs (Decidable (_ → _))
  | .done _ _ => inferInstanceAs (Decidable (_ → _ → _))
  | .deferral _ _ => inferInstanceAs (Decidable (_ → _ → _ → _ → _))
  | .endEvent _ _ => inferInstanceAs (Decidable ((_ → _) ∧ (_ → _)))
  | .cancel _ => inferInstanceAs (Decidable (_ → _ → _))
  | .dropClient c => inferInstanceAs (Decidable (w.Present c))
  | .dropClientInternal c => inferInstanceAs (Decidable (w.drops.Alone c))
  | .removeClient _ => inferInstanceAs (Decidable (_ ∨ _ ∧ _))
  | .initConnect .. | .beginEvent _ | .connect _ | .destroy _ => .isTrue trivial

/-- No client, and no attempt. -/
def empty (oneSync bigMode : Bool) : ConnectWorld where
  drops :=
    { registry := .empty oneSync bigMode
      isDropping := fun _ => false
      drops := []
      onDrops := fun _ => 0
      removed := fun _ => false
      entered := fun _ => false }
  attempts _ := { client := 0 }
  nextAttempt := 0
  tempIds := 0

end ConnectWorld

end fx
