import Citizen.Lib.Congruential
import Citizen.Lib.Transition
import Citizen.Net.Buffer

open Bits net

namespace fx.ServerRPC

/-- `RpcConfiguration::ArgumentType`. -/
inductive ArgumentType
  | entity | float | int | bool | string | player | hash | objRef | objDel | vector3
  deriving DecidableEq

/-- `RpcConfiguration::RpcType`. -/
inductive RpcType
  | entityContext | entityCreate | objectCreate
  deriving DecidableEq

/-- `RpcConfiguration::Native`. Natives are told apart by their game hashes. -/
structure Native where
  rpcType : RpcType
  /-- The type of the context argument of an `entityContext` native. -/
  contextType : ArgumentType := .int
  arguments : List ArgumentType

/-- What an entity argument is written as. -/
inductive EntityArgument
  /-- There is no such entity: the native returns. -/
  | missing
  | handle (objectId : Value 4)
  | temporary (creationToken : Value 4)
  /-- The script GUID is of neither type, and nothing is written. -/
  | unset

/-- What the handler finds in its `fx::ScriptContext`, by the index of the argument, and in the state of the game. -/
structure ScriptContext where
  resourceHash : Value 4 := BitVec.allOnes 32
  /-- The client of the context's player, or the owner of its entity (`-2` if it has none). -/
  contextClient : Int := -1
  /-- The client that an entity to create is routed to; none if there is no candidate. -/
  candidate : Option Int := none
  word : Nat → Value 4 := fun _ => 0
  flag : Nat → Bool := fun _ => false
  text : Nat → List Byte := fun _ => []
  entity : Nat → EntityArgument := fun _ => .missing
  player : Nat → Option (Value 2) := fun _ => none

/-- The packet while it is built, and the handler's `replay`, `delThis` and `delId`. -/
structure Packing where
  buffer : List Byte
  replay : Bool
  delThis : Bool := false
  delId : Value 4 := 0

namespace Packing

def write {n : Nat} (p : Packing) (v : Value n) : Packing := { p with buffer := p.buffer ++ net.write v }

/-- One round of the loop over the arguments. -/
def argument (p : Packing) (ctx : ScriptContext) (i : Nat) : ArgumentType → Option Packing
  | .entity =>
    match ctx.entity i with
    | .missing => none
    | .handle objectId => some (p.write objectId)
    | .temporary creationToken => some (p.write (creationToken ||| 0x80000000 : Value 4))
    | .unset => some p
  | .objRef =>
    let obj := ctx.word i - 0x1000000
    some { p.write obj with replay := true, delId := obj }
  | .objDel =>
    let obj := ctx.word i - 0x1000000
    some { p.write obj with delThis := true, delId := obj }
  | .player => (ctx.player i).map p.write
  | .int | .hash | .float => some (p.write (ctx.word i))
  | .bool => some (p.write (if ctx.flag i then 1 else 0 : Value 1))
  | .string =>
    let p := p.write (n := 2) (BitVec.ofNat (8 * 2) (ctx.text i).length)
    some { p with buffer := p.buffer ++ ctx.text i }
  | .vector3 => some p

def arguments (ctx : ScriptContext) : List ArgumentType → Nat → Packing → Option Packing
  | [], _, p => some p
  | type :: types, i, p => (p.argument ctx i type).bind (arguments ctx types (i + 1))

end Packing

/-- An entry of a replay list: the hash of the native and its packet. -/
abbrev Entry := Value 8 × List Byte

/-- `g_replayList`. -/
abbrev ReplayList := Value 4 → List Entry

/-- What is queued with `gscomms_execute_callback_on_sync_thread`. -/
inductive Callback
  | create (creationToken : Value 4) (entry : Entry)
  | modify (delId : Value 4) (entry : Entry)

def Callback.object : Callback → Value 4
  | create creationToken _ => creationToken
  | modify delId _ => delId

/-- The list with its entries for the same native taken out and the new one last. -/
def replace (list : List Entry) (entry : Entry) : List Entry :=
    list.filter (fun e => decide (e.1 ≠ entry.1)) ++ [entry]

def Callback.run (list : ReplayList) : Callback → ReplayList
  | create creationToken entry => Function.update list creationToken (list creationToken ++ [entry])
  | modify delId entry => Function.update list delId (replace (list delId) entry)

/-- What a packet does to an object. -/
inductive Operation
  | create | modify | delete
  deriving DecidableEq

/-- A packet about an object, as a client that has been there all along gets it. -/
structure Event where
  object : Value 4
  operation : Operation
  entry : Entry
  deriving DecidableEq

/-- The packet that a native sent, and the client it went to: all of them for `-1`, none so far for `-2`. -/
structure Sent where
  clientIdx : Int
  buffer : List Byte
  event : Option Event

structure State where
  /-- `g_creationToken`. -/
  creationToken : Nat := 1
  /-- `g_objectToken`. -/
  objectToken : Nat := 1
  replayList : ReplayList := fun _ => []
  callbacks : List Callback := []
  sent : List Sent := []
  /-- The tokens drawn from `g_objectToken`. -/
  drawn : List Nat := []
  /-- The script handles of the objects that were created. -/
  handles : List (Value 4) := []
  /-- What each `OnCreatePed` replayed. -/
  replayed : List ReplayList := []

/-- The multiplier and the modulus of `std::minstd_rand`. -/
def minstd : Nat × Nat := (48271, 2 ^ 31 - 1)

/-- The multiplier and the modulus of `g_objectToken`. -/
def objectEngine : Nat × Nat := (12820163, 2 ^ 24 - 1)

namespace Native

/-- `clientIdx`. None is the return without a candidate. -/
def route (native : Native) (ctx : ScriptContext) : Option Int :=
  match native.rpcType with
  | .objectCreate => some (-1)
  | .entityCreate => ctx.candidate
  | .entityContext =>
    match native.contextType with
    | .player | .entity => some ctx.contextClient
    | _ => some (-1)

/-- The creation token, and the generators after it was drawn. -/
def token (native : Native) (s : State) : Value 4 × State :=
  match native.rpcType with
  | .entityCreate =>
    let next := Congruential.next minstd.1 minstd.2 s.creationToken
    (BitVec.ofNat 32 next, { s with creationToken := next })
  | .objectCreate =>
    let next := Congruential.next objectEngine.1 objectEngine.2 s.objectToken
    (BitVec.ofNat 32 next, { s with objectToken := next, drawn := s.drawn ++ [next] })
  | .entityContext => (0, s)

/-- The packet's head: `msgRpcNative`, the native, the resource and the creation token. -/
def header (native : Native) (gameHash : Value 8) (ctx : ScriptContext) (creationToken : Value 4) : Packing :=
  let p : Packing := { buffer := [], replay := decide (native.rpcType = .objectCreate) }
  let p := ((p.write (0x46C1AFA7 : Value 4)).write gameHash).write ctx.resourceHash
  if native.rpcType = .entityContext then p else p.write creationToken

/-- What the finished packet does to an object. -/
def event (native : Native) (gameHash : Value 8) (creationToken : Value 4) (p : Packing) : Option Event :=
  match native.rpcType with
  | .entityCreate => none
  | .objectCreate => some ⟨creationToken, .create, (gameHash, p.buffer)⟩
  | .entityContext =>
    if p.delThis then some ⟨p.delId, .delete, (gameHash, p.buffer)⟩
    else if p.replay then some ⟨p.delId, .modify, (gameHash, p.buffer)⟩
    else none

/-- The handler after the packet is built: sending, the result, the callback, and the deletion. -/
def finish (native : Native) (gameHash : Value 8) (clientIdx : Int) (creationToken : Value 4) (p : Packing)
    (s : State) : State :=
  let s := { s with sent := s.sent ++ [⟨clientIdx, p.buffer, native.event gameHash creationToken p⟩] }
  let s := match native.rpcType with
    | .entityCreate => s
    | .objectCreate =>
      let s := { s with handles := s.handles ++ [creationToken + 0x1000000] }
      if p.replay then { s with callbacks := s.callbacks ++ [.create creationToken (gameHash, p.buffer)] } else s
    | .entityContext =>
      if p.replay then { s with callbacks := s.callbacks ++ [.modify p.delId (gameHash, p.buffer)] } else s
  if p.delThis then { s with replayList := Function.update s.replayList p.delId [] } else s

/-- The handler of an RPC native. -/
def handler (native : Native) (gameHash : Value 8) (ctx : ScriptContext) (s : State) : State :=
  match native.route ctx with
  | none => s
  | some clientIdx =>
    let (creationToken, s) := native.token s
    match Packing.arguments ctx native.arguments 0 (native.header gameHash ctx creationToken) with
    | none => s
    | some p => native.finish gameHash clientIdx creationToken p s

end Native

inductive Action
  | call (gameHash : Value 8) (ctx : ScriptContext)
  /-- The sync thread runs the callback that was queued first. -/
  | sync
  /-- A joining player's ped is made, and every list is sent to the client. -/
  | onCreatePed

/-- The natives are given by their game hashes. -/
def step (natives : Value 8 → Native) (s : State) : Action → Option State
  | .call gameHash ctx => some ((natives gameHash).handler gameHash ctx s)
  | .sync =>
    match s.callbacks with
    | [] => none
    | callback :: callbacks => some { s with replayList := callback.run s.replayList, callbacks }
  | .onCreatePed => some { s with replayed := s.replayed ++ [s.replayList] }

theorem step_cases {natives : Value 8 → Native} {s t : State} {a : Action} (h : step natives s a = some t) :
    (∃ gameHash ctx, a = .call gameHash ctx ∧ t = (natives gameHash).handler gameHash ctx s) ∨
    (∃ callback callbacks, a = .sync ∧ s.callbacks = callback :: callbacks ∧
      t = { s with replayList := callback.run s.replayList, callbacks }) ∨
    (a = .onCreatePed ∧ t = { s with replayed := s.replayed ++ [s.replayList] }) := by
  cases a with
  | call gameHash ctx => exact .inl ⟨gameHash, ctx, rfl, (Option.some.inj h).symm⟩
  | sync =>
    cases hcallbacks : s.callbacks with
    | nil => simp [step, hcallbacks] at h
    | cons callback callbacks =>
      refine .inr (.inl ⟨callback, callbacks, rfl, rfl, ?_⟩)
      simpa [step, hcallbacks] using h.symm
  | onCreatePed => exact .inr (.inr ⟨rfl, (Option.some.inj h).symm⟩)

end fx.ServerRPC
