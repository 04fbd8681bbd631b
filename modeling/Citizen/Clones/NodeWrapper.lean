import Citizen.MessageBuffer.Stream

open Bits rl

namespace fx.sync

/-- A `NodeWrapper` instantiation: its `NodeIds` and its `Length`. `parse` is the cursor its node leaves
behind after reading the payload. -/
structure NodeKind where
  id1 : BitVec 32
  id2 : BitVec 32
  id3 : BitVec 32
  canSendOnFirstUpdate : Bool
  Length : Nat
  Length_le : Length ≤ 2 ^ 27
  parse : MessageBuffer → Int

/-- `lastFrameIndex` is the one of the entity. -/
structure SyncParseState where
  buffer : MessageBuffer
  syncType : BitVec 32
  objType : BitVec 32
  timestamp : BitVec 32
  lastFrameIndex : Nat
  frameIndex : Nat

structure SyncUnparseState where
  buffer : MessageBuffer
  syncType : BitVec 32
  objType : BitVec 32
  timestamp : BitVec 32
  lastFrameIndex : Nat
  isFirstUpdate : Bool

def shouldRead (kind : NodeKind) (state : SyncParseState) : Bool × SyncParseState :=
  if kind.id1 &&& state.syncType = 0 then (false, state)
  else if kind.id3 ≠ 0 ∧ state.objType &&& kind.id3 = 0 then (false, state)
  else if kind.id2 &&& state.syncType ≠ 0 then
    let (bit, buffer) := state.buffer.readBit
    (decide (bit ≠ 0), { state with buffer })
  else (true, state)

/-- The result of `WriteBit` is dropped. -/
def shouldWrite (kind : NodeKind) (state : SyncUnparseState) (defaultValue : Bool) : Bool × SyncUnparseState :=
  if kind.id1 &&& state.syncType = 0 then (false, state)
  else if kind.id3 ≠ 0 ∧ state.objType &&& kind.id3 = 0 then (false, state)
  else if kind.id2 &&& state.syncType ≠ 0 then
    (defaultValue, { state with buffer := (state.buffer.writeBit (MessageBuffer.bitByte defaultValue)).2 })
  else (true, state)

structure NodeWrapper where
  length : BitVec 32
  data : List Byte
  timestamp : BitVec 32
  frameIndex : Nat
  ackedPlayers : Nat → Bool

namespace NodeWrapper

/-- `NodeWrapper()`. The stamps are not initialised; their values do not matter while `length` is 0. -/
def new (kind : NodeKind) (timestamp : BitVec 32) (frameIndex : Nat) : NodeWrapper where
  length := 0
  data := List.replicate kind.Length 0
  timestamp := timestamp
  frameIndex := frameIndex
  ackedPlayers := fun _ => true

/-- `data.resize(size)`, for a larger size. -/
def grow (data : List Byte) (size : Nat) : List Byte :=
  if data.length < size then data ++ List.replicate (size - data.length) 0 else data

/-- The bytes `Parse` wants for a payload of `length` bits. -/
def leftoverByteLength (length : Nat) : Nat := min 1024 (length / 8 + if length % 8 ≠ 0 then 1 else 0)

/-- `NodeWrapper::Parse`. -/
def parse (kind : NodeKind) (lengthHack : Bool) (node : NodeWrapper) (state : SyncParseState) :
    Option (NodeWrapper × SyncParseState) :=
  match shouldRead kind state with
  | (false, state) => some (node, state)
  | (true, state) => do
    let (length, _, buffer) := state.buffer.read lengthHack 13
    let endBit := buffer.getCurrentBit
    let data := grow node.data (leftoverByteLength length.toNat)
    let (data, _, buffer) ← buffer.readBits lengthHack data (min (8 * data.length % 2 ^ 32) length.toNat : Nat)
    let buffer := buffer.setCurrentBit endBit
    let buffer := { buffer with curBit := kind.parse buffer }
    let buffer := buffer.setCurrentBit ((endBit + length.toNat) % 2 ^ 32)
    some ({
        length, data
        timestamp := state.timestamp
        frameIndex := state.frameIndex
        ackedPlayers := fun _ => false },
      { state with buffer, lastFrameIndex := max state.frameIndex state.lastFrameIndex })

/-- The local `couldWrite` of `Unparse`. -/
def couldWrite (kind : NodeKind) (node : NodeWrapper) (state : SyncUnparseState) : Bool :=
  let couldWrite := decide (node.length ≠ 0) &&
    (decide (state.syncType = 1) || decide (state.lastFrameIndex < node.frameIndex))
  let couldWrite := if state.timestamp ≠ 0 ∧ state.timestamp ≠ node.timestamp then false else couldWrite
  if state.isFirstUpdate then
    let couldWrite := if kind.canSendOnFirstUpdate then couldWrite else false
    if kind.id3 &&& 1 = 0 then false else couldWrite
  else couldWrite

/-- `NodeWrapper::Unparse`, which drops the result of `WriteBits`. -/
def unparse (kind : NodeKind) (node : NodeWrapper) (state : SyncUnparseState) : Option (Bool × SyncUnparseState) :=
  match shouldWrite kind state (node.couldWrite kind state) with
  | (false, state) => some (false, state)
  | (true, state) => do
    let (_, buffer) ← state.buffer.writeBits node.data node.length.toInt
    some (true, { state with buffer })

end NodeWrapper

/-- A `Parse` call and the `GetLengthHackState()` it runs under. -/
structure ParseCall where
  lengthHack : Bool
  state : SyncParseState

/-- `Parse` calls one after the other. `Unparse` leaves the node alone. -/
def NodeWrapper.parseAll (kind : NodeKind) : NodeWrapper → List ParseCall → Option NodeWrapper
  | node, [] => some node
  | node, call :: calls => do
    let (node, _) ← node.parse kind call.lengthHack call.state
    node.parseAll kind calls

namespace ParseCall

/-- The node takes part in this sync. -/
def reads (kind : NodeKind) (call : ParseCall) : Bool := (shouldRead kind call.state).1

/-- The length announced by the input, 0 if the input ends before it. -/
def announced (kind : NodeKind) (call : ParseCall) : Nat :=
  ((shouldRead kind call.state).2.buffer.read call.lengthHack 13).1.toNat

/-- The bit of the input the payload starts at. -/
def payloadAt (kind : NodeKind) (call : ParseCall) : Nat :=
  ((shouldRead kind call.state).2.buffer.read call.lengthHack 13).2.2.getCurrentBit

/-- The announced payload, as far as the input holds it. -/
def payload (kind : NodeKind) (call : ParseCall) : List Bool :=
  ((bitsOf call.state.buffer.data).drop (call.payloadAt kind)).take (call.announced kind)

/-- The buffer is one over a byte string of at most 2^27 bytes. -/
def Small (call : ParseCall) : Prop :=
  ∃ data pos, call.state.buffer.At data pos ∧ data.length ≤ 2 ^ 27 ∧ pos ≤ 8 * data.length

end ParseCall
end fx.sync
