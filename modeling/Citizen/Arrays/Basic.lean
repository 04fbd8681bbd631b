import Citizen.GameState.Basic
import Citizen.Lib.Loop
import Citizen.Lib.Transition

namespace fx

/-- A `msgArrayUpdate`, without its type. -/
structure ArrayUpdate where
  index : Nat
  netId : Nat
  elem : Nat
  data : List (BitVec 8)
  deriving Repr, DecidableEq

/-- `ArrayHandler<MaxElemSize, Count>`. `dirtyFlags` is by element and slot. -/
structure ArrayHandler (MaxElemSize Count : Nat) where
  index : Nat
  sizes : Fin Count → Nat
  owners : Fin Count → Option ClientPtr
  array : Nat → BitVec 8
  dirtyFlags : Fin Count → Nat → Bool

namespace ArrayHandler

variable {MaxElemSize Count : Nat}

/-- The constructor: `sizes` and `array` are not initialized. -/
def new (index : Nat) (sizes : Fin Count → Nat) (array : Nat → BitVec 8) : ArrayHandler MaxElemSize Count where
  index := index
  sizes := sizes
  owners _ := none
  array := array
  dirtyFlags _ _ := false

/-- `bitset::set` of all flags. -/
def allSlots (slotId : Nat) : Bool := decide (slotId < MAX_CLIENTS + 1)

/-- `net::Buffer::Read` of `length` bytes to `array + start`: when they are not there, `sizeof(length)` bytes are
0xCE. -/
def readBytes (buffer : List (BitVec 8)) (array : Nat → BitVec 8) (start length : Nat) : Nat → BitVec 8 :=
  if buffer.length < length then fun k => if start ≤ k ∧ k < start + 8 then 0xCE else array k
  else fun k => if start ≤ k ∧ k < start + length then buffer.getD (k - start) 0 else array k

/-- The element and the size that an update starts with, and the rest. -/
def readHeader : List (BitVec 8) → Option (Nat × Nat × List (BitVec 8))
  | e :: e' :: s :: s' :: buffer => some (e.toNat + 256 * e'.toNat, s.toNat + 256 * s'.toNat, buffer)
  | _ => none

/-- `ReadUpdate`, of the client in a slot; `alive` are the clients whose weak pointers lock. Without a whole header,
and past the end of the arrays, nothing is defined. -/
def readUpdate (handler : ArrayHandler MaxElemSize Count) (alive : List ClientPtr) (client : ClientPtr) (slotId : Nat)
    (buffer : List (BitVec 8)) : Option (Bool × ArrayHandler MaxElemSize Count) :=
  match readHeader buffer with
  | none => none
  | some (elem, byteSize, buffer) =>
    if Count < elem then some (false, handler)
    else if MaxElemSize < byteSize then some (false, handler)
    else if helem : elem < Count then
      let i : Fin Count := ⟨elem, helem⟩
      let curClient := (handler.owners i).filter (· ∈ alive)
      if curClient.any (· ≠ client) then some (false, handler)
      else
        some (true,
          { handler with
            owners := Function.update handler.owners i (if byteSize ≠ 0 then some client else none)
            array := readBytes buffer handler.array (elem * MaxElemSize) byteSize
            sizes := Function.update handler.sizes i byteSize
            dirtyFlags := Function.update handler.dirtyFlags i fun slot => if slot = slotId then false
              else allSlots slot })
    else none

/-- `PlayerHasLeft`. -/
def playerHasLeft (handler : ArrayHandler MaxElemSize Count) (client : ClientPtr) (slotId : Nat) :
    ArrayHandler MaxElemSize Count :=
  { handler with
    owners := fun i => if handler.owners i = some client then none else handler.owners i
    sizes := fun i => if handler.owners i = some client then 0 else handler.sizes i
    dirtyFlags := fun i slot =>
      if handler.owners i = some client then allSlots slot
      else if slotId ≠ noSlot ∧ slot = slotId then false
      else handler.dirtyFlags i slot }

/-- The bytes of an element. -/
def content (handler : ArrayHandler MaxElemSize Count) (i : Fin Count) : List (BitVec 8) :=
  (List.range (handler.sizes i)).map fun k => handler.array (i * MaxElemSize + k)

/-- One element of `WriteUpdates`. -/
def writeElement (alive : List ClientPtr) (netId : ClientPtr → Nat) (slotId : Nat)
    (acc : ArrayHandler MaxElemSize Count × List ArrayUpdate) (i : Fin Count) :
    ArrayHandler MaxElemSize Count × List ArrayUpdate :=
  let (handler, sent) := acc
  if handler.dirtyFlags i slotId then
    let cleared :=
      { handler with
        dirtyFlags := Function.update handler.dirtyFlags i fun slot => if slot = slotId then false
          else handler.dirtyFlags i slot }
    match (handler.owners i).filter (· ∈ alive) with
    | some owner => (cleared, sent ++ [⟨handler.index, netId owner % 2 ^ 16, i, handler.content i⟩])
    | none => (cleared, sent)
  else acc

/-- `WriteUpdates`, and the packets that it sends to the client in the slot. -/
def writeUpdates (handler : ArrayHandler MaxElemSize Count) (alive : List ClientPtr) (netId : ClientPtr → Nat)
    (slotId : Nat) : ArrayHandler MaxElemSize Count × List ArrayUpdate :=
  (List.finRange Count).foldl (writeElement alive netId slotId) (handler, [])

end ArrayHandler

/-- A handler and the clients of its routing bucket: those of the registry, and those whose weak pointers still lock.
`received` is what was sent to a client since it joined, and `changedBy` is who made the latest change of an element,
when it has not left since. -/
structure ArrayWorld (MaxElemSize Count : Nat) where
  handler : ArrayHandler MaxElemSize Count
  connected : List ClientPtr
  alive : List ClientPtr
  netId : ClientPtr → Nat
  slotId : ClientPtr → Nat
  received : ClientPtr → List ArrayUpdate
  changedBy : Fin Count → Option ClientPtr

namespace ArrayWorld

variable {MaxElemSize Count : Nat}

/-- The owner of an element, while it is there. -/
def owner (w : ArrayWorld MaxElemSize Count) (i : Fin Count) : Option ClientPtr :=
  (w.handler.owners i).filter (· ∈ w.alive)

/-- What an element is now: nothing without an owner. -/
def current (w : ArrayWorld MaxElemSize Count) (i : Fin Count) : List (BitVec 8) :=
  if (w.owner i).isSome then w.handler.content i else []

/-- What was last sent of an element. -/
def lastSent (updates : List ArrayUpdate) (i : Fin Count) : Option (List (BitVec 8)) :=
  (updates.reverse.find? fun update => update.elem == i.1).map (·.data)

/-- A client joins with a net id and a slot of its own; the registry removes it and takes its slot; `PlayerHasLeft` is
called for it, on the sync thread, before or after that, or when it goes to another routing bucket; it sends an update;
and it is sent the updates, if it has a slot. -/
inductive Action
  | join (c : ClientPtr) (netId slotId : Nat)
  | removeClient (c : ClientPtr)
  | playerHasLeft (c : ClientPtr)
  | readUpdate (c : ClientPtr) (buffer : List (BitVec 8))
  | writeUpdates (c : ClientPtr)

/-- One step. -/
def step (w : ArrayWorld MaxElemSize Count) : Action → Option (ArrayWorld MaxElemSize Count)
  | .join c netId slotId =>
    if c ∉ w.alive ∧
        (slotId = noSlot ∨ slotId < MAX_CLIENTS ∧ ∀ c' ∈ w.connected, w.slotId c' ≠ slotId) then
      some { w with
        connected := c :: w.connected
        alive := c :: w.alive
        netId := Function.update w.netId c netId
        slotId := Function.update w.slotId c slotId
        received := Function.update w.received c [] }
    else none
  | .removeClient c =>
    if c ∈ w.connected then
      some { w with
        connected := w.connected.filter (· ≠ c)
        slotId := Function.update w.slotId c noSlot }
    else none
  | .playerHasLeft c =>
    if c ∈ w.alive then
      some { w with
        handler := w.handler.playerHasLeft c (w.slotId c)
        alive := w.alive.filter fun c' => c' ≠ c ∨ c ∈ w.connected
        received := Function.update w.received c []
        changedBy := fun i => (w.changedBy i).filter (· ≠ c) }
    else none
  | .readUpdate c buffer =>
    if c ∈ w.alive then
      (w.handler.readUpdate w.alive c (w.slotId c) buffer).map fun result =>
        { w with
          handler := result.2
          changedBy := fun i =>
            if result.1 ∧ (ArrayHandler.readHeader buffer).map (·.1) = some i.1 then some c else w.changedBy i }
    else none
  | .writeUpdates c =>
    if c ∈ w.connected ∧ w.slotId c ≠ noSlot then
      let written := w.handler.writeUpdates w.alive w.netId (w.slotId c)
      some { w with
        handler := written.1
        received := Function.update w.received c (w.received c ++ written.2) }
    else none

/-- The client has been sent the current content of every element that was not last changed by the client itself. -/
def Converged (w : ArrayWorld MaxElemSize Count) (c : ClientPtr) : Prop :=
  ∀ i, w.changedBy i ≠ some c → (lastSent (w.received c) i).getD [] = w.current i

/-- After it was sent the updates. -/
def Converges (w : ArrayWorld MaxElemSize Count) (a : Action) : Prop :=
  ∀ c, a = .writeUpdates c → ∀ w', w.step a = some w' → w'.Converged c

/-- What the updates are sent of has an owner, or the client knows nothing of it; and what has an owner is sent now, or
was sent since the client joined. -/
def Reaches (w : ArrayWorld MaxElemSize Count) (a : Action) : Prop :=
  ∀ c, a = .writeUpdates c → ∀ i, w.changedBy i ≠ some c →
    if (w.owner i).isSome then w.handler.dirtyFlags i (w.slotId c) = true ∨ (lastSent (w.received c) i).isSome
    else w.handler.dirtyFlags i (w.slotId c) = true → (lastSent (w.received c) i).getD [] = []

/-- No client has joined yet. -/
def new (index : Nat) (sizes : Fin Count → Nat) (array : Nat → BitVec 8) : ArrayWorld MaxElemSize Count where
  handler := .new index sizes array
  connected := []
  alive := []
  netId _ := 0
  slotId _ := noSlot
  received _ := []
  changedBy _ := none

end ArrayWorld

end fx
