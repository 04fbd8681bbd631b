import Citizen.Lib.OrderedMap
import Citizen.Net.Buffer

open Bits net Std OrderedMap

namespace sync

/-- What the client has to say of a frame: the frames that it misses, the objects that could not be updated with the
frame that it has of them, and the objects that could not be created. -/
structure FrameReply where
  frameIndex : Value 8
  missing : Option (Value 8 × Value 8) := none
  ignoreList : List (Value 2 × Value 8) := []
  recreateList : List (Value 2) := []
  deriving DecidableEq

/-- The `bitVersion` that the server tells clients. -/
def bitVersion : Nat := 0x202103292050

/-- An entry of the ignore list with its frame. -/
def writeIgnored (entry : Value 2 × Value 8) : List Byte := write entry.1 ++ write entry.2

namespace FrameReply

variable (reply : FrameReply)

/-- The `gameStateAck` of `HandleCloneSync`. -/
def writeAck (netProtoVersion : Nat) : List Byte :=
  write reply.frameIndex ++
    writeCounted (fun entry => write entry.1 ++ if 0x202011231556 ≤ netProtoVersion then write entry.2 else [])
      reply.ignoreList ++
    if 0x202007022353 ≤ netProtoVersion then writeCounted write reply.recreateList else []

/-- `flags` of the `gameStateNAck`. -/
def flags (netProtoVersion : Nat) : Value 1 :=
  (if reply.missing.isSome then 1 else 0) ||| (if reply.ignoreList.isEmpty then 0 else 2) |||
    (if reply.recreateList.isEmpty then 0 else 4) ||| if 0x202011220919 ≤ netProtoVersion then 8 else 0

/-- The `gameStateNAck` of `HandleCloneSync`, if there is something to say. -/
def writeNAck (netProtoVersion : Nat) : Option (List Byte) :=
  if reply.missing = none ∧ reply.ignoreList = [] ∧ reply.recreateList = [] then none
  else some (
    write (reply.flags netProtoVersion) ++ write reply.frameIndex ++
      (match reply.missing with
        | none => []
        | some (firstMissingFrame, lastMissingFrame) => write firstMissingFrame ++ write lastMissingFrame) ++
      (if reply.ignoreList.isEmpty then [] else writeCounted writeIgnored reply.ignoreList) ++
      if reply.recreateList.isEmpty then [] else writeCounted write reply.recreateList)

end FrameReply

/-- An entry of the ignore list; without the frame it is 0. -/
def readIgnored (withFrame : Bool) (buffer : List Byte) : (Value 2 × Value 8) × List Byte :=
  let (objectId, buffer) := read 2 buffer
  if withFrame then
    let (resendFrame, buffer) := read 8 buffer
    ((objectId, resendFrame), buffer)
  else ((objectId, 0), buffer)

/-- What the handler of `gameStateAck` goes by: a map and a set by object ids. -/
structure AckHandles where
  frameIndex : Value 8
  ignoreHandles : TreeMap (Value 2) (Value 8)
  recreateHandles : TreeSet (Value 2)

/-- What the handler of `gameStateAck` reads. It emplaces the entries one by one, so that of two with one id the
first stays. -/
def readAck (buffer : List Byte) : AckHandles :=
  let (frameIndex, buffer) := read 8 buffer
  let (ignored, buffer) := readCounted (readIgnored true) buffer
  let (recreates, _) := readCounted (read 2) buffer
  { frameIndex, ignoreHandles := emplaceAll compare ignored, recreateHandles := .ofList recreates }

/-- What the handler of `gameStateNAck` does: it drops the client, for the frames that it misses or for this one, or
goes by what it has read. -/
inductive NAckResult
  | dropMissing (count : Value 8)
  | dropUnknown
  | handled (reply : FrameReply)
  deriving DecidableEq

/-- The loop from the last missing frame down to the first: it ends when it has passed the first one, or does not
find one. As the frames differ, it does not find more of them than there are. -/
def findFrames (states : List (Value 8)) (firstMissingFrame : Value 8) : Nat → Value 8 → Bool
  | 0, _ => false
  | fuel + 1, frame =>
    if firstMissingFrame ≤ frame then decide (frame ∈ states) && findFrames states firstMissingFrame fuel (frame - 1)
    else true

/-- The server has all of the missing frames. -/
def framesKnown (states : List (Value 8)) (missing : Value 8 × Value 8) : Bool :=
  findFrames states missing.1 (states.length + 1) missing.2

/-- The first and the last missing frame, by the flags. -/
def readMissing (flags : Value 1) (buffer : List Byte) : Option (Value 8 × Value 8) × List Byte :=
  if flags &&& 1 ≠ 0 then
    let (firstMissingFrame, buffer) := read 8 buffer
    let (lastMissingFrame, buffer) := read 8 buffer
    (some (firstMissingFrame, lastMissingFrame), buffer)
  else (none, buffer)

/-- The ignore and the recreate list, by the flags. -/
def readLists (flags : Value 1) (buffer : List Byte) : List (Value 2 × Value 8) × List (Value 2) :=
  let (ignoredUpdates, buffer) :=
    if flags &&& 2 ≠ 0 then readCounted (readIgnored (flags &&& 8 ≠ 0)) buffer else ([], buffer)
  let (recreates, _) := if flags &&& 4 ≠ 0 then readCounted (read 2) buffer else ([], buffer)
  (ignoredUpdates, recreates)

/-- The handler of `gameStateNAck`, by the frame states that the server has for the client. -/
def handleNAck (states : List (Value 8)) (buffer : List Byte) : NAckResult :=
  let (flags, buffer) := read 1 buffer
  let (thisFrame, buffer) := read 8 buffer
  let (missing, buffer) := readMissing flags buffer
  match missing.filter fun missing => !framesKnown states missing with
  | some (firstMissingFrame, lastMissingFrame) => .dropMissing (lastMissingFrame - firstMissingFrame)
  | none =>
    if thisFrame ∉ states then .dropUnknown
    else
      let (ignoredUpdates, recreates) := readLists flags buffer
      .handled { frameIndex := thisFrame, missing, ignoreList := ignoredUpdates, recreateList := recreates }

/-- What the handler of `gameStateNAck` reads, if it does not drop the client. -/
def readNAck (buffer : List Byte) : FrameReply :=
  let (flags, buffer) := read 1 buffer
  let (thisFrame, buffer) := read 8 buffer
  let (missing, buffer) := readMissing flags buffer
  let (ignoredUpdates, recreates) := readLists flags buffer
  { frameIndex := thisFrame, missing, ignoreList := ignoredUpdates, recreateList := recreates }

namespace FrameReply

variable (reply : FrameReply)

/-- What the handler should do for a reply. -/
def received (states : List (Value 8)) : NAckResult :=
  match reply.missing.filter fun missing => !framesKnown states missing with
  | some (firstMissingFrame, lastMissingFrame) => .dropMissing (lastMissingFrame - firstMissingFrame)
  | none => if reply.frameIndex ∉ states then .dropUnknown else .handled reply

/-- Both lists fit their counts. -/
def Fits : Prop := reply.ignoreList.length < 256 ∧ reply.recreateList.length < 256

/-- No object is in a list twice. -/
def Distinct : Prop := (reply.ignoreList.map Prod.fst).Nodup ∧ reply.recreateList.Nodup

/-- The ack is read as it was meant: the map and the set have the entries of the two lists. -/
def AckReads : Prop :=
  let handles := readAck (reply.writeAck bitVersion)
  handles.frameIndex = reply.frameIndex ∧ handles.ignoreHandles.toList.Perm reply.ignoreList ∧
    handles.recreateHandles.toList.Perm reply.recreateList

/-- The NAck, if one is sent, is read as it was meant, and handled so by whatever frames the server has. -/
def NAckReads : Prop :=
  ∀ payload, reply.writeNAck bitVersion = some payload →
    readNAck payload = reply ∧ ∀ states, handleNAck states payload = reply.received states

end FrameReply

end sync
