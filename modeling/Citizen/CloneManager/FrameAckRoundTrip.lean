import Citizen.CloneManager.FrameAck

open Bits net Std OrderedMap

namespace sync

theorem read_writeIgnored (entry : Value 2 × Value 8) (rest : List Byte) :
    readIgnored true (writeIgnored entry ++ rest) = (entry, rest) := by
  rw [readIgnored, writeIgnored, List.append_assoc, read_write]
  dsimp only
  rw [if_pos rfl, read_write]

/-- An object id is read back. -/
theorem read_writeObjectId (objectId : Value 2) (rest : List Byte) :
    read 2 (write objectId ++ rest) = (objectId, rest) :=
  read_write objectId rest

namespace FrameReply

variable (reply : FrameReply)

/-- The layout of an ack of the current version. -/
theorem writeAck_current : reply.writeAck bitVersion =
    write reply.frameIndex ++ writeCounted writeIgnored reply.ignoreList ++
      writeCounted write reply.recreateList := rfl

/-- An ack is read as its frame and what is in its two lists. -/
theorem readAck_current : readAck (reply.writeAck bitVersion) =
    let ignored := readCounted (readIgnored true) (writeCounted writeIgnored reply.ignoreList ++
      writeCounted write reply.recreateList)
    ⟨reply.frameIndex, emplaceAll compare ignored.1, .ofList (readCounted (read 2) ignored.2).1⟩ := by
  rw [writeAck_current, readAck, List.append_assoc, read_write]

theorem readCounted_recreateList (hrecreate : reply.recreateList.length < 256) :
    readCounted (read 2) (writeCounted write reply.recreateList) = (reply.recreateList, []) := by
  have hlast := readCounted_writeCounted read_writeObjectId hrecreate []
  rwa [List.append_nil] at hlast

/-- The ignore list of an ack is read to the length that its count has room for, at most. -/
theorem readAck_length_ignoreHandles :
    (readAck (reply.writeAck bitVersion)).ignoreHandles.toList.length ≤ reply.ignoreList.length % 256 := by
  rw [readAck_current]
  exact (length_toList_emplaceAll_le _).trans_eq (length_readCounted reply.ignoreList _)

/-- So is the recreate list, behind an ignore list that fits. -/
theorem readAck_length_recreateHandles (hignore : reply.ignoreList.length < 256) :
    (readAck (reply.writeAck bitVersion)).recreateHandles.toList.length ≤ reply.recreateList.length % 256 := by
  have hlength := @length_readCounted _ (read 2) write reply.recreateList []
  rw [List.append_nil] at hlength
  rw [readAck_current, readCounted_writeCounted read_writeIgnored hignore]
  exact (length_toList_ofList_le _).trans_eq hlength

/-- The ack is read as it was meant if and only if both lists fit and no object is in one twice. -/
theorem ackReads_iff : reply.AckReads ↔ reply.Fits ∧ reply.Distinct := by
  constructor
  · rintro ⟨-, hignore, hrecreate⟩
    have hignoreLength := reply.readAck_length_ignoreHandles
    rw [hignore.length_eq] at hignoreLength
    have hignoreFits : reply.ignoreList.length < 256 := by omega
    have hrecreateLength := reply.readAck_length_recreateHandles hignoreFits
    rw [hrecreate.length_eq] at hrecreateLength
    refine ⟨⟨hignoreFits, by omega⟩, ?_, ?_⟩
    · exact (hignore.map Prod.fst).nodup_iff.mp (nodup_keys_toList _)
    · exact hrecreate.nodup_iff.mp (nodup_toList _)
  · rintro ⟨⟨hignore, hrecreate⟩, hids, hobjects⟩
    unfold AckReads
    rw [readAck_current, readCounted_writeCounted read_writeIgnored hignore]
    dsimp only
    rw [reply.readCounted_recreateList hrecreate]
    exact ⟨rfl, toList_emplaceAll_perm hids, toList_ofList_perm hobjects⟩

/-- The flags of the current version, one by one. -/
theorem flags_current :
    (reply.flags bitVersion &&& 1 ≠ 0 ↔ reply.missing.isSome = true) ∧
    (reply.flags bitVersion &&& 2 ≠ 0 ↔ reply.ignoreList.isEmpty = false) ∧
    (reply.flags bitVersion &&& 4 ≠ 0 ↔ reply.recreateList.isEmpty = false) ∧
    reply.flags bitVersion &&& 8 ≠ 0 := by
  unfold flags
  cases reply.missing.isSome <;> cases reply.ignoreList.isEmpty <;> cases reply.recreateList.isEmpty <;> decide

/-- The missing frames as they are written. -/
def missingBytes : List Byte :=
  match reply.missing with
  | none => []
  | some (firstMissingFrame, lastMissingFrame) => write firstMissingFrame ++ write lastMissingFrame

/-- The ignore list as it is written, and the recreate list. -/
def ignoreBytes : List Byte := if reply.ignoreList.isEmpty then [] else writeCounted writeIgnored reply.ignoreList

def recreateBytes : List Byte := if reply.recreateList.isEmpty then [] else writeCounted write reply.recreateList

/-- The layout of a NAck. -/
theorem writeNAck_eq_some {netProtoVersion : Nat} {payload : List Byte}
    (h : reply.writeNAck netProtoVersion = some payload) :
    payload = write (reply.flags netProtoVersion) ++ (write reply.frameIndex ++
      (reply.missingBytes ++ (reply.ignoreBytes ++ reply.recreateBytes))) := by
  obtain ⟨-, heq⟩ := Option.ite_none_left_eq_some.mp h
  rw [← Option.some.inj heq]
  simp only [List.append_assoc]
  rfl

theorem readMissing_missingBytes (rest : List Byte) :
    readMissing (reply.flags bitVersion) (reply.missingBytes ++ rest) = (reply.missing, rest) := by
  obtain ⟨hmissing, -⟩ := reply.flags_current
  unfold readMissing missingBytes
  cases hcase : reply.missing with
  | none =>
    rw [if_neg, List.nil_append]
    rw [hmissing, hcase]
    exact Bool.false_ne_true
  | some missing =>
    rw [if_pos (hmissing.mpr (by rw [hcase]; rfl))]
    dsimp only
    rw [List.append_assoc, read_write]
    dsimp only
    rw [read_write]

/-- An ignore list that fits is read back. -/
theorem readIgnored_ignoreBytes (hfits : reply.ignoreList.length < 256) (rest : List Byte) :
    (if reply.flags bitVersion &&& 2 ≠ 0 then
      readCounted (readIgnored (reply.flags bitVersion &&& 8 ≠ 0)) (reply.ignoreBytes ++ rest)
    else ([], reply.ignoreBytes ++ rest)) = (reply.ignoreList, rest) := by
  obtain ⟨-, hignore, -, hframes⟩ := reply.flags_current
  unfold ignoreBytes
  cases hempty : reply.ignoreList.isEmpty with
  | true =>
    rw [if_neg, if_pos rfl, List.nil_append, List.isEmpty_iff.mp hempty]
    rw [hignore, hempty]
    exact Bool.noConfusion
  | false =>
    rw [if_pos (hignore.mpr hempty), if_neg Bool.false_ne_true, decide_eq_true hframes]
    exact readCounted_writeCounted read_writeIgnored hfits rest

/-- A recreate list that fits is read back. -/
theorem readCounted_recreateBytes (hfits : reply.recreateList.length < 256) :
    (if reply.flags bitVersion &&& 4 ≠ 0 then readCounted (read 2) reply.recreateBytes
      else ([], reply.recreateBytes)) = (reply.recreateList, []) := by
  obtain ⟨-, -, hrecreate, -⟩ := reply.flags_current
  unfold recreateBytes
  cases hempty : reply.recreateList.isEmpty with
  | true =>
    rw [if_neg, if_pos rfl, List.isEmpty_iff.mp hempty]
    rw [hrecreate, hempty]
    exact Bool.noConfusion
  | false =>
    have hread := readCounted_writeCounted read_writeObjectId hfits []
    rw [List.append_nil] at hread
    rw [if_pos (hrecreate.mpr hempty), if_neg Bool.false_ne_true, hread]

end FrameReply

/-- The handler goes by what it reads. -/
theorem handleNAck_eq (states : List (Value 8)) (buffer : List Byte) :
    handleNAck states buffer = (readNAck buffer).received states := by
  unfold handleNAck readNAck FrameReply.received
  dsimp only

namespace FrameReply

variable (reply : FrameReply)

/-- The ignore list of a NAck is read to the length that its count has room for. -/
theorem readLists_length_ignoreList (rest : List Byte) :
    (readLists (reply.flags bitVersion) (reply.ignoreBytes ++ rest)).1.length = reply.ignoreList.length % 256 := by
  obtain ⟨-, hignore, -⟩ := reply.flags_current
  unfold readLists ignoreBytes
  cases hempty : reply.ignoreList.isEmpty with
  | true =>
    rw [if_neg, if_pos rfl, List.isEmpty_iff.mp hempty]
    · rfl
    · rw [hignore, hempty]
      exact Bool.noConfusion
  | false =>
    rw [if_pos (hignore.mpr hempty), if_neg Bool.false_ne_true]
    exact length_readCounted reply.ignoreList rest

/-- So is the recreate list, behind an ignore list that fits. -/
theorem readLists_length_recreateList (hfits : reply.ignoreList.length < 256) :
    (readLists (reply.flags bitVersion) (reply.ignoreBytes ++ reply.recreateBytes)).2.length =
      reply.recreateList.length % 256 := by
  obtain ⟨-, -, hrecreate, -⟩ := reply.flags_current
  unfold readLists
  rw [reply.readIgnored_ignoreBytes hfits]
  dsimp only
  unfold recreateBytes
  cases hempty : reply.recreateList.isEmpty with
  | true =>
    rw [if_neg, List.isEmpty_iff.mp hempty]
    · rfl
    · rw [hrecreate, hempty]
      exact Bool.noConfusion
  | false =>
    have hlength := @length_readCounted _ (read 2) write reply.recreateList []
    rw [List.append_nil] at hlength
    rw [if_pos (hrecreate.mpr hempty), if_neg Bool.false_ne_true]
    exact hlength

/-- The lists of a NAck that fit are read back. -/
theorem readLists_of_fits (hfits : reply.Fits) :
    readLists (reply.flags bitVersion) (reply.ignoreBytes ++ reply.recreateBytes) =
      (reply.ignoreList, reply.recreateList) := by
  unfold readLists
  rw [reply.readIgnored_ignoreBytes hfits.1]
  dsimp only
  rw [reply.readCounted_recreateBytes hfits.2]

/-- What is read of a NAck: all but the lists is as it was meant. -/
theorem readNAck_payload {payload : List Byte} (h : reply.writeNAck bitVersion = some payload) :
    readNAck payload = { reply with
      ignoreList := (readLists (reply.flags bitVersion) (reply.ignoreBytes ++ reply.recreateBytes)).1
      recreateList := (readLists (reply.flags bitVersion) (reply.ignoreBytes ++ reply.recreateBytes)).2 } := by
  rw [reply.writeNAck_eq_some h, readNAck, read_write]
  dsimp only
  rw [read_write]
  dsimp only
  rw [reply.readMissing_missingBytes]

/-- The NAck is read as it was meant if and only if both lists fit. -/
theorem nackReads_iff : reply.NAckReads ↔ reply.Fits := by
  constructor
  · intro h
    cases hwrite : reply.writeNAck bitVersion with
    | none =>
      obtain ⟨⟨-, hignore, hrecreate⟩, -⟩ | ⟨-, hwrite⟩ := ite_eq_iff.mp hwrite
      · rw [Fits, hignore, hrecreate]
        exact ⟨by decide, by decide⟩
      · cases hwrite
    | some payload =>
      have hread := (h payload hwrite).1
      rw [reply.readNAck_payload hwrite] at hread
      have hignore : (readLists (reply.flags bitVersion) (reply.ignoreBytes ++ reply.recreateBytes)).1.length =
          reply.ignoreList.length := congrArg (fun read => read.ignoreList.length) hread
      rw [reply.readLists_length_ignoreList] at hignore
      have hignoreFits : reply.ignoreList.length < 256 := by omega
      have hrecreate : (readLists (reply.flags bitVersion) (reply.ignoreBytes ++ reply.recreateBytes)).2.length =
          reply.recreateList.length := congrArg (fun read => read.recreateList.length) hread
      rw [reply.readLists_length_recreateList hignoreFits] at hrecreate
      exact ⟨hignoreFits, by omega⟩
  · intro hfits payload hwrite
    have hread : readNAck payload = reply := by
      rw [reply.readNAck_payload hwrite, reply.readLists_of_fits hfits]
    refine ⟨hread, fun states => ?_⟩
    rw [handleNAck_eq, hread]

/-- A NAck is read as it was meant if and only if both lists fit their counts, and an ack if besides no list has an
object twice: the handler of the ack goes by a map and a set, the one of the NAck by the lists. -/
theorem roundTrip_iff : (reply.AckReads ↔ reply.Fits ∧ reply.Distinct) ∧ (reply.NAckReads ↔ reply.Fits) :=
  ⟨reply.ackReads_iff, reply.nackReads_iff⟩

end FrameReply

/-- 256 objects to create again. -/
def longReply : FrameReply := { frameIndex := 5, recreateList := List.replicate 256 7 }

/-- An object that could not be updated with two frames. -/
def repeatedReply : FrameReply := { frameIndex := 5, ignoreList := [(7, 10), (7, 3)] }

/-- The count of 256 objects is 0, and the server reads none of them. Of the two frames of an object an ack gives
the first. -/
theorem longReply_lost : ¬ longReply.AckReads ∧ ¬ longReply.NAckReads ∧ ¬ repeatedReply.AckReads := by
  have hlong : ¬ longReply.Fits := fun h => by
    have hlength := h.2
    rw [longReply, List.length_replicate] at hlength
    omega
  refine ⟨fun h => hlong (longReply.ackReads_iff.mp h).1, fun h => hlong (longReply.nackReads_iff.mp h), fun h => ?_⟩
  have hids := (repeatedReply.ackReads_iff.mp h).2.1
  simp [repeatedReply] at hids

end sync
