import Citizen.CloneManager.ObjectIds
import Citizen.Net.Buffer

open Bits net

namespace fx.ObjectIdList

/-- The loop that makes the pairs, from inside a run: its gap, its size, and its last id. -/
def pairsFrom (gap : Int) (size : Nat) (last : Int) : List Nat → List (Int × Nat)
  | [] => [(gap, size)]
  | id :: ids =>
    if (id : Int) = last + 1 then pairsFrom gap (size + 1) id ids
      else (gap, size) :: pairsFrom (id - 2 - last) 0 id ids

/-- `pairs`. The id before the first one is -1. -/
def pairs : List Nat → List (Int × Nat)
  | [] => []
  | id :: ids => pairsFrom (id - 2 - (-1)) 0 id ids

/-- A gap and a size as they are written. -/
abbrev Pair := Value 2 × Value 2

def Pair.of (pair : Int × Nat) : Pair := (BitVec.ofInt (8 * 2) pair.1, BitVec.ofNat (8 * 2) pair.2)

def writePair (pair : Pair) : List Byte := write pair.1 ++ write pair.2

/-- What `SendObjectIds` writes after the type of the message. -/
def writeObjectIds (ids : List Nat) : List Byte :=
  write (BitVec.ofNat (8 * 2) (pairs ids).length) ++ ((pairs ids).map Pair.of).flatMap writePair

def readPair (buffer : List Byte) : Pair × List Byte :=
  let (skip, buffer) := read 2 buffer
  let (take, buffer) := read 2 buffer
  ((skip, take), buffer)

/-- The ids that the handler of `msgObjectIds` takes from a message. -/
def readObjectIds (buffer : List Byte) : List Nat :=
  let (numIds, buffer) := read 2 buffer
  ObjectIds.handedOut 0 ((readMany readPair numIds.toNat buffer).1.map fun pair => (pair.1.toNat, pair.2.toNat))

theorem readPair_writePair (pair : Pair) (rest : List Byte) : readPair (writePair pair ++ rest) = (pair, rest) := by
  rw [readPair, writePair, List.append_assoc, read_write]
  dsimp only
  rw [read_write]

variable {ids : List Nat}

/-- A strictly increasing list is no longer than the interval that it is in. -/
theorem length_le_of_pairwise {low high : Nat} (hsorted : ids.Pairwise (· < ·))
    (hids : ∀ id ∈ ids, low ≤ id ∧ id < high) :
    ids.length ≤ high - low := by
  induction ids generalizing low with
  | nil => exact Nat.zero_le _
  | cons id ids ih =>
    obtain ⟨hafter, hsorted⟩ := List.pairwise_cons.mp hsorted
    obtain ⟨hfirst, hids⟩ := List.forall_mem_cons.mp hids
    have hrest : ids.length ≤ high - (id + 1) := ih hsorted fun other hmem => ⟨hafter other hmem, (hids other hmem).2⟩
    rw [List.length_cons]
    omega

/-- The reader of the pairs, from before a run on, finds the run and the ids after it. -/
theorem handedOut_pairsFrom {start gap size last : Nat} (hlast : last = start + (gap + 1) + size)
    (hsorted : (last :: ids).Pairwise (· < ·)) :
    ObjectIds.handedOut start ((pairsFrom gap size last ids).map fun pair => (pair.1.toNat, pair.2)) =
      (List.range (size + 1)).map (start + (gap + 1) + ·) ++ ids := by
  induction ids generalizing start gap size last with
  | nil =>
    rw [pairsFrom, List.map_singleton, ObjectIds.handedOut, ObjectIds.handedOut]
    rfl
  | cons id ids ih =>
    obtain ⟨hafter, hsorted⟩ := List.pairwise_cons.mp hsorted
    have hnext : last < id := hafter id List.mem_cons_self
    rw [pairsFrom]
    by_cases hrun : (id : Int) = last + 1
    · rw [if_pos hrun, ih (by omega) hsorted, List.range_succ, List.map_append, List.append_assoc]
      have hid : start + (gap + 1) + (size + 1) = id := by omega
      rw [List.map_singleton, hid]
      rfl
    · have hgap : (id : Int) - 2 - last = ((id - 2 - last : Nat) : Int) := by omega
      have hrest : ObjectIds.handedOut (start + (gap + 1) + (size + 1))
          ((pairsFrom ((id - 2 - last : Nat) : Int) 0 id ids).map fun pair => (pair.1.toNat, pair.2)) =
          [start + (gap + 1) + (size + 1) + (id - 2 - last + 1)] ++ ids := ih (by omega) hsorted
      have hid : start + (gap + 1) + (size + 1) + (id - 2 - last + 1) = id := by omega
      rw [hid] at hrest
      rw [if_neg hrun, List.map_cons, ObjectIds.handedOut, hgap]
      exact congrArg ((List.range (size + 1)).map (start + (gap + 1) + ·) ++ ·) hrest

/-- Gaps and sizes fit their fields. -/
theorem pairsFrom_fits {gap size last bound : Nat} (hgap : gap < bound) (hsize : size ≤ last) (hlast : last < bound)
    (hsorted : (last :: ids).Pairwise (· < ·)) (hids : ∀ id ∈ ids, id < bound) :
    ∀ pair ∈ pairsFrom gap size last ids, 0 ≤ pair.1 ∧ pair.1 < bound ∧ pair.2 < bound := by
  induction ids generalizing gap size last with
  | nil =>
    intro pair hmem
    rw [pairsFrom, List.mem_singleton] at hmem
    rw [hmem]
    dsimp only
    omega
  | cons id ids ih =>
    obtain ⟨hafter, hsorted⟩ := List.pairwise_cons.mp hsorted
    obtain ⟨hfirst, hids⟩ := List.forall_mem_cons.mp hids
    have hnext : last < id := hafter id List.mem_cons_self
    rw [pairsFrom]
    by_cases hrun : (id : Int) = last + 1
    · rw [if_pos hrun]
      exact ih hgap (by omega) hfirst hsorted hids
    · have hnewGap : (id : Int) - 2 - last = ((id - 2 - last : Nat) : Int) := by omega
      rw [if_neg hrun, hnewGap, List.forall_mem_cons]
      refine ⟨?_, ih (by omega) (Nat.zero_le _) hfirst hsorted hids⟩
      dsimp only
      omega

theorem length_pairsFrom (gap : Int) (size : Nat) (last : Int) (ids : List Nat) :
    (pairsFrom gap size last ids).length ≤ ids.length + 1 := by
  induction ids generalizing gap size last with
  | nil => exact Nat.le_refl _
  | cons id ids ih =>
    rw [pairsFrom]
    split_ifs
    · exact (ih _ _ _).trans (Nat.le_succ _)
    · exact Nat.succ_le_succ (ih _ _ _)

theorem length_pairs (ids : List Nat) : (pairs ids).length ≤ ids.length := by
  cases ids with
  | nil => exact Nat.le_refl _
  | cons id ids => exact length_pairsFrom _ _ _ ids

/-- A pair that fits its fields is read as it was. -/
theorem toNat_of {pair : Int × Nat} (hlow : 0 ≤ pair.1) (hgap : pair.1 < 2 ^ 16) (hsize : pair.2 < 2 ^ 16) :
    ((Pair.of pair).1.toNat, (Pair.of pair).2.toNat) = (pair.1.toNat, pair.2) := by
  have hfirst : (BitVec.ofInt 16 pair.1).toNat = pair.1.toNat := by
    rw [BitVec.toNat_ofInt]
    omega
  have hsecond : (BitVec.ofNat 16 pair.2).toNat = pair.2 := by
    rw [BitVec.toNat_ofNat]
    omega
  exact Prod.ext hfirst hsecond

/-- The reader of a message finds the ids that were written to it, which are in ascending order and fit 16 bits. -/
theorem readObjectIds_writeObjectIds (ids : List Nat) (hsorted : ids.Pairwise (· < ·))
    (hids : ∀ id ∈ ids, 1 ≤ id ∧ id ≤ 65535) :
    readObjectIds (writeObjectIds ids) = ids := by
  have hlength : ids.length ≤ 65536 - 1 := length_le_of_pairwise hsorted fun id hmem => by
    have hid := hids id hmem
    omega
  have hcount : (BitVec.ofNat (8 * 2) (pairs ids).length).toNat = ((pairs ids).map Pair.of).length := by
    have hfew := length_pairs ids
    rw [BitVec.toNat_ofNat, List.length_map]
    exact Nat.mod_eq_of_lt (by omega)
  have hread : readMany readPair (BitVec.ofNat (8 * 2) (pairs ids).length).toNat
      (((pairs ids).map Pair.of).flatMap writePair) = ((pairs ids).map Pair.of, []) := by
    have hmany := readMany_flatMap readPair_writePair ((pairs ids).map Pair.of) []
    rwa [List.append_nil, ← hcount] at hmany
  rw [readObjectIds, writeObjectIds, read_write]
  dsimp only
  rw [hread, List.map_map]
  cases ids with
  | nil => rfl
  | cons id ids =>
    obtain ⟨hfirst, hids⟩ := List.forall_mem_cons.mp hids
    have hgap : (id : Int) - 2 - (-1) = ((id - 1 : Nat) : Int) := by omega
    rw [pairs, hgap]
    have hfits : ∀ pair ∈ pairsFrom ((id - 1 : Nat) : Int) 0 id ids,
        ((Pair.of pair).1.toNat, (Pair.of pair).2.toNat) = (pair.1.toNat, pair.2) := by
      intro pair hmem
      have hsmall : ∀ other ∈ ids, other < 2 ^ 16 := by
        intro other hother
        have hid := hids other hother
        omega
      obtain ⟨hlow, hhigh, hsize⟩ := pairsFrom_fits (by omega) (Nat.zero_le _) (by omega) hsorted hsmall pair hmem
      exact toNat_of hlow (by exact_mod_cast hhigh) hsize
    have hstart : 0 + (id - 1 + 1) = id := by omega
    refine (congrArg (ObjectIds.handedOut 0) (List.map_congr_left hfits)).trans ?_
    rw [handedOut_pairsFrom (by omega) hsorted, hstart]
    rfl

/-- A single id, a run, and the largest id. -/
theorem readObjectIds_three_runs : readObjectIds (writeObjectIds [1, 3, 4, 5, 65535]) = [1, 3, 4, 5, 65535] :=
  readObjectIds_writeObjectIds [1, 3, 4, 5, 65535] (by decide) (by decide)

end fx.ObjectIdList
