import Citizen.GameState.Basic

namespace fx

/-- `roundToWord(MaxObjectId)`, the size of the bitsets. -/
def objectIdBits : Nat := (MaxObjectId + 8 - 1) / 8 * 8

/-- The bitsets of `ServerGameState`. -/
structure ServerObjectIds where
  objectIdsSent : Nat → Bool
  objectIdsUsed : Nat → Bool
  objectIdsStolen : Nat → Bool

namespace ServerObjectIds

variable (s : ServerObjectIds)

/-- Both allocators look for such an id. -/
def free (id : Nat) : Bool := !s.objectIdsSent id && !s.objectIdsUsed id

/-- The loop that counts down, and ends at 0 when it finds nothing. -/
def scanDown : Nat → Nat
  | 0 => 0
  | id + 1 => if s.free (id + 1) then id + 1 else scanDown id

/-- The bits that `CreateEntityFromTree` sets, and the id in the handle of the entity. -/
def createEntityFromTree (lengthHack : Bool) : Nat × ServerObjectIds :=
  let id := s.scanDown (if lengthHack then MaxObjectId - 1 else 8191)
  (id, {
    objectIdsSent := Function.update s.objectIdsSent id true
    objectIdsUsed := Function.update s.objectIdsUsed id true
    objectIdsStolen := Function.update s.objectIdsStolen id true })

/-- The inner loop of `SendObjectIds`, with so many ids ahead. -/
def scanUp : Nat → Nat → Option Nat
  | 0, _ => none
  | ahead + 1, id => if s.free id then some id else scanUp ahead (id + 1)

def setSent (id : Nat) : ServerObjectIds := { s with objectIdsSent := Function.update s.objectIdsSent id true }

/-- The outer loop, from an id on. -/
def gatherIds : ServerObjectIds → Nat → Nat → List Nat × ServerObjectIds
  | s, _, 0 => ([], s)
  | s, id, numIds + 1 =>
    match s.scanUp (objectIdBits - id) id with
    | none => ([], s)
    | some id =>
      let (ids, s) := gatherIds (s.setSent id) id numIds
      (id :: ids, s)

/-- The ids that `SendObjectIds` sends, and the bits that it sets. -/
def sendObjectIds (numIds : Nat) : List Nat × ServerObjectIds := gatherIds s 1 numIds

/-- `SendObjectIds` says that it could not assign an id. -/
def couldNotAssign (numIds : Nat) : Prop := (s.sendObjectIds numIds).1.length < numIds

/-- The bits of an object id in a clone stream. -/
def idBits (lengthHack : Bool) : Nat := if lengthHack then 16 else 13

/-- An id that can be given out: it is free, it can be written, and it is an index of `m_entitiesById`. -/
structure Usable (lengthHack : Bool) (id : Nat) : Prop where
  pos : 1 ≤ id
  free : s.free id = true
  written : id < 2 ^ idBits lengthHack
  index : id < MaxObjectId

/-- The largest of them. -/
def limit (lengthHack : Bool) : Nat := if lengthHack then MaxObjectId - 1 else 8191

/-- An allocation gives out usable ids, each once; where none is left it fails, and sets no bit. -/
structure Allocates (lengthHack : Bool) (ids : List Nat) (failed : Prop) (s' : ServerObjectIds) : Prop where
  usable : ∀ id ∈ ids, s.Usable lengthHack id
  nodup : ids.Nodup
  exhausted : (∀ id, ¬ s.Usable lengthHack id) → failed ∧ s' = s

variable {s} {lengthHack : Bool} {ids : List Nat} {id numIds ahead found : Nat}

theorem usable_iff : s.Usable lengthHack id ↔ 1 ≤ id ∧ id ≤ limit lengthHack ∧ s.free id = true := by
  have hlimit : id ≤ limit lengthHack ↔ id < 2 ^ idBits lengthHack ∧ id < MaxObjectId := by
    cases lengthHack with
    | false =>
      show id ≤ 8191 ↔ id < 2 ^ 13 ∧ id < 2 ^ 16 - 1
      omega
    | true =>
      show id ≤ 2 ^ 16 - 1 - 1 ↔ id < 2 ^ 16 ∧ id < 2 ^ 16 - 1
      omega
  rw [hlimit]
  exact ⟨fun h => ⟨h.pos, ⟨h.written, h.index⟩, h.free⟩, fun h => ⟨h.1, h.2.2, h.2.1.1, h.2.1.2⟩⟩

theorem limit_lt (lengthHack : Bool) : limit lengthHack < objectIdBits := by
  cases lengthHack <;> decide

/-- The free ids of an interval, in order. -/
def freeIds (s : ServerObjectIds) (id ahead : Nat) : List Nat := (List.range' id ahead).filter s.free

theorem mem_freeIds : found ∈ s.freeIds id ahead ↔ (id ≤ found ∧ found < id + ahead) ∧ s.free found = true := by
  rw [freeIds, List.mem_filter, List.mem_range'_1]

theorem freeIds_append (s : ServerObjectIds) (id first second : Nat) :
    s.freeIds id (first + second) = s.freeIds id first ++ s.freeIds (id + first) second := by
  rw [freeIds, ← List.range'_append_1, List.filter_append]
  rfl

theorem scanUp_none (h : s.scanUp ahead id = none) : s.freeIds id ahead = [] := by
  induction ahead generalizing id with
  | zero => rfl
  | succ ahead ih =>
    rw [scanUp] at h
    split_ifs at h with hfree
    rw [freeIds, List.range'_succ, List.filter_cons_of_neg hfree]
    exact ih h

/-- The inner loop finds the first free id. -/
theorem scanUp_some (h : s.scanUp ahead id = some found) :
    s.free found = true ∧ id ≤ found ∧ found < id + ahead ∧
      s.freeIds id ahead = found :: s.freeIds (found + 1) (id + ahead - (found + 1)) := by
  induction ahead generalizing id with
  | zero => cases h
  | succ ahead ih =>
    rw [scanUp] at h
    split_ifs at h with hfree
    · cases h
      refine ⟨hfree, Nat.le_refl _, by omega, ?_⟩
      have hahead : found + (ahead + 1) - (found + 1) = ahead := by omega
      rw [hahead, freeIds, List.range'_succ, List.filter_cons_of_pos hfree]
      rfl
    · obtain ⟨hfound, hlow, hhigh, hrest⟩ := ih h
      refine ⟨hfound, by omega, by omega, ?_⟩
      rw [freeIds, List.range'_succ, List.filter_cons_of_neg hfree]
      rw [show id + (ahead + 1) = id + 1 + ahead by omega]
      exact hrest

theorem free_setSent_self (s : ServerObjectIds) (id : Nat) : (s.setSent id).free id = false := by
  simp [free, setSent]

theorem free_setSent_of_ne (s : ServerObjectIds) (hne : found ≠ id) : (s.setSent id).free found = s.free found := by
  simp [free, setSent, hne]

/-- An id that was sent is not free any more. -/
theorem freeIds_setSent (s : ServerObjectIds) (id ahead : Nat) :
    (s.setSent id).freeIds id (ahead + 1) = s.freeIds (id + 1) ahead := by
  rw [freeIds, List.range'_succ, List.filter_cons_of_neg (by rw [free_setSent_self]; decide)]
  refine List.filter_congr fun other hmem => free_setSent_of_ne s ?_
  have hafter := (List.mem_range'_1.mp hmem).1
  omega

/-- The outer loop takes the first free ids. -/
theorem gatherIds_eq (hid : id ≤ objectIdBits) :
    (s.gatherIds id numIds).1 = (s.freeIds id (objectIdBits - id)).take numIds := by
  induction numIds generalizing s id with
  | zero => rfl
  | succ numIds ih =>
    rw [gatherIds]
    cases hscan : s.scanUp (objectIdBits - id) id with
    | none => rw [scanUp_none hscan, List.take_nil]
    | some found =>
      obtain ⟨-, hlow, hhigh, hrest⟩ := scanUp_some hscan
      dsimp only
      rw [ih (by omega), hrest, List.take_succ_cons]
      have hahead : objectIdBits - found = objectIdBits - (found + 1) + 1 := by omega
      have hsame : id + (objectIdBits - id) - (found + 1) = objectIdBits - (found + 1) := by omega
      rw [hahead, freeIds_setSent, hsame]

theorem gatherIds_nil (h : (s.gatherIds id numIds).1 = []) : (s.gatherIds id numIds).2 = s := by
  cases numIds with
  | zero => rfl
  | succ numIds =>
    rw [gatherIds] at h ⊢
    cases hscan : s.scanUp (objectIdBits - id) id with
    | none => rfl
    | some found =>
      rw [hscan] at h
      cases h

/-- The ids that a client gets: the first free ones, up to the limit or beyond it. -/
theorem sendObjectIds_eq (s : ServerObjectIds) (lengthHack : Bool) (numIds : Nat) : (s.sendObjectIds numIds).1 =
    (s.freeIds 1 (limit lengthHack) ++ s.freeIds (1 + limit lengthHack) (objectIdBits - 1 - limit lengthHack)).take
      numIds := by
  have hlimit := limit_lt lengthHack
  rw [sendObjectIds, gatherIds_eq (by decide), ← freeIds_append]
  congr 2
  omega

theorem nodup_freeIds (s : ServerObjectIds) (id ahead : Nat) : (s.freeIds id ahead).Nodup :=
    List.Nodup.filter _ List.nodup_range'

theorem nodup_sendObjectIds (s : ServerObjectIds) (numIds : Nat) : (s.sendObjectIds numIds).1.Nodup := by
  rw [sendObjectIds, gatherIds_eq (by decide)]
  exact (nodup_freeIds s _ _).sublist (List.take_sublist _ _)

theorem usable_of_mem (h : id ∈ s.freeIds 1 (limit lengthHack)) : s.Usable lengthHack id := by
  obtain ⟨⟨hlow, hhigh⟩, hfree⟩ := mem_freeIds.mp h
  exact usable_iff.mpr ⟨hlow, by omega, hfree⟩

/-- `SendObjectIds` gives out usable ids exactly where it does not get past them. -/
theorem sendObjectIds_allocates_iff (s : ServerObjectIds) (lengthHack : Bool) (numIds : Nat) :
    s.Allocates lengthHack (s.sendObjectIds numIds).1 (0 < numIds → s.couldNotAssign numIds)
      (s.sendObjectIds numIds).2 ↔ numIds ≤ (s.freeIds 1 (limit lengthHack)).length ∨ ∀ id, limit lengthHack < id →
        id < objectIdBits → s.free id = false := by
  have hids := sendObjectIds_eq s lengthHack numIds
  have hlimit := limit_lt lengthHack
  constructor
  · intro h
    by_contra hnone
    rw [not_or, not_le] at hnone
    obtain ⟨hmany, hfree⟩ := hnone
    push Not at hfree
    obtain ⟨id, hlow, hhigh, hfree⟩ := hfree
    -- the first id beyond the limit is among those that are sent
    have hbeyond : id ∈ s.freeIds (1 + limit lengthHack) (objectIdBits - 1 - limit lengthHack) :=
      mem_freeIds.mpr ⟨⟨by omega, by omega⟩, by simpa using hfree⟩
    obtain ⟨first, rest, hcons⟩ := List.exists_cons_of_ne_nil (List.ne_nil_of_mem hbeyond)
    have hfirst : first ∈ (s.sendObjectIds numIds).1 := by
      obtain ⟨more, hmore⟩ := Nat.exists_eq_add_of_lt hmany
      rw [hids, hcons, List.take_append, List.mem_append, hmore, Nat.add_assoc, Nat.add_sub_cancel_left,
        List.take_succ_cons]
      exact .inr List.mem_cons_self
    have hpast := (mem_freeIds.mp (hcons ▸ List.mem_cons_self : first ∈ s.freeIds (1 + limit lengthHack) _)).1.1
    have hle := (usable_iff.mp (h.usable first hfirst)).2.1
    omega
  · intro h
    have hall : ∀ id ∈ (s.sendObjectIds numIds).1, id ∈ s.freeIds 1 (limit lengthHack) := by
      intro id hmem
      rw [hids] at hmem
      rcases h with hfew | hnone
      · rw [List.take_append_of_le_length hfew] at hmem
        exact List.mem_of_mem_take hmem
      · rcases List.mem_append.mp (List.mem_of_mem_take hmem) with hin | hbeyond
        · exact hin
        · obtain ⟨⟨hlow, hhigh⟩, hfree⟩ := mem_freeIds.mp hbeyond
          rw [hnone id (by omega) (by omega)] at hfree
          cases hfree
    refine ⟨fun id hmem => usable_of_mem (hall id hmem), nodup_sendObjectIds s numIds, fun hexhausted => ?_⟩
    have hnil : (s.sendObjectIds numIds).1 = [] :=
      List.eq_nil_iff_forall_not_mem.mpr fun id hmem => hexhausted id (usable_of_mem (hall id hmem))
    refine ⟨fun hpos => ?_, gatherIds_nil hnil⟩
    rw [couldNotAssign, hnil]
    exact hpos

theorem scanDown_free (h : 0 < s.scanDown ahead) : s.scanDown ahead ≤ ahead ∧ s.free (s.scanDown ahead) = true := by
  induction ahead with
  | zero => cases h
  | succ ahead ih =>
    rw [scanDown] at h ⊢
    split_ifs at h ⊢ with hfree
    · exact ⟨Nat.le_refl _, hfree⟩
    · exact ⟨(ih h).1.trans (Nat.le_succ _), (ih h).2⟩

theorem scanDown_pos (hid : 1 ≤ id) (hle : id ≤ ahead) (hfree : s.free id = true) : 0 < s.scanDown ahead := by
  induction ahead with
  | zero => omega
  | succ ahead ih =>
    rw [scanDown]
    split_ifs with hnext
    · exact Nat.succ_pos _
    · refine ih (Nat.le_of_lt_succ (Nat.lt_of_le_of_ne hle ?_))
      rintro rfl
      exact hnext hfree

/-- `CreateEntityFromTree` takes a usable id exactly where there is one. -/
theorem createEntityFromTree_allocates_iff (s : ServerObjectIds) (lengthHack : Bool) :
    s.Allocates lengthHack [(s.createEntityFromTree lengthHack).1] False (s.createEntityFromTree lengthHack).2 ↔
      ∃ id, 1 ≤ id ∧ id ≤ limit lengthHack ∧ s.free id = true := by
  constructor
  · intro h
    exact ⟨_, usable_iff.mp (h.usable _ List.mem_cons_self)⟩
  · rintro ⟨id, hid, hle, hfree⟩
    have hpos : 0 < s.scanDown (limit lengthHack) := scanDown_pos hid hle hfree
    obtain ⟨hbound, hfound⟩ := scanDown_free hpos
    refine ⟨fun other hmem => ?_, List.nodup_singleton _, fun hexhausted => ?_⟩
    · rw [List.mem_singleton.mp hmem]
      exact usable_iff.mpr ⟨hpos, hbound, hfound⟩
    · exact absurd (usable_iff.mpr ⟨hid, hle, hfree⟩) (hexhausted id)

/-- Every id that is chosen is usable exactly where `SendObjectIds` finds enough of them or nothing else, and
`CreateEntityFromTree` finds one. -/
theorem allocates_iff (s : ServerObjectIds) (lengthHack : Bool) (numIds : Nat) :
    (s.Allocates lengthHack (s.sendObjectIds numIds).1 (0 < numIds → s.couldNotAssign numIds)
        (s.sendObjectIds numIds).2 ↔ numIds ≤ (s.freeIds 1 (limit lengthHack)).length ∨
          ∀ id, limit lengthHack < id → id < objectIdBits → s.free id = false) ∧
      (s.Allocates lengthHack [(s.createEntityFromTree lengthHack).1] False (s.createEntityFromTree lengthHack).2 ↔
        ∃ id, 1 ≤ id ∧ id ≤ limit lengthHack ∧ s.free id = true) :=
  ⟨sendObjectIds_allocates_iff s lengthHack numIds, createEntityFromTree_allocates_iff s lengthHack⟩

/-- The ids of 13 bits have been sent. A client gets 8192 then, and an entity of the server gets 0. -/
theorem short_ids_exhausted :
    let s : ServerObjectIds := ⟨fun id => decide (id ≤ 8191), fun _ => false, fun _ => false⟩
    ¬ s.Allocates false (s.sendObjectIds 1).1 (0 < 1 → s.couldNotAssign 1) (s.sendObjectIds 1).2 ∧
      ¬ s.Allocates false [(s.createEntityFromTree false).1] False (s.createEntityFromTree false).2 := by
  intro s
  have hfree : ∀ id, s.free id = true ↔ 8191 < id := by
    intro id
    simp [s, free]
  rw [sendObjectIds_allocates_iff, createEntityFromTree_allocates_iff]
  constructor
  · rintro (hfew | hnone)
    · obtain ⟨id, hmem⟩ := List.exists_mem_of_length_pos (Nat.lt_of_lt_of_le Nat.zero_lt_one hfew)
      obtain ⟨⟨-, hhigh⟩, hid⟩ := mem_freeIds.mp hmem
      have hbeyond := (hfree id).mp hid
      have hlimit : limit false = 8191 := rfl
      omega
    · have hnext := hnone 8192 (by decide) (by decide)
      rw [(hfree 8192).mpr (by decide)] at hnext
      cases hnext
  · rintro ⟨id, -, hle, hid⟩
    have hbeyond := (hfree id).mp hid
    have hlimit : limit false = 8191 := rfl
    omega

end ServerObjectIds

end fx
