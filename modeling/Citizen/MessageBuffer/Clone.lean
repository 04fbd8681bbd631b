import Citizen.MessageBuffer.Signed

open Bits

namespace rl.MessageBuffer

/-- A call that reads. `out` is the memory that `ReadBits` writes to. -/
inductive ReadCall where
  | readBit
  | readBitsSingle (length : Nat)
  | readBits (out : List Byte) (length : Nat)
  | readSigned (length : Nat)

inductive ReadResult where
  | readBit (bit : Byte)
  | readBitsSingle (value : Option (BitVec 32))
  | readBits (out : List Byte) (result : Bool)
  | readSigned (value : BitVec 32)

/-- A number has at most 32 bits, and one with a sign has at least two. -/
def ReadCall.Valid : ReadCall → Prop
  | .readBit => True
  | .readBitsSingle length => 1 ≤ length ∧ length ≤ 32
  | .readBits out length => length ≤ 8 * out.length
  | .readSigned length => 2 ≤ length ∧ length ≤ 32

variable (lengthHack : Bool)

/-- How far a call moves the cursor. -/
def ReadCall.bits : ReadCall → Nat
  | .readBit => 1
  | .readBitsSingle length => hackLength lengthHack length
  | .readBits _ length => hackLength lengthHack length
  | .readSigned length => 1 + hackLength lengthHack (length - 1)

def ReadCall.run (b : MessageBuffer) : ReadCall → Option (ReadResult × MessageBuffer)
  | .readBit => some (.readBit b.readBit.1, b.readBit.2)
  | .readBitsSingle length =>
    some (.readBitsSingle (b.readBitsSingle lengthHack length).1, (b.readBitsSingle lengthHack length).2)
  | .readBits out length => (b.readBits lengthHack out length).map fun (out, result, b) => (.readBits out result, b)
  | .readSigned length => some (.readSigned (b.readSigned lengthHack length).1, (b.readSigned lengthHack length).2)

/-- The results of calls that are made one after the other. -/
def results : List ReadCall → MessageBuffer → Option (List ReadResult)
  | [], _ => some []
  | call :: calls, b => do
    let (result, b) ← call.run lengthHack b
    let rest ← results calls b
    some (result :: rest)

/-- `Clone`: the new buffer, and the old one after it. The `?:` takes the whole sum for its condition. -/
def clone (b : MessageBuffer) : Option (MessageBuffer × MessageBuffer) := do
  let s := int32 (b.maxBit - b.curBit)
  let c := if s.tdiv 8 + (if s.tmod 8 ≠ 0 then 1 else 0) ≠ 0 then 1 else 0
  let (newData, _, b) ← b.readBits lengthHack (List.replicate c 0) s
  some (ofBytes newData, b)

/-- Calls that stay within `remaining` bits. -/
def Within (remaining : Int) (calls : List ReadCall) : Prop :=
  (∀ call ∈ calls, call.Valid) ∧ ((calls.map (ReadCall.bits lengthHack)).sum : Int) ≤ remaining

/-- `Clone` writes to its own memory only, leaves the buffer alone, and the two are read alike. -/
structure CloneExact (b : MessageBuffer) : Prop where
  inside : (b.clone lengthHack).isSome = true
  unchanged : ∀ copy after, b.clone lengthHack = some (copy, after) → after = b
  same : ∀ copy after, b.clone lengthHack = some (copy, after) →
    ∀ calls, Within lengthHack (b.maxBit - b.curBit) calls → results lengthHack calls copy = results lengthHack calls b

variable {lengthHack}

theorem ReadCall.eq_readBits_of_bits {call : ReadCall} (hvalid : call.Valid) (hbits : call.bits lengthHack = 0) :
    ∃ out, call = .readBits out 0 := by
  cases call with
  | readBit => cases hbits
  | readBitsSingle length =>
    have hle := @le_hackLength lengthHack length
    have hlength := hvalid.1
    rw [ReadCall.bits] at hbits
    omega
  | readBits out length =>
    have hle := @le_hackLength lengthHack length
    rw [ReadCall.bits] at hbits
    obtain rfl : length = 0 := by omega
    exact ⟨out, rfl⟩
  | readSigned length =>
    rw [ReadCall.bits] at hbits
    omega

/-- Calls that read nothing have the same results on every buffer. -/
theorem results_of_no_bits (b b' : MessageBuffer) {calls : List ReadCall} (hvalid : ∀ call ∈ calls, call.Valid)
    (hbits : (calls.map (ReadCall.bits lengthHack)).sum = 0) :
    results lengthHack calls b = results lengthHack calls b' := by
  induction calls with
  | nil => rfl
  | cons call calls ih =>
    rw [List.map_cons, List.sum_cons] at hbits
    have hnone : call.bits lengthHack = 0 := by omega
    obtain ⟨out, rfl⟩ := ReadCall.eq_readBits_of_bits (hvalid call List.mem_cons_self) hnone
    have hrest := ih (fun call hcall => hvalid call (List.mem_cons_of_mem _ hcall)) (by omega)
    have hrun : ∀ b : MessageBuffer, (ReadCall.readBits out 0).run lengthHack b = some (.readBits out true, b) := by
      intro b
      rw [ReadCall.run, Nat.cast_zero, readBits_zero]
      rfl
    rw [results, results, hrun, hrun]
    simp only [Option.bind_eq_bind, Option.bind_some, hrest]

/-- A read of all remaining bits that does not fail moves the cursor to the limit. -/
theorem clone_moves {b copy after : MessageBuffer} (hplain : ¬ (int32 (b.maxBit - b.curBit) = 13 ∧ lengthHack = true))
    (hlo : 0 ≤ b.curBit) (hhi : b.curBit < 2 ^ 31) (hmax : 0 ≤ b.maxBit) (hmax' : b.maxBit < 2 ^ 31)
    (hclone : b.clone lengthHack = some (copy, after)) : after.curBit = b.maxBit := by
  have hs : int32 (b.maxBit - b.curBit) = b.maxBit - b.curBit := int32_eq (by omega) (by omega)
  obtain ⟨⟨newData, result, next⟩, hread, hnext⟩ := Option.bind_eq_some_iff.mp hclone
  obtain ⟨rfl, rfl⟩ := Prod.mk.inj (Option.some.inj hnext)
  rw [hs] at hread hplain
  have hend : int32 (b.curBit + (b.maxBit - b.curBit)) = b.maxBit := by
    rw [int32_eq (by omega) (by omega)]
    omega
  unfold readBits at hread
  split at hread
  · cases hread
    omega
  · dsimp only at hread
    rw [hend, if_neg (Int.lt_irrefl _)] at hread
    obtain ⟨out, -, hout⟩ := Option.bind_eq_some_iff.mp hread
    cases hout
    rfl

/-- With the length hack, 13 remaining bits are not copied: nine of them can be read, but from one byte they cannot. -/
theorem clone_thirteen {b copy after : MessageBuffer} {data : List Byte} {pos : Nat} (h : b.At data pos)
    (hs : b.maxBit = pos + 13) (hclone : b.clone true = some (copy, after)) :
    ∃ calls, Within true (b.maxBit - b.curBit) calls ∧ results true calls copy ≠ results true calls b := by
  have hcur := h.curBit_eq
  have hmax := h.maxBit_eq
  have hsmall := h.small
  have hleft : int32 (b.maxBit - b.curBit) = 13 := by
    rw [int32_eq (by omega) (by omega)]
    omega
  have hread : b.readBits true (List.replicate 1 0) 13 = some (List.replicate 1 0, false, b) := by
    have hwrap : int32 (b.curBit + 16) = pos + 16 := by
      rw [hcur]
      exact int32_eq (by omega) (by omega)
    rw [readBits, if_neg (by decide)]
    simp only [and_self, if_true]
    rw [hwrap, if_pos (by omega)]
  have hcopy : copy = ofBytes [0] := by
    unfold clone at hclone
    rw [hleft] at hclone
    have hsize : (if Int.tdiv 13 8 + (if Int.tmod 13 8 ≠ 0 then 1 else 0) ≠ 0 then 1 else 0 : Nat) = 1 := by decide
    simp only [hsize, hread, Option.bind_eq_bind, Option.bind_some] at hclone
    exact (Prod.mk.inj (Option.some.inj hclone)).1.symm
  have hnine : hackLength true 9 = 9 := by decide
  refine ⟨[.readBitsSingle 9], ⟨?_, ?_⟩, ?_⟩
  · intro call hcall
    obtain rfl := List.mem_singleton.mp hcall
    exact ⟨by decide, by decide⟩
  · change ((hackLength true 9 + 0 : Nat) : Int) ≤ _
    rw [hnine]
    omega
  · obtain ⟨v, hv, -⟩ := @readBitsSingle_spec true b pos 9 hcur (by decide) (by decide)
      (by rw [hnine]; omega) (by rw [hnine]; omega)
    have hnone : (readBitsSingle true (ofBytes [0]) 9).1 = none := by decide
    intro hsame
    rw [hcopy] at hsame
    simp only [results, ReadCall.run, Option.bind_eq_bind, Option.bind_some, hv, hnone] at hsame
    cases hsame

/-- `Clone` is exact at the end of the buffer and nowhere else: it reads from the buffer that it copies, and has
room for one byte. -/
theorem cloneExact_iff {b : MessageBuffer} {data : List Byte} {pos : Nat} (h : b.At data pos) (hpos : pos < 2 ^ 31) :
    CloneExact lengthHack b ↔ pos = 8 * data.length := by
  have hcur := h.curBit_eq
  have hmax := h.maxBit_eq
  have hsmall := h.small
  have hleft : int32 (b.maxBit - b.curBit) = b.maxBit - b.curBit := int32_eq (by omega) (by omega)
  constructor
  · intro hexact
    obtain ⟨⟨copy, after⟩, hclone⟩ := Option.isSome_iff_exists.mp hexact.inside
    by_cases hplain : int32 (b.maxBit - b.curBit) = 13 ∧ lengthHack = true
    · obtain ⟨hthirteen, rfl⟩ := hplain
      obtain ⟨calls, hwithin, hdiffer⟩ := clone_thirteen h (by omega) hclone
      exact absurd (hexact.same copy after hclone calls hwithin) hdiffer
    · have hmoved := clone_moves hplain (by omega) (by omega) (by omega) (by omega) hclone
      rw [hexact.unchanged copy after hclone] at hmoved
      omega
  · intro hend
    have hzero : int32 (b.maxBit - b.curBit) = 0 := by omega
    have hclone : b.clone lengthHack = some (ofBytes [], b) := by
      unfold clone
      rw [hzero]
      simp only [Int.zero_tdiv, Int.zero_tmod]
      rw [readBits_zero]
      rfl
    refine ⟨by rw [hclone]; rfl, fun copy after hcloned => ?_, fun copy after hcloned calls hwithin => ?_⟩
    · exact (Prod.mk.inj (Option.some.inj (hclone.symm.trans hcloned))).2.symm
    · have hnone := hwithin.2
      exact results_of_no_bits copy b hwithin.1 (by omega)

theorem cloneExact_end : CloneExact false ⟨[0xAB, 0xCD], 16, 16⟩ :=
  (cloneExact_iff ⟨rfl, rfl, rfl, by decide⟩ (by decide)).mpr rfl

/-- Sixteen bits are copied into one byte. -/
theorem not_cloneExact_start : ¬ CloneExact false (ofBytes [0xAB, 0xCD]) := by
  intro hexact
  have hnone : (ofBytes [0xAB, 0xCD]).clone false = none := by decide +kernel
  have hinside := hexact.inside
  rw [hnone] at hinside
  cases hinside

end rl.MessageBuffer
