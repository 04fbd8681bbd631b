import Citizen.MessageBuffer.CopyBits

open Bits

namespace rl

variable {dest source : List Byte} {length destBitOffset sourceBitOffset : Nat}

/-- The bytes that have bits of a range, and one more if it ends at the end of a byte. -/
def window (d : List Byte) (offset length : Nat) : List Byte :=
    (d.drop (offset / 8)).take ((offset % 8 + length) / 8 + 1)

/-- `CopyBits` copies the bits and no others, and it needs no bytes outside of the windows. -/
structure CopiesExactly (dest source : List Byte) (length destBitOffset sourceBitOffset : Nat) : Prop where
  copied : ∃ d', copyBits dest source length destBitOffset sourceBitOffset = some d' ∧
    Splice dest destBitOffset length (fun i => bitAt source (sourceBitOffset + i)) d'
  inside : (copyBits (window dest destBitOffset length) (window source sourceBitOffset length) length
    (destBitOffset % 8) (sourceBitOffset % 8)).isSome = true

/-- Bits that end inside the source byte that they begin inside of also end inside one destination byte. -/
def HeadFits (length destBitOffset sourceBitOffset : Nat) : Prop :=
  sourceBitOffset % 8 = 0 ∨ 8 - sourceBitOffset % 8 ≤ length ∨ length ≤ 8 - destBitOffset % 8

/-- A carry loop with more rounds than there are bytes leaves the buffer. -/
theorem carryLoop_outside {count : Nat} {d : List Byte} {k : Nat} {v m : BitVec 32} (hpos : 0 < count)
    (hshort : d.length < k + count) : carryLoop count d k v m = none := by
  induction count generalizing d k v m with
  | zero => exact absurd hpos (Nat.lt_irrefl 0)
  | succ count ih =>
    rw [carryLoop]
    cases hmerge : mergeAt d k v m 0 with
    | none => rfl
    | some mid =>
      have hmid := length_of_mergeAt hmerge
      have hk : k < d.length := by
        obtain ⟨_, hload, _⟩ := Option.bind_eq_some_iff.mp hmerge
        exact (List.getElem?_eq_some_iff.mp hload).1
      exact ih (by omega) (by omega)

/-- With the `!` of the source, the carry loop of a short head has far too many rounds. -/
theorem slipCount {a3 d v8 : Nat} (ha3 : 1 ≤ a3) (hshort : a3 < 8 - v8) (hd : d < 8) :
    2 ≤ (((BitVec.ofNat 32 d - 10 -
      (if (BitVec.ofNat 32 v8 - 9 : BitVec 32) < ~~~(BitVec.ofNat 32 a3) then (if a3 = 0 then 1 else 0)
        else (BitVec.ofNat 32 v8 - 9 : BitVec 32))) >>> 3) + 1).toNat := by
  have hv16 : (BitVec.ofNat 32 v8 - 9 : BitVec 32).toNat = 2 ^ 32 - 9 + v8 := by
    simp [BitVec.toNat_sub, BitVec.toNat_ofNat]
    omega
  have hnot : (~~~(BitVec.ofNat 32 a3)).toNat = 2 ^ 32 - 1 - a3 := by
    rw [BitVec.toNat_not, BitVec.toNat_ofNat, Nat.mod_eq_of_lt (by omega)]
  have hbranch : (BitVec.ofNat 32 v8 - 9 : BitVec 32) < ~~~(BitVec.ofNat 32 a3) := by
    rw [BitVec.lt_def, hv16, hnot]
    omega
  rw [if_pos hbranch, if_neg (by omega)]
  have hcount : (BitVec.ofNat 32 d - 10 - 0 : BitVec 32).toNat = 2 ^ 32 - 10 + d := by
    simp [BitVec.toNat_sub, BitVec.toNat_ofNat]
    omega
  rw [BitVec.toNat_add, BitVec.toNat_ushiftRight, hcount, Nat.shiftRight_eq_div_pow]
  simp
  omega

/-- A head that does not fit writes on and on after the destination. -/
theorem copyBits_slip (hlength : 1 ≤ length) (hslip : ¬ HeadFits length destBitOffset sourceBitOffset)
    (hdest : dest.length ≤ destBitOffset / 8 + 2) :
    copyBits dest source length destBitOffset sourceBitOffset = none := by
  unfold HeadFits at hslip
  have hpos : ¬ (length : Int) < 1 := by omega
  have hhead : copyHead dest source length destBitOffset (sourceBitOffset % 8) (sourceBitOffset / 8) = none := by
    rw [copyHead]
    cases load source (sourceBitOffset / 8) with
    | none => rfl
    | some b =>
      simp only [Option.bind_eq_bind, Option.bind_some]
      rw [mergeField]
      cases hmerge : mergeAt dest (destBitOffset / 8)
        ((((b.setWidth 32 <<< (sourceBitOffset % 8)) &&& (0xFF : BitVec 32)) >>>
          (8 - min (8 - sourceBitOffset % 8) length)) <<< (32 - min (8 - sourceBitOffset % 8) length))
            ((-1 : BitVec 32) <<< (32 - min (8 - sourceBitOffset % 8) length))
        (destBitOffset % 8) with
      | none => rfl
      | some mid =>
        have hmid := length_of_mergeAt hmerge
        have hcount := @slipCount length (destBitOffset % 8) (sourceBitOffset % 8) hlength (by omega) (by omega)
        simp only [Option.bind_eq_bind, Option.bind_some]
        rw [if_pos (by omega)]
        exact carryLoop_outside (by omega) (by omega)
  unfold copyBits
  simp only [Int.toNat_natCast]
  rw [if_pos (by omega), if_neg hpos, hhead]
  rfl

theorem length_window (d : List Byte) (offset length : Nat) :
    (window d offset length).length = min ((offset % 8 + length) / 8 + 1) (d.length - offset / 8) := by
  rw [window, List.length_take, List.length_drop]

/-- The last bits would be stored before the destination. -/
theorem copyAligned_before {v6 v5 v9 : Nat} (h6 : 8 ≤ v6) (hrest : v6 % 8 ≠ 0) (hlow : 2 ^ 31 ≤ v5 + v6 / 8 * 8)
    (hhigh : v5 + v6 / 8 * 8 < 2 ^ 32) : copyAligned dest source v6 v5 v9 = none := by
  have hindex : int32 (v5 + v6 / 8 * 8 : Nat) / 8 < 0 := by
    have hmod : ((v5 + v6 / 8 * 8 : Nat) : Int) % 2 ^ 32 = (v5 + v6 / 8 * 8 : Nat) :=
      Int.emod_eq_of_lt (by omega) (by omega)
    rw [int32, hmod, if_pos (by omega)]
    omega
  unfold copyAligned
  rw [if_pos (by omega)]
  cases copyWhole dest source v5 (v6 / 8) v9 with
  | none => rfl
  | some d =>
    simp only [Option.bind_eq_bind, Option.bind_some, if_neg hrest]
    exact if_pos hindex

theorem copyBits_before (hint : length < 2 ^ 31) (hoffset : destBitOffset < 2 ^ 31)
    (hbefore : LastBefore length destBitOffset sourceBitOffset) :
    copyBits dest source length destBitOffset sourceBitOffset = none := by
  unfold LastBefore headBits at hbefore
  have hpos : ¬ (length : Int) < 1 := by omega
  unfold copyBits
  simp only [Int.toNat_natCast]
  by_cases halign : sourceBitOffset % 8 = 0
  · rw [if_pos halign] at hbefore
    rw [if_neg (by simpa using halign), if_neg hpos]
    exact copyAligned_before (by omega) (by omega) (by omega) (by omega)
  · rw [if_neg halign] at hbefore
    rw [if_pos halign, if_neg hpos]
    cases copyHead dest source length destBitOffset (sourceBitOffset % 8) (sourceBitOffset / 8) with
    | none => rfl
    | some d =>
      simp only [Option.bind_eq_bind, Option.bind_some]
      rw [if_neg (by omega)]
      exact copyAligned_before (by omega) (by omega) (by omega) (by omega)

/-- `CopyBits` is exact iff a head that ends inside its source byte ends inside one destination byte, and the bits
after the last whole byte are not stored at a negative offset. Both ranges are inside their buffers, and the
length and the destination offset are `int`s. -/
theorem copiesExactly_iff (hlength : 1 ≤ length) (hint : length < 2 ^ 31) (hoffset : destBitOffset < 2 ^ 31)
    (hdest : destBitOffset + length ≤ 8 * dest.length) (hsource : sourceBitOffset + length ≤ 8 * source.length) :
    CopiesExactly dest source length destBitOffset sourceBitOffset ↔
      HeadFits length destBitOffset sourceBitOffset ∧ ¬ LastBefore length destBitOffset sourceBitOffset := by
  have hwindow := length_window dest destBitOffset length
  have hsourceWindow := length_window source sourceBitOffset length
  constructor
  · intro h
    obtain ⟨d', hcopied, -⟩ := h.copied
    refine ⟨?_, fun hbefore => ?_⟩
    · by_contra hslip
      have hinside := h.inside
      have hslip' : ¬ HeadFits length (destBitOffset % 8) (sourceBitOffset % 8) := by
        unfold HeadFits at hslip ⊢
        omega
      unfold HeadFits at hslip
      rw [copyBits_slip hlength hslip' (by omega)] at hinside
      cases hinside
    · rw [copyBits_before hint hoffset hbefore] at hcopied
      cases hcopied
  · rintro ⟨hfits, hbefore⟩
    have hbefore' : ¬ LastBefore length (destBitOffset % 8) (sourceBitOffset % 8) := by
      unfold LastBefore headBits at hbefore ⊢
      rw [Nat.mod_mod]
      have hle := Nat.mod_le destBitOffset 8
      omega
    unfold HeadFits at hfits
    refine ⟨?_, ?_⟩
    · exact copyBits_spec dest source destBitOffset sourceBitOffset hlength hint hfits hdest hsource hbefore
    · obtain ⟨d', hcopied, -⟩ := copyBits_spec (window dest destBitOffset length)
        (window source sourceBitOffset length) (destBitOffset % 8) (sourceBitOffset % 8) hlength hint (by omega)
          (by omega) (by omega) hbefore'
      rw [hcopied]
      rfl

/-- Eleven bits from the middle of a byte to the middle of another. -/
theorem copiesExactly_eleven : CopiesExactly [0, 0, 0] [0xFF, 0x0F] 11 6 3 :=
  (copiesExactly_iff (by decide) (by decide) (by decide) (by decide) (by decide)).mpr
    ⟨.inr (.inl (by decide)), by decide⟩

/-- Three bits from inside of a byte to the end of one byte and the beginning of the next. -/
theorem not_copiesExactly_three : ¬ CopiesExactly [0, 0] [0xFF] 3 6 1 := by
  intro h
  obtain ⟨d', hcopied, -⟩ := h.copied
  rw [copyBits_slip (by decide) (by unfold HeadFits; decide) (by decide)] at hcopied
  cases hcopied

end rl
