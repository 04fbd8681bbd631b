import Citizen.MessageBuffer.Field

open Bits

namespace rl

theorem memcpy_spec (dest : List Byte) {source : List Byte} {k s n : Nat} (hk : k + n ≤ dest.length)
    (hs : s + n ≤ source.length) :
    ∃ d', memcpy dest k source s n = some d' ∧
      Splice dest (8 * k) (8 * n) (fun i => bitAt source (8 * s + i)) d' := by
  refine ⟨_, if_pos ⟨hk, hs⟩, ?_, fun i => ?_⟩
  · simp
    omega
  · have htake : (dest.take k).length = k := by simp; omega
    have hpiece : ((source.drop s).take n).length = n := by simp; omega
    rw [bitAt_append, bitAt_append, List.length_append, htake, hpiece, bitAt_drop]
    rcases Nat.lt_or_ge i (8 * k) with h | h
    · rw [if_pos (by omega), if_pos h, if_neg (by omega), bitAt_take h]
    · rcases Nat.lt_or_ge i (8 * (k + n)) with h' | h'
      · rw [if_pos h', if_neg (by omega), if_pos (by omega), bitAt_take (by omega), bitAt_drop]
      · rw [if_neg (by omega), if_neg (by omega)]
        congr 1
        omega

private theorem getMsbD_ones {j : Nat} : (255 : Byte).getMsbD j = decide (j < 8) := by
  have hones : (255 : Byte) = BitVec.allOnes 8 := by decide
  rw [hones, BitVec.getMsbD_allOnes]

/-- The byte written behind the destination boundary. -/
private theorem getMsbD_firstByte (b old : Byte) {sh j : Nat} (hj : j < 8) (hsh : sh < 8) :
    ((b >>> sh) ||| (((255 : Byte) <<< (8 - sh)) &&& old)).getMsbD j =
      if j < sh then old.getMsbD j else b.getMsbD (j - sh) := by
  rw [BitVec.getMsbD_or, BitVec.getMsbD_and, BitVec.getMsbD_shiftLeft, BitVec.getMsbD_ushiftRight, getMsbD_ones]
  by_cases hin : j < sh
  · simp [hin, show j + (8 - sh) < 8 by omega]
  · simp [hin, hj, show ¬ j + (8 - sh) < 8 by omega]

/-- The byte carried over to the next round. -/
private theorem getMsbD_nextByte (b old : Byte) {sh j : Nat} (hj : j < 8) (hsh : sh < 8) :
    ((b <<< (8 - sh)) ||| (((255 : Byte) >>> sh) &&& old)).getMsbD j =
      if j < sh then b.getMsbD (j + (8 - sh)) else old.getMsbD j := by
  rw [BitVec.getMsbD_or, BitVec.getMsbD_and, BitVec.getMsbD_shiftLeft, BitVec.getMsbD_ushiftRight, getMsbD_ones]
  by_cases hin : j < sh
  · simp [hin]
  · simp [hin, hj, show j - sh < 8 by omega, show 8 ≤ j + (8 - sh) by omega]

/-- One round of the unaligned loop stores one source byte across two
destination bytes. -/
private theorem shift_round {d : List Byte} {k sh : Nat} (b : Byte) (hsh : 0 < sh) (hsh8 : sh < 8)
    (hk : k + 1 < d.length) :
    Splice d (8 * k + sh) 8 b.getMsbD
      ((d.set k ((b >>> sh) ||| (((255 : Byte) <<< (8 - sh)) &&& d.getD k 0))).set (k + 1)
        ((b <<< (8 - sh)) ||| (((255 : Byte) >>> sh) &&& d.getD (k + 1) 0))) := by
  refine ⟨by simp, fun i => ?_⟩
  rw [bitAt_set (by simpa using hk), bitAt_set (by omega), getMsbD_firstByte _ _ (by omega) hsh8,
    getMsbD_nextByte _ _ (by omega) hsh8]
  by_cases hnext : i / 8 = k + 1
  · have hold : (d.getD (k + 1) 0).getMsbD (i % 8) = bitAt d i := by rw [bitAt, hnext]
    rw [if_pos hnext, hold]
    by_cases hin : i % 8 < sh
    · rw [if_pos hin, if_pos (by omega), show i % 8 + (8 - sh) = i - (8 * k + sh) by omega]
    · rw [if_neg hin, if_neg (by omega)]
  · rw [if_neg hnext]
    by_cases hfirst : i / 8 = k
    · have hold : (d.getD k 0).getMsbD (i % 8) = bitAt d i := by rw [bitAt, hfirst]
      rw [if_pos hfirst, hold]
      by_cases hin : i % 8 < sh
      · rw [if_pos hin, if_neg (by omega)]
      · rw [if_neg hin, if_pos (by omega), show i % 8 - sh = i - (8 * k + sh) by omega]
    · rw [if_neg hfirst, if_neg (by omega)]

theorem shiftLoop_spec (v20 : Nat) {d source : List Byte} (k v28 sh : Nat) (hsh : 0 < sh) (hsh8 : sh < 8)
    (hk : k + v20 < d.length) (hs : v28 + v20 ≤ source.length) :
    ∃ d', shiftLoop v20 d k source v28 sh (d.getD k 0) = some d' ∧
      Splice d (8 * k + sh) (8 * v20) (fun i => bitAt source (8 * v28 + i)) d' := by
  induction v20 generalizing d k v28 with
  | zero => exact ⟨d, rfl, .refl _ _ _⟩
  | succ v20 ih =>
    have hround := shift_round (source.getD v28 0) hsh hsh8 (show k + 1 < d.length by omega)
    generalize hmid : ((d.set k ((source.getD v28 0 >>> sh) ||| (((255 : Byte) <<< (8 - sh)) &&& d.getD k 0))).set
        (k + 1) ((source.getD v28 0 <<< (8 - sh)) ||| (((255 : Byte) >>> sh) &&& d.getD (k + 1) 0))) = mid at hround
    have hnext : mid.getD (k + 1) 0 = (source.getD v28 0 <<< (8 - sh)) |||
      (((255 : Byte) >>> sh) &&& d.getD (k + 1) 0) := by
      rw [← hmid]
      simp [List.getD_eq_getElem?_getD, show k + 1 < d.length by omega]
    have hmidlen := hround.length_eq
    obtain ⟨d', hd', hrest⟩ := ih (d := mid) (k + 1) (v28 + 1) (by omega) (by omega)
    refine ⟨d', ?_, ?_⟩
    · rw [hnext] at hd'
      rw [shiftLoop, load_eq_some (by omega), load_eq_some (by omega)]
      simp only [Option.bind_eq_bind, Option.bind_some]
      rw [store_eq_some (by omega)]
      simp only [Option.bind_some]
      rw [store_eq_some (by simp; omega)]
      simp only [Option.bind_some, hmid, hd']
    · rw [show 8 * (k + 1) + sh = 8 * k + sh + 8 by omega] at hrest
      have hall := hround.trans hrest
      rw [show 8 + 8 * v20 = 8 * (v20 + 1) by omega] at hall
      refine hall.congr fun i hi => ?_
      split
      · rw [bitAt, show (8 * v28 + i) / 8 = v28 by omega, show (8 * v28 + i) % 8 = i by omega]
      · congr 1
        omega

theorem copyWhole_spec (dest source : List Byte) (v5 v20 v9 : Nat) (h20 : 1 ≤ v20)
    (hd : v5 + 8 * v20 ≤ 8 * dest.length) (hs : v9 + v20 ≤ source.length) :
    ∃ d', copyWhole dest source v5 v20 v9 = some d' ∧
      Splice dest v5 (8 * v20) (fun i => bitAt source (8 * v9 + i)) d' := by
  unfold copyWhole
  by_cases halign : v5 % 8 = 0
  · rw [if_neg (by simpa using halign)]
    obtain ⟨d', hd', hsplice⟩ := memcpy_spec dest (k := v5 / 8) (n := v20) (by omega) hs
    rw [show 8 * (v5 / 8) = v5 by omega] at hsplice
    exact ⟨d', hd', hsplice⟩
  · rw [if_pos halign, load_eq_some (by omega)]
    obtain ⟨d', hd', hsplice⟩ := shiftLoop_spec v20 (d := dest) (v5 / 8) v9 (v5 % 8)
      (by omega) (by omega) (by omega) hs
    rw [show 8 * (v5 / 8) + v5 % 8 = v5 by omega] at hsplice
    exact ⟨d', hd', hsplice⟩

/-- The top `n` bits of one source byte, moved to the top of a word. -/
private theorem getMsbD_lastBits (b : Byte) {n i : Nat} (hn : n ≤ 8) :
    ((b.setWidth 32 >>> (8 - n)) <<< (32 - n)).getMsbD i = (decide (i < n) && b.getMsbD i) := by
  rw [BitVec.getMsbD_shiftLeft, BitVec.getMsbD_ushiftRight, BitVec.getMsbD_setWidth]
  by_cases hi : i < n
  · simp [hi, show i + (32 - n) < 32 by omega, show ¬ i + (32 - n) < 8 - n by omega,
      show 24 ≤ i + (32 - n) - (8 - n) by omega, show i + (32 - n) - (8 - n) + 8 - 32 = i by omega]
  · simp [hi, show ¬ i + (32 - n) < 32 by omega]

theorem copyLast_spec (dest source : List Byte) (pos s count : Nat) {n : Nat} (hn : 1 ≤ n) (hn8 : n ≤ 8)
    (hcount : 8 - pos % 8 < n → count = (n - (8 - pos % 8) - 1) / 8 + 1)
    (hd : pos + n ≤ 8 * dest.length) (hs : s < source.length) :
    ∃ d', copyLast dest source (pos / 8) (pos % 8) s n count = some d' ∧
      Splice dest pos n (fun i => bitAt source (8 * s + i)) d' := by
  rw [copyLast, load_eq_some hs]
  obtain ⟨d', hd', hsplice⟩ := mergeField_spec count (d := dest)
    (v := (((source.getD s 0).setWidth 32) >>> (8 - n)) <<< (32 - n)) (m := (-1 : BitVec 32) <<< (32 - n)) hn
    (fun i => getMsbD_topMask (by omega))
    (fun i hi => by simp [getMsbD_lastBits _ hn8, show ¬ i < n by omega]) hcount hd
  refine ⟨d', hd', hsplice.congr fun i hi => ?_⟩
  rw [getMsbD_lastBits _ hn8, bitAt, show (8 * s + i) / 8 = s by omega, show (8 * s + i) % 8 = i by omega]
  simp [hi]

theorem copyAligned_spec (dest source : List Byte) (v6 v5 v9 : Nat) (h6 : 1 ≤ v6)
    (hd : v5 + v6 ≤ 8 * dest.length) (hs : 8 * v9 + v6 ≤ 8 * source.length)
    (hlast : 8 ≤ v6 → v6 % 8 ≠ 0 → v5 + v6 / 8 * 8 < 2 ^ 31) :
    ∃ d', copyAligned dest source v6 v5 v9 = some d' ∧
      Splice dest v5 v6 (fun i => bitAt source (8 * v9 + i)) d' := by
  unfold copyAligned
  by_cases hbytes : v6 / 8 = 0
  · rw [if_neg (by simpa using hbytes)]
    exact copyLast_spec _ _ _ _ _ h6 (by omega) (fun _ => rfl) hd (by omega)
  · rw [if_pos hbytes]
    obtain ⟨mid, hmid, hwhole⟩ := copyWhole_spec dest source v5 (v6 / 8) v9 (by omega) (by omega) (by omega)
    rw [hmid]
    simp only [Option.bind_eq_bind, Option.bind_some]
    by_cases hrest : v6 % 8 = 0
    · rw [if_pos hrest]
      rw [show 8 * (v6 / 8) = v6 by omega] at hwhole
      exact ⟨mid, rfl, hwhole⟩
    · have hlast := hlast (by omega) hrest
      have hindex : int32 (v5 + v6 / 8 * 8 : Nat) / 8 = ((v5 + v6 / 8 * 8) / 8 : Nat) := by
        rw [int32_eq (by omega) (by omega), Int.natCast_ediv]
        rfl
      rw [if_neg hrest, show (v5 % 256 + v6 % 256 / 8 * 8) % 8 =
        (v5 + v6 / 8 * 8) % 8 by omega, hindex, if_neg (by omega), Int.toNat_natCast]
      have hlen := hwhole.length_eq
      obtain ⟨d', hd', hlast⟩ := copyLast_spec mid source (v5 + v6 / 8 * 8) (v9 + v6 / 8)
        ((v6 % 8 + (v5 + v6 / 8 * 8) % 8 - 9) / 8 + 1) (n := v6 % 8) (by omega) (by omega) (fun _ => by omega)
          (by omega) (by omega)
      refine ⟨d', hd', ?_⟩
      rw [show v5 + v6 / 8 * 8 = v5 + 8 * (v6 / 8) by omega] at hlast
      have hall := hwhole.trans hlast
      rw [show 8 * (v6 / 8) + v6 % 8 = v6 by omega] at hall
      refine hall.congr fun i hi => ?_
      split
      · rfl
      · congr 1
        omega

/-- The bits of a source byte from bit `v8` on, moved to the top of a word. -/
private theorem getMsbD_headBits (b : Byte) (v8 v10 i : Nat) (h8 : v8 + v10 ≤ 8) :
    ((((b.setWidth 32 <<< v8) &&& (0xFF : BitVec 32)) >>> (8 - v10)) <<< (32 - v10)).getMsbD i =
      (decide (i < v10) && b.getMsbD (v8 + i)) := by
  have hlow : ∀ j, (0xFF : BitVec 32).getMsbD j = (decide (24 ≤ j) && decide (j < 32)) := by
    intro j
    rw [show (0xFF : BitVec 32) = (BitVec.allOnes 8).setWidth 32 by decide, BitVec.getMsbD_setWidth,
      BitVec.getMsbD_allOnes]
    by_cases h : 24 ≤ j
    · simp [h]
      omega
    · simp [h]
  rw [BitVec.getMsbD_shiftLeft, BitVec.getMsbD_ushiftRight, BitVec.getMsbD_and, BitVec.getMsbD_shiftLeft,
    BitVec.getMsbD_setWidth, hlow]
  by_cases hi : i < v10
  · simp [hi, show i + (32 - v10) < 32 by omega, show ¬ i + (32 - v10) < 8 - v10 by omega,
      show i + (32 - v10) - (8 - v10) = i + 24 by omega, show 24 ≤ i + 24 + v8 by omega,
      show i + 24 + v8 + 8 - 32 = v8 + i by omega, show i + 24 < 32 by omega]
  · simp [hi, show ¬ i + (32 - v10) < 32 by omega]

/-- The carry count of the unaligned head is one, unless the `!` slip is
reached: then the length ends inside the first source byte. -/
private theorem headCount {a3 d v8 : Nat} (h8 : v8 < 8) (hd : v8 < d) (hd8 : d < 8) (ha3 : 8 - v8 ≤ a3)
    (hsmall : a3 < 2 ^ 31) :
    (((BitVec.ofNat 32 d - 10 -
      (if (BitVec.ofNat 32 v8 - 9 : BitVec 32) < ~~~(BitVec.ofNat 32 a3) then (if a3 = 0 then 1 else 0)
        else (BitVec.ofNat 32 v8 - 9 : BitVec 32))) >>> 3) + 1).toNat = 1 := by
  have hv16 : (BitVec.ofNat 32 v8 - 9 : BitVec 32).toNat = 2 ^ 32 - 9 + v8 := by
    simp [BitVec.toNat_sub, BitVec.toNat_ofNat]
    omega
  have hnot : (~~~(BitVec.ofNat 32 a3)).toNat = 2 ^ 32 - 1 - a3 := by
    rw [BitVec.toNat_not, BitVec.toNat_ofNat, Nat.mod_eq_of_lt (by omega)]
  have hbranch : ¬ (BitVec.ofNat 32 v8 - 9 : BitVec 32) < ~~~(BitVec.ofNat 32 a3) := by
    rw [BitVec.lt_def, hv16, hnot]
    omega
  rw [if_neg hbranch]
  have hcount : (BitVec.ofNat 32 d - 10 - (BitVec.ofNat 32 v8 - 9) : BitVec 32).toNat = d - 1 - v8 := by
    rw [BitVec.toNat_sub, hv16, BitVec.toNat_sub, BitVec.toNat_ofNat]
    simp
    omega
  rw [BitVec.toNat_add, BitVec.toNat_ushiftRight, hcount, Nat.shiftRight_eq_div_pow]
  simp
  omega

theorem copyHead_spec (dest source : List Byte) (a3 a4 v8 v9 : Nat) (ha3 : 1 ≤ a3) (hsmall : a3 < 2 ^ 31)
    (h8 : v8 < 8) (hok : 8 - v8 ≤ a3 ∨ a3 ≤ 8 - a4 % 8)
    (hd : a4 + min (8 - v8) a3 ≤ 8 * dest.length) (hs : v9 < source.length) :
    ∃ d', copyHead dest source a3 a4 v8 v9 = some d' ∧
      Splice dest a4 (min (8 - v8) a3) (fun i => bitAt source (8 * v9 + v8 + i)) d' := by
  rw [copyHead, load_eq_some hs]
  simp only [Option.bind_eq_bind, Option.bind_some]
  have hbits := fun i => getMsbD_headBits (source.getD v9 0) v8 (min (8 - v8) a3) i (by omega)
  obtain ⟨d', hd', hsplice⟩ := mergeField_spec (d := dest) (n := min (8 - v8) a3)
    (((BitVec.ofNat 32 (a4 % 8) - 10 -
      (if (BitVec.ofNat 32 v8 - 9 : BitVec 32) < ~~~(BitVec.ofNat 32 a3) then (if a3 = 0 then 1 else 0)
        else (BitVec.ofNat 32 v8 - 9 : BitVec 32))) >>> 3) + 1).toNat
    (m := (-1 : BitVec 32) <<< (32 - min (8 - v8) a3)) (by omega) (fun i => getMsbD_topMask (by omega))
    (fun i hi => by rw [hbits]; simp; omega)
    (fun hcarry => by rw [headCount h8 (by omega) (by omega) (by omega) hsmall]; omega) hd
  refine ⟨d', hd', hsplice.congr fun i hi => ?_⟩
  rw [hbits, bitAt, show (8 * v9 + v8 + i) / 8 = v9 by omega, show (8 * v9 + v8 + i) % 8 = v8 + i by omega]
  simp [hi]

/-- How many bits `CopyBits` takes from a source byte that it begins inside of. -/
def headBits (length sourceBitOffset : Nat) : Nat :=
  if sourceBitOffset % 8 = 0 then 0 else min (8 - sourceBitOffset % 8) length

/-- There are bits after the last whole byte, and the bit offset they are stored at does not fit an `int`. -/
def LastBefore (length destBitOffset sourceBitOffset : Nat) : Prop :=
  8 ≤ length - headBits length sourceBitOffset ∧ (length - headBits length sourceBitOffset) % 8 ≠ 0 ∧
    2 ^ 31 ≤ headBits length sourceBitOffset + destBitOffset + (length - headBits length sourceBitOffset) / 8 * 8

instance (length destBitOffset sourceBitOffset : Nat) : Decidable (LastBefore length destBitOffset sourceBitOffset) :=
  inferInstanceAs (Decidable (_ ∧ _ ∧ _))

theorem not_lastBefore {length destBitOffset : Nat} (sourceBitOffset : Nat) (h : destBitOffset + length ≤ 2 ^ 31) :
    ¬ LastBefore length destBitOffset sourceBitOffset := by
  unfold LastBefore
  omega

/-- `CopyBits` copies exactly the asked bits and touches only bytes of the two
ranges, except where an unaligned copy of a few bits starts and ends inside one
source byte but crosses a destination byte boundary, and where the last bits go
to an offset that does not fit an `int`. -/
theorem copyBits_spec (dest source : List Byte) {length : Nat} (destBitOffset sourceBitOffset : Nat)
    (hlen : 1 ≤ length) (hsmall : length < 2 ^ 31)
    (hok : sourceBitOffset % 8 = 0 ∨ 8 - sourceBitOffset % 8 ≤ length ∨ length ≤ 8 - destBitOffset % 8)
    (hd : destBitOffset + length ≤ 8 * dest.length) (hs : sourceBitOffset + length ≤ 8 * source.length)
    (hlast : ¬ LastBefore length destBitOffset sourceBitOffset) :
    ∃ d', copyBits dest source length destBitOffset sourceBitOffset = some d' ∧
      Splice dest destBitOffset length (fun i => bitAt source (sourceBitOffset + i)) d' := by
  unfold LastBefore headBits at hlast
  unfold copyBits
  simp only [Int.toNat_natCast]
  have hpos : ¬ (length : Int) < 1 := by omega
  by_cases halign : sourceBitOffset % 8 = 0
  · rw [if_pos halign] at hlast
    rw [if_neg (by simpa using halign), if_neg hpos]
    obtain ⟨d', hd', hsplice⟩ := copyAligned_spec dest source length destBitOffset (sourceBitOffset / 8) hlen hd
      (by omega) (by omega)
    rw [show 8 * (sourceBitOffset / 8) = sourceBitOffset by omega] at hsplice
    exact ⟨d', hd', hsplice⟩
  · rw [if_neg halign] at hlast
    rw [if_pos halign, if_neg hpos]
    obtain ⟨mid, hmid, hhead⟩ := copyHead_spec dest source length destBitOffset (sourceBitOffset % 8)
      (sourceBitOffset / 8) hlen hsmall (by omega) (by omega) (by omega) (by omega)
    rw [show 8 * (sourceBitOffset / 8) + sourceBitOffset % 8 = sourceBitOffset by omega] at hhead
    rw [hmid]
    simp only [Option.bind_eq_bind, Option.bind_some]
    by_cases hdone : length - min (8 - sourceBitOffset % 8) length < 1
    · rw [if_pos hdone]
      rw [show min (8 - sourceBitOffset % 8) length = length by omega] at hhead
      exact ⟨mid, rfl, hhead⟩
    · rw [if_neg hdone, show min (8 - sourceBitOffset % 8) length = 8 - sourceBitOffset % 8 by omega]
      rw [show min (8 - sourceBitOffset % 8) length = 8 - sourceBitOffset % 8 by omega] at hhead
      have hmidlen := hhead.length_eq
      obtain ⟨d', hd', hrest⟩ := copyAligned_spec mid source (length - (8 - sourceBitOffset % 8))
        (8 - sourceBitOffset % 8 + destBitOffset) (sourceBitOffset / 8 + 1) (by omega) (by omega) (by omega) (by omega)
      refine ⟨d', hd', ?_⟩
      rw [Nat.add_comm (8 - sourceBitOffset % 8) destBitOffset] at hrest
      have hall := hhead.trans hrest
      rw [show 8 - sourceBitOffset % 8 + (length - (8 - sourceBitOffset % 8)) = length by omega] at hall
      refine hall.congr fun i hi => ?_
      split
      · rfl
      · congr 1
        omega

theorem length_of_shiftLoop {v20 : Nat} {d d' source : List Byte} {k v28 v21 : Nat} {v23 : Byte}
    (h : shiftLoop v20 d k source v28 v21 v23 = some d') : d'.length = d.length := by
  induction v20 generalizing d k v28 v23 with
  | zero =>
    cases h
    rfl
  | succ v20 ih =>
    obtain ⟨_, _, h⟩ := Option.bind_eq_some_iff.mp h
    obtain ⟨_, _, h⟩ := Option.bind_eq_some_iff.mp h
    obtain ⟨_, hfirst, h⟩ := Option.bind_eq_some_iff.mp h
    obtain ⟨_, hnext, h⟩ := Option.bind_eq_some_iff.mp h
    exact (ih h).trans ((length_of_store hnext).trans (length_of_store hfirst))

theorem length_of_copyWhole {dest source d : List Byte} {v5 v20 v9 : Nat}
    (h : copyWhole dest source v5 v20 v9 = some d) :
    d.length = dest.length := by
  unfold copyWhole at h
  split at h
  · obtain ⟨_, _, h⟩ := Option.bind_eq_some_iff.mp h
    exact length_of_shiftLoop h
  · unfold memcpy at h
    split at h
    · cases h
      simp
      omega
    · cases h

theorem length_of_copyLast {dest source d : List Byte} {k shift s n count : Nat}
    (h : copyLast dest source k shift s n count = some d) : d.length = dest.length := by
  obtain ⟨_, _, h⟩ := Option.bind_eq_some_iff.mp h
  exact length_of_mergeField h

theorem length_of_copyAligned {dest source d : List Byte} {v6 v5 v9 : Nat}
    (h : copyAligned dest source v6 v5 v9 = some d) : d.length = dest.length := by
  unfold copyAligned at h
  split at h
  · obtain ⟨mid, hmid, h⟩ := Option.bind_eq_some_iff.mp h
    dsimp only at h
    split at h
    · cases h
      exact length_of_copyWhole hmid
    · split at h
      · cases h
      · exact (length_of_copyLast h).trans (length_of_copyWhole hmid)
  · exact length_of_copyLast h

/-- `CopyBits` never changes the size of its destination. -/
theorem length_of_copyBits {dest source d : List Byte} {length : Int} {destBitOffset sourceBitOffset : Nat}
    (h : copyBits dest source length destBitOffset sourceBitOffset = some d) : d.length = dest.length := by
  unfold copyBits at h
  dsimp only at h
  split at h
  · split at h
    · cases h
    · obtain ⟨mid, hmid, h⟩ := Option.bind_eq_some_iff.mp h
      obtain ⟨_, _, hhead⟩ := Option.bind_eq_some_iff.mp hmid
      have hlen := length_of_mergeField hhead
      split at h
      · cases h
        exact hlen
      · exact (length_of_copyAligned h).trans hlen
  · split at h
    · cases h
      rfl
    · exact length_of_copyAligned h

private theorem load_eq_none {m : List Byte} {k : Nat} (h : m.length ≤ k) : load m k = none := List.getElem?_eq_none h

theorem shiftLoop_outside {v20 : Nat} {d source : List Byte} {k v28 v21 : Nat} {v23 : Byte} (hpos : 0 < v20)
    (h : source.length < v28 + v20) : shiftLoop v20 d k source v28 v21 v23 = none := by
  induction v20 generalizing d k v28 v23 with
  | zero => exact absurd hpos (Nat.lt_irrefl 0)
  | succ v20 ih =>
    rw [shiftLoop]
    by_cases hlast : source.length ≤ v28
    · rw [load_eq_none hlast]
      cases load d (k + 1) <;> rfl
    · simp only [ih (by omega) (show source.length < v28 + 1 + v20 by omega)]
      simp only [Option.bind_eq_bind]
      simp

theorem copyWhole_outside {dest source : List Byte} {v5 v20 v9 : Nat} (hpos : 0 < v20) (h : source.length < v9 + v20) :
    copyWhole dest source v5 v20 v9 = none := by
  unfold copyWhole
  split
  · simp only [shiftLoop_outside hpos h]
    simp
  · exact if_neg (by omega)

theorem copyLast_outside {dest source : List Byte} {k shift s n count : Nat} (h : source.length ≤ s) :
    copyLast dest source k shift s n count = none := by
  rw [copyLast, load_eq_none h]
  rfl

/-- A copy of more bits than the source holds reads outside it. -/
theorem copyBits_outside (dest : List Byte) {source : List Byte} {length : Nat} (destBitOffset : Nat)
    (h : 8 * source.length < length) : copyBits dest source length destBitOffset 0 = none := by
  have hpos : ¬ (length : Int) < 1 := by omega
  simp only [copyBits, Int.toNat_natCast, Nat.zero_mod, Nat.zero_div, ne_eq, not_true_eq_false, if_false, if_neg hpos]
  unfold copyAligned
  split
  · by_cases hall : length / 8 ≤ source.length
    · cases copyWhole dest source destBitOffset (length / 8) 0 with
      | none => rfl
      | some d =>
        have hrest : length % 8 ≠ 0 := by omega
        simp only [Option.bind_eq_bind, Option.bind_some, if_neg hrest]
        split
        · rfl
        · exact copyLast_outside (by omega)
    · rw [copyWhole_outside (by omega) (by omega)]
      rfl
  · exact copyLast_outside (by omega)

end rl
