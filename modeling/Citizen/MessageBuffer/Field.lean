import Citizen.MessageBuffer.Basic

open Bits

namespace rl

theorem store_eq_some {m : List Byte} {k : Nat} {b : Byte} (h : k < m.length) :
    store m k b = some (m.set k b) := if_pos h

theorem load_eq_some {m : List Byte} {k : Nat} (h : k < m.length) : load m k = some (m.getD k 0) := by
  simp [load, List.getD_eq_getElem?_getD, h]

/-- The mask `-1 << (32 - n)` selects the top `n` bits. -/
theorem getMsbD_topMask {n i : Nat} (hn : n ≤ 32) :
    ((-1 : BitVec 32) <<< (32 - n)).getMsbD i = decide (i < n) := by
  have hones : (-1 : BitVec 32) = BitVec.allOnes 32 := by decide
  rw [hones, BitVec.getMsbD_shiftLeft, BitVec.getMsbD_allOnes]
  simp
  omega

theorem getMsbD_mergeByte (v m : BitVec 32) {shift j : Nat} (b : Byte) (hj : j < 8) :
    (mergeByte v m shift b).getMsbD j =
      if shift ≤ j then v.getMsbD (j - shift) || (b.getMsbD j && !m.getMsbD (j - shift)) else b.getMsbD j := by
  have hword : j + 24 < 32 := by omega
  have hback : j + 24 - shift - 24 = j - shift := by omega
  simp only [mergeByte, BitVec.getMsbD_setWidth, BitVec.getMsbD_or, BitVec.getMsbD_and, BitVec.getMsbD_not,
    BitVec.getMsbD_ushiftRight, hword, hback, show j + 32 - 8 = j + 24 by omega,
    show j + 24 + 8 - 32 = j by omega]
  by_cases h : shift ≤ j
  · simp [h, show ¬ j + 24 < shift by omega, show ¬ j + 24 - shift < 24 by omega,
      show j + 24 - shift < 32 by omega]
  · rw [if_neg h]
    by_cases hfar : j + 24 < shift
    · simp [hfar]
    · simp [show j + 24 - shift < 24 by omega, hfar]

theorem mergeAt_spec {d : List Byte} {k : Nat} (v m : BitVec 32) (shift : Nat) (hk : k < d.length) :
    ∃ d', mergeAt d k v m shift = some d' ∧ d'.length = d.length ∧ ∀ i, bitAt d' i =
      if 8 * k + shift ≤ i ∧ i < 8 * k + 8 then
        v.getMsbD (i - (8 * k + shift)) || (bitAt d i && !m.getMsbD (i - (8 * k + shift)))
      else bitAt d i := by
  refine ⟨d.set k (mergeByte v m shift (d.getD k 0)), ?_, by simp, ?_⟩
  · rw [mergeAt, load_eq_some hk]
    exact store_eq_some hk
  · intro i
    rw [bitAt_set hk]
    by_cases hbyte : i / 8 = k
    · rw [if_pos hbyte, getMsbD_mergeByte _ _ _ (by omega)]
      have hold : (d.getD k 0).getMsbD (i % 8) = bitAt d i := by rw [bitAt, hbyte]
      rw [hold, show i % 8 - shift = i - (8 * k + shift) by omega]
      by_cases hshift : shift ≤ i % 8
      · rw [if_pos hshift, if_pos (by omega)]
      · rw [if_neg hshift, if_neg (by omega)]
    · rw [if_neg hbyte, if_neg (by omega)]

/-- After `count` rounds the loop has merged the first `8 * count` bits of `v`
under the mask `m`. -/
theorem carryLoop_spec (count : Nat) {d : List Byte} {k : Nat} (v m : BitVec 32)
    (hroom : k + count ≤ d.length) :
    ∃ d', carryLoop count d k v m = some d' ∧ d'.length = d.length ∧ ∀ i, bitAt d' i =
      if 8 * k ≤ i ∧ i < 8 * (k + count) then
        v.getMsbD (i - 8 * k) || (bitAt d i && !m.getMsbD (i - 8 * k))
      else bitAt d i := by
  induction count generalizing d k v m with
  | zero =>
    refine ⟨d, rfl, rfl, fun i => ?_⟩
    rw [if_neg (by omega)]
  | succ count ih =>
    obtain ⟨mid, hmid, hlen, hbits⟩ := mergeAt_spec v m 0 (show k < d.length by omega)
    obtain ⟨d', hd', hlen', hbits'⟩ := ih (d := mid) (k := k + 1) (v <<< 8) (m <<< 8) (by omega)
    refine ⟨d', ?_, hlen'.trans hlen, fun i => ?_⟩
    · rw [carryLoop, hmid]
      exact hd'
    · rw [hbits', hbits]
      simp only [BitVec.getMsbD_shiftLeft, Nat.add_zero]
      by_cases hfirst : 8 * k ≤ i ∧ i < 8 * k + 8
      · rw [if_neg (by omega), if_pos hfirst, if_pos (by omega)]
      · rw [if_neg hfirst]
        by_cases hrest : 8 * (k + 1) ≤ i ∧ i < 8 * (k + 1 + count)
        · rw [if_pos hrest, if_pos (by omega), show i - 8 * (k + 1) + 8 = i - 8 * k by omega]
        · rw [if_neg hrest, if_neg (by omega)]

/-- Storing the top `n` bits of `v` replaces exactly `n` bits, when the carry
loop runs once for each further byte the field reaches into. -/
theorem mergeField_spec {d : List Byte} {pos n : Nat} (count : Nat) {v m : BitVec 32} (hn : 1 ≤ n)
    (hmask : ∀ i, m.getMsbD i = decide (i < n)) (hvalue : ∀ i, n ≤ i → v.getMsbD i = false)
    (hcount : 8 - pos % 8 < n → count = (n - (8 - pos % 8) - 1) / 8 + 1)
    (hroom : pos + n ≤ 8 * d.length) :
    ∃ d', mergeField d (pos / 8) (pos % 8) v m n count = some d' ∧ Splice d pos n v.getMsbD d' := by
  have hpos : 8 * (pos / 8) + pos % 8 = pos := by omega
  obtain ⟨mid, hmid, hlen, hbits⟩ := mergeAt_spec v m (pos % 8) (show pos / 8 < d.length by omega)
  rw [hpos] at hbits
  simp only [hmask] at hbits
  by_cases hcarry : 8 - pos % 8 < n
  · rw [hcount hcarry]
    obtain ⟨d', hd', hlen', hbits'⟩ := carryLoop_spec ((n - (8 - pos % 8) - 1) / 8 + 1) (d := mid)
      (k := pos / 8 + 1) (v <<< (8 - pos % 8)) (m <<< (8 - pos % 8)) (by omega)
    refine ⟨d', ?_, hlen'.trans hlen, fun i => ?_⟩
    · rw [mergeField, hmid]
      simp only [Option.bind_eq_bind, Option.bind_some, if_pos hcarry, hd']
    · rw [hbits', hbits]
      simp only [BitVec.getMsbD_shiftLeft, hmask]
      by_cases hrest : 8 * (pos / 8 + 1) ≤ i ∧ i < 8 * (pos / 8 + 1 + ((n - (8 - pos % 8) - 1) / 8 + 1))
      · rw [if_pos hrest, if_neg (by omega), show i - 8 * (pos / 8 + 1) + (8 - pos % 8) = i - pos by omega]
        by_cases hin : i - pos < n
        · rw [if_pos (by omega)]
          simp [hin]
        · rw [if_neg (by omega), hvalue _ (by omega)]
          simp [hin]
      · rw [if_neg hrest]
        by_cases hfirst : pos ≤ i ∧ i < 8 * (pos / 8) + 8
        · rw [if_pos hfirst, if_pos (by omega)]
          simp [show i - pos < n by omega]
        · rw [if_neg hfirst, if_neg (by omega)]
  · refine ⟨mid, ?_, hlen, fun i => ?_⟩
    · rw [mergeField, hmid]
      simp only [Option.bind_eq_bind, Option.bind_some, if_neg hcarry]
    · rw [hbits]
      by_cases hfirst : pos ≤ i ∧ i < 8 * (pos / 8) + 8
      · rw [if_pos hfirst]
        by_cases hin : i - pos < n
        · rw [if_pos (by omega)]
          simp [hin]
        · rw [if_neg (by omega), hvalue _ (by omega)]
          simp [hin]
      · rw [if_neg hfirst, if_neg (by omega)]

theorem length_of_store {m d : List Byte} {k : Nat} {b : Byte} (h : store m k b = some d) : d.length = m.length := by
  unfold store at h
  split at h
  · cases h
    exact List.length_set
  · cases h

theorem length_of_mergeAt {d d' : List Byte} {k shift : Nat} {v m : BitVec 32} (h : mergeAt d k v m shift = some d') :
    d'.length = d.length := by
  obtain ⟨b, _, hstore⟩ := Option.bind_eq_some_iff.mp h
  exact length_of_store hstore

theorem length_of_carryLoop {count : Nat} {d d' : List Byte} {k : Nat} {v m : BitVec 32}
    (h : carryLoop count d k v m = some d') : d'.length = d.length := by
  induction count generalizing d k v m with
  | zero =>
    cases h
    rfl
  | succ count ih =>
    obtain ⟨mid, hmid, hrest⟩ := Option.bind_eq_some_iff.mp h
    exact (ih hrest).trans (length_of_mergeAt hmid)

theorem length_of_mergeField {d d' : List Byte} {k shift n count : Nat} {v m : BitVec 32}
    (h : mergeField d k shift v m n count = some d') : d'.length = d.length := by
  obtain ⟨mid, hmid, hrest⟩ := Option.bind_eq_some_iff.mp h
  split at hrest
  · exact (length_of_carryLoop hrest).trans (length_of_mergeAt hmid)
  · cases hrest
    exact length_of_mergeAt hmid

end rl
