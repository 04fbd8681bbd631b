import Mathlib.Algebra.Order.BigOperators.Group.List
import Mathlib.Data.Fintype.Basic
import Mathlib.Data.List.GetD
import Mathlib.Data.List.MinMax
import Mathlib.Data.List.Perm.Subperm
import Mathlib.Data.List.Sublists
import Mathlib.Data.List.TakeWhile
import Mathlib.Tactic.IntervalCases

namespace Bits

abbrev Byte := BitVec 8

instance lawfulByte : LawfulBEq Byte := inferInstance

instance lawfulString : LawfulBEq (List Byte) := inferInstance

/-- Bit `i` of a byte buffer, counted from the most significant bit of its
first byte. Positions past the end read as false. -/
def bitAt (d : List Byte) (i : Nat) : Bool := (d.getD (i / 8) 0).getMsbD (i % 8)

theorem bitAt_of_length_le {d : List Byte} {i : Nat} (h : 8 * d.length ≤ i) : bitAt d i = false := by
  have hlen : d.length ≤ i / 8 := by omega
  rw [bitAt, List.getD_eq_default _ _ hlen]
  simp

theorem bitAt_eq_getElem {d : List Byte} {i : Nat} (h : i / 8 < d.length) :
    bitAt d i = d[i / 8].getMsbD (i % 8) := by
  rw [bitAt, List.getD_eq_getElem _ _ h]

/-- Two buffers of one length with the same bits are the same buffer. -/
theorem ext_bitAt {d e : List Byte} (hlen : d.length = e.length)
    (hbits : ∀ i < 8 * d.length, bitAt d i = bitAt e i) : d = e := by
  apply List.ext_getElem hlen
  intro k hd he
  apply BitVec.eq_of_getMsbD_eq
  intro j hj
  have h := hbits (8 * k + j) (by omega)
  have hdiv : (8 * k + j) / 8 = k := by omega
  have hmod : (8 * k + j) % 8 = j := by omega
  rw [bitAt_eq_getElem (by omega), bitAt_eq_getElem (by omega)] at h
  simpa only [hdiv, hmod] using h

theorem bitAt_set {d : List Byte} {k : Nat} (hk : k < d.length) (b : Byte) (i : Nat) :
    bitAt (d.set k b) i = if i / 8 = k then b.getMsbD (i % 8) else bitAt d i := by
  unfold bitAt
  by_cases h : i / 8 = k
  · subst h
    simp [List.getD_eq_getElem?_getD, hk]
  · rw [if_neg h]
    simp [List.getD_eq_getElem?_getD, List.getElem?_set_ne (Ne.symm h)]

theorem bitAt_append (d e : List Byte) (i : Nat) :
    bitAt (d ++ e) i = if i < 8 * d.length then bitAt d i else bitAt e (i - 8 * d.length) := by
  unfold bitAt
  split
  · rw [List.getD_append _ _ _ _ (by omega)]
  · rw [List.getD_append_right _ _ _ _ (by omega)]
    rw [show (i - 8 * d.length) / 8 = i / 8 - d.length by omega]
    rw [show (i - 8 * d.length) % 8 = i % 8 by omega]

theorem bitAt_drop (d : List Byte) (k i : Nat) : bitAt (d.drop k) i = bitAt d (8 * k + i) := by
  unfold bitAt
  rw [show (8 * k + i) / 8 = k + i / 8 by omega, show (8 * k + i) % 8 = i % 8 by omega]
  simp [List.getD_eq_getElem?_getD, List.getElem?_drop]

theorem bitAt_take {d : List Byte} {k i : Nat} (h : i < 8 * k) : bitAt (d.take k) i = bitAt d i := by
  unfold bitAt
  simp [List.getD_eq_getElem?_getD, show i / 8 < k by omega]

/-- `after` is `before` with the `n` bits from `pos` replaced by `src`; no
other bit and no length changes. -/
structure Splice (before : List Byte) (pos n : Nat) (src : Nat → Bool) (after : List Byte) : Prop where
  length_eq : after.length = before.length
  bit : ∀ i, bitAt after i = if pos ≤ i ∧ i < pos + n then src (i - pos) else bitAt before i

namespace Splice

variable {before mid after : List Byte} {pos n m : Nat} {src src' : Nat → Bool}

theorem inside (h : Splice before pos n src after) {i : Nat} (hi : i < n) :
    bitAt after (pos + i) = src i := by
  rw [h.bit, if_pos (by omega), Nat.add_sub_cancel_left]

theorem outside (h : Splice before pos n src after) {i : Nat} (hi : i < pos ∨ pos + n ≤ i) :
    bitAt after i = bitAt before i := by
  rw [h.bit, if_neg (by omega)]

theorem refl (d : List Byte) (pos : Nat) (src : Nat → Bool) : Splice d pos 0 src d where
  length_eq := rfl
  bit i := by rw [if_neg (by omega)]

theorem congr (h : Splice before pos n src after) (hsrc : ∀ i < n, src i = src' i) :
    Splice before pos n src' after where
  length_eq := h.length_eq
  bit i := by
    rw [h.bit]
    split
    · exact hsrc _ (by omega)
    · rfl

/-- Two adjacent replacements are one replacement. -/
theorem trans (h₁ : Splice before pos n src mid) (h₂ : Splice mid (pos + n) m src' after) :
    Splice before pos (n + m) (fun i => if i < n then src i else src' (i - n)) after where
  length_eq := h₂.length_eq.trans h₁.length_eq
  bit i := by
    rw [h₂.bit]
    by_cases hsecond : pos + n ≤ i ∧ i < pos + n + m
    · rw [if_pos hsecond, if_pos (by omega), if_neg (by omega), Nat.sub_sub]
    · rw [if_neg hsecond, h₁.bit]
      by_cases hfirst : pos ≤ i ∧ i < pos + n
      · rw [if_pos hfirst, if_pos (by omega), if_pos (by omega)]
      · rw [if_neg hfirst, if_neg (by omega)]

/-- A replacement of whole bytes at a byte position is a replacement in the
list of bytes. -/
theorem eq_bytes {k : Nat} (bytes : List Byte)
    (h : Splice before (8 * k) (8 * bytes.length) (bitAt bytes) after)
    (hroom : k + bytes.length ≤ before.length) :
    after = before.take k ++ bytes ++ before.drop (k + bytes.length) := by
  have htake : (before.take k).length = k := by simp; omega
  apply ext_bitAt
  · rw [h.length_eq]
    simp
    omega
  · intro i _
    rw [h.bit, bitAt_append, bitAt_append, List.length_append, htake, bitAt_drop]
    split
    · rw [if_pos (by omega), if_neg (by omega)]
    · split
      · rw [if_pos (by omega), bitAt_take (by omega)]
      · rw [show 8 * (k + bytes.length) + (i - 8 * (k + bytes.length)) = i by omega]

end Splice

/-- The `n`-bit unsigned number stored at bit `pos`. -/
def Field (d : List Byte) (pos n : Nat) {w : Nat} (v : BitVec w) : Prop :=
  ∀ i < n, bitAt d (pos + i) = v.getLsbD (n - 1 - i)

/-- The byte string stored at bit `pos`. -/
def Chunk (d : List Byte) (pos : Nat) (bytes : List Byte) : Prop :=
  ∀ i < 8 * bytes.length, bitAt d (pos + i) = bitAt bytes i

theorem Field.of_splice {before after : List Byte} {pos n w : Nat} {v : BitVec w}
    (h : Splice before pos n (fun i => v.getLsbD (n - 1 - i)) after) : Field after pos n v :=
  fun _ hi => h.inside hi

theorem Field.splice {before after : List Byte} {pos n q m w : Nat} {src : Nat → Bool} {v : BitVec w}
    (hf : Field before pos n v) (h : Splice before q m src after) (hq : pos + n ≤ q) :
    Field after pos n v := by
  intro i hi
  rw [h.outside (by omega)]
  exact hf i hi

theorem Field.take {d : List Byte} {pos n k w : Nat} {v : BitVec w}
    (hf : Field d pos n v) (hk : pos + n ≤ 8 * k) : Field (d.take k) pos n v := by
  intro i hi
  rw [bitAt_take (by omega)]
  exact hf i hi

end Bits
