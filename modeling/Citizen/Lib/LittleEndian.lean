import Citizen.Lib.Bits

namespace LittleEndian

open Bits

/-- The first `n` bytes of a number. -/
def bytes : Nat → Nat → List Byte
  | 0, _ => []
  | n + 1, v => BitVec.ofNat 8 v :: bytes n (v / 256)

/-- The number that bytes stand for. -/
def value : List Byte → Nat
  | [] => 0
  | b :: rest => b.toNat + 256 * value rest

@[simp] theorem length_bytes (n v : Nat) : (bytes n v).length = n := by
  induction n generalizing v with
  | zero => rfl
  | succ n ih => rw [bytes, List.length_cons, ih]

/-- What is written in `n` bytes is read back modulo `256 ^ n`. -/
theorem value_bytes (n v : Nat) : value (bytes n v) = v % 256 ^ n := by
  induction n generalizing v with
  | zero => rw [pow_zero, Nat.mod_one]; rfl
  | succ n ih =>
    have hsplit : v % (256 * 256 ^ n) = v % 256 + 256 * (v / 256 % 256 ^ n) := Nat.mod_mul
    rw [bytes, value, ih, BitVec.toNat_ofNat, pow_succ' 256 n, hsplit]

theorem value_lt (l : List Byte) : value l < 256 ^ l.length := by
  induction l with
  | nil => exact Nat.one_pos
  | cons b rest ih =>
    have hb := b.isLt
    rw [value, List.length_cons, pow_succ']
    omega

/-- Bytes are determined by how many they are and what they stand for. -/
theorem value_inj : ∀ {l l' : List Byte}, l.length = l'.length → value l = value l' → l = l'
  | [], [], _, _ => rfl
  | b :: rest, b' :: rest', hlen, hvalue => by
    have hb := b.isLt
    have hb' := b'.isLt
    rw [value, value] at hvalue
    have hhead : b = b' := BitVec.eq_of_toNat_eq (by omega)
    rw [hhead, value_inj (Nat.succ.inj hlen) (by omega)]

/-- The next number, with the carry handed on as long as a byte turns to zero. -/
def next : List Byte → List Byte
  | [] => []
  | b :: rest => if b + 1 ≠ 0 then (b + 1) :: rest else (b + 1) :: next rest

/-- The number before, with the borrow handed on as long as a byte was zero. -/
def previous : List Byte → List Byte
  | [] => []
  | b :: rest => if b ≠ 0 then (b - 1) :: rest else (b - 1) :: previous rest

@[simp] theorem length_next (l : List Byte) : (next l).length = l.length := by
  induction l with
  | nil => rfl
  | cons b rest ih =>
    rw [next]
    split
    · rfl
    · rw [List.length_cons, List.length_cons, ih]

@[simp] theorem length_previous (l : List Byte) : (previous l).length = l.length := by
  induction l with
  | nil => rfl
  | cons b rest ih =>
    rw [previous]
    split
    · rfl
    · rw [List.length_cons, List.length_cons, ih]

theorem value_next (l : List Byte) : value (next l) = (value l + 1) % 256 ^ l.length := by
  induction l with
  | nil => rfl
  | cons b rest ih =>
    have hb := b.isLt
    have hrest := value_lt rest
    have hsum : (b + 1).toNat = (b.toNat + 1) % 256 := BitVec.toNat_add b 1
    rw [next, value, List.length_cons, pow_succ']
    split
    next hne =>
      have hlt : b.toNat + 1 < 256 := by
        by_contra hge
        exact hne (BitVec.eq_of_toNat_eq (by rw [hsum]; simp; omega))
      rw [value, hsum, Nat.mod_eq_of_lt hlt, Nat.mod_eq_of_lt (by omega)]
      omega
    next hcarry =>
      have hzero : (b + 1).toNat = 0 := by rw [not_not.mp hcarry]; rfl
      have hcarried : b.toNat + 256 * value rest + 1 = 256 * (value rest + 1) := by omega
      rw [value, hzero, ih, hcarried, Nat.mul_mod_mul_left, Nat.zero_add]

theorem value_previous (l : List Byte) : (value (previous l) + 1) % 256 ^ l.length = value l := by
  induction l with
  | nil => rfl
  | cons b rest ih =>
    have hb := b.isLt
    have hrest := value_lt rest
    rw [previous, value, List.length_cons, pow_succ']
    split
    next hne =>
      have hpos : 0 < b.toNat := by
        by_contra hzero
        exact hne (BitVec.eq_of_toNat_eq (by simp; omega))
      have hless : (b - 1).toNat = b.toNat - 1 := by
        rw [BitVec.toNat_sub]
        simp
        omega
      rw [value, hless, Nat.mod_eq_of_lt (by omega)]
      omega
    next hborrow =>
      rw [not_not.mp hborrow, value]
      have hlast : ((0 : Byte) - 1).toNat = 255 := rfl
      have hborrowed : 255 + 256 * value (previous rest) + 1 = 256 * (value (previous rest) + 1) := by omega
      have hzero : (0 : Byte).toNat = 0 := rfl
      rw [hlast, hborrowed, Nat.mul_mod_mul_left, ih, hzero, Nat.zero_add]

end LittleEndian
