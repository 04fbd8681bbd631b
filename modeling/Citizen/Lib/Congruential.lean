import Mathlib.Algebra.Order.BigOperators.Group.List
import Mathlib.Data.Fintype.Basic
import Mathlib.Data.List.GetD
import Mathlib.Data.List.MinMax
import Mathlib.Data.List.Perm.Subperm
import Mathlib.Data.List.Sublists
import Mathlib.Data.List.TakeWhile
import Mathlib.Data.Nat.ModEq
import Mathlib.Tactic.IntervalCases

namespace Congruential

/-- The next number of the generator with multiplier `a` and modulus `m`. -/
def next (a m x : Nat) : Nat := a * x % m

/-- The first `n` numbers drawn from the seed `x`. -/
def draws (a m : Nat) : Nat → Nat → List Nat
  | 0, _ => []
  | n + 1, x => next a m x :: draws a m n (next a m x)

/-- `k` is the least positive exponent whose power of `a` is 1 modulo `m`. -/
structure Period (a m k : Nat) : Prop where
  pos : 0 < k
  one : a ^ k ≡ 1 [MOD m]
  least : ∀ d, 0 < d → d < k → ¬ a ^ d ≡ 1 [MOD m]

variable {a m k x : Nat}

/-- The state after `n` draws. -/
theorem iterate_next (n : Nat) : (next a m)^[n + 1] x = a ^ (n + 1) * x % m := by
  induction n with
  | zero => rw [Function.iterate_one, next, zero_add, pow_one]
  | succ n ih =>
    rw [Function.iterate_succ_apply', ih, next, Nat.mul_mod, Nat.mod_mod, ← Nat.mul_mod, pow_succ' a (n + 1),
      Nat.mul_assoc]

theorem draws_eq_map (n x : Nat) : draws a m n x = (List.range n).map fun i => (next a m)^[i + 1] x := by
  induction n generalizing x with
  | zero => rfl
  | succ n ih =>
    rw [draws, ih, List.range_succ_eq_map, List.map_cons, List.map_map]
    rfl

/-- One more draw is taken from where the others ended. -/
theorem draws_succ (n x : Nat) : draws a m (n + 1) x = draws a m n x ++ [(next a m)^[n + 1] x] := by
  rw [draws_eq_map, draws_eq_map, List.range_succ, List.map_append]
  rfl

theorem Period.coprime (h : Period a m k) : m.Coprime a := by
  have hpow : m.Coprime (a ^ k) := by
    rw [Nat.coprime_comm]
    exact (Nat.ModEq.gcd_eq h.one).trans (Nat.gcd_one_left m)
  exact Nat.Coprime.coprime_dvd_right (dvd_pow_self a h.pos.ne') hpow

/-- Two draws are equal only a multiple of the period apart. -/
theorem Period.ne_of_lt (h : Period a m k) (hseed : m.Coprime x) {i j : Nat} (hij : i < j) (hjk : j < i + k) :
    (next a m)^[i + 1] x ≠ (next a m)^[j + 1] x := by
  intro heq
  rw [iterate_next, iterate_next] at heq
  have hsplit : a ^ (i + 1) * 1 * x ≡ a ^ (i + 1) * a ^ (j - i) * x [MOD m] := by
    rw [mul_one, ← pow_add, show i + 1 + (j - i) = j + 1 by omega]
    exact heq
  have hcancel := (hsplit.cancel_right_of_coprime hseed).cancel_left_of_coprime (h.coprime.pow_right (i + 1))
  exact h.least (j - i) (by omega) (by omega) hcancel.symm

theorem Period.repeats (h : Period a m k) : (next a m)^[k + 1] x = (next a m)^[0 + 1] x := by
  rw [iterate_next, iterate_next, pow_succ]
  exact ((h.one.mul_right a).trans (by rw [one_mul, zero_add, pow_one])).mul_right x

/-- The numbers drawn are pairwise distinct exactly up to the period. -/
theorem Period.nodup_draws_iff (h : Period a m k) (hseed : m.Coprime x) (n : Nat) : (draws a m n x).Nodup ↔ n ≤ k := by
  rw [draws_eq_map]
  constructor
  · intro hnodup
    by_contra hlong
    have hinj := List.inj_on_of_nodup_map hnodup
    have hsame := hinj (List.mem_range.mpr (by omega)) (List.mem_range.mpr (by omega)) h.repeats
    exact h.pos.ne' hsame
  · intro hshort
    refine List.Nodup.map_on ?_ List.nodup_range
    intro i hi j hj heq
    rw [List.mem_range] at hi hj
    by_contra hne
    rcases Nat.lt_or_gt_of_ne hne with hlt | hlt
    · exact h.ne_of_lt hseed hlt (by omega) heq
    · exact h.ne_of_lt hseed hlt (by omega) heq.symm

/-- No draw is 0. -/
theorem iterate_ne_zero (ha : m.Coprime a) (hseed : m.Coprime x) (hm : 1 < m) (n : Nat) :
    (next a m)^[n + 1] x ≠ 0 := by
  intro hzero
  rw [iterate_next] at hzero
  have hcoprime : m.Coprime (a ^ (n + 1) * x) := (ha.pow_right (n + 1)).mul_right hseed
  have hdvd := Nat.dvd_of_mod_eq_zero hzero
  have hone := Nat.Coprime.eq_one_of_dvd hcoprime hdvd
  omega

theorem Period.zero_notMem_draws (h : Period a m k) (hseed : m.Coprime x) (hm : 1 < m) (n : Nat) :
    0 ∉ draws a m n x := by
  rw [draws_eq_map, List.mem_map]
  rintro ⟨i, -, hzero⟩
  exact iterate_ne_zero h.coprime hseed hm i hzero

end Congruential
