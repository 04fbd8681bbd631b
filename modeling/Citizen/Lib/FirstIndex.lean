import Mathlib.Algebra.Order.BigOperators.Group.List
import Mathlib.Data.Fintype.Basic
import Mathlib.Data.List.GetD
import Mathlib.Data.List.MinMax
import Mathlib.Data.List.Perm.Subperm
import Mathlib.Data.List.Sublists
import Mathlib.Data.List.TakeWhile
import Mathlib.Tactic.IntervalCases

/-- The first index below `n` that passes the test, or `n`. -/
def firstIndex (test : Nat → Bool) (n : Nat) : Nat := ((List.range n).find? test).getD n

namespace FirstIndex

variable {test test' : Nat → Bool} {n k : Nat}

theorem le (test : Nat → Bool) (n : Nat) : firstIndex test n ≤ n := by
  unfold firstIndex
  cases h : (List.range n).find? test with
  | none => exact le_rfl
  | some i => exact (List.mem_range.mp (List.mem_of_find?_eq_some h)).le

theorem test_eq_false (h : k < firstIndex test n) : test k = false := by
  unfold firstIndex at h
  cases hfind : (List.range n).find? test with
  | none =>
    rw [hfind, Option.getD_none] at h
    simpa using List.find?_eq_none.mp hfind k (List.mem_range.mpr h)
  | some i =>
    rw [hfind, Option.getD_some] at h
    simpa using (List.find?_range_eq_some.mp hfind).2.2 k h

theorem test_eq_true (h : firstIndex test n < n) : test (firstIndex test n) = true := by
  unfold firstIndex at h ⊢
  cases hfind : (List.range n).find? test with
  | none =>
    rw [hfind, Option.getD_none] at h
    exact absurd h (Nat.lt_irrefl n)
  | some i => exact (List.find?_range_eq_some.mp hfind).1

theorem eq_of (hle : k ≤ n) (hbefore : ∀ i < k, test i = false) (hat : k < n → test k = true) :
    firstIndex test n = k := by
  rcases Nat.lt_trichotomy (firstIndex test n) k with hlt | heq | hgt
  · have htrue := @test_eq_true test n (by omega)
    rw [hbefore _ hlt] at htrue
    cases htrue
  · exact heq
  · have hfalse := test_eq_false hgt
    rw [hat (hgt.trans_le (le test n))] at hfalse
    cases hfalse

theorem succ (test : Nat → Bool) (n : Nat) :
    firstIndex test (n + 1) = if test 0 then 0 else firstIndex (fun i => test (i + 1)) n + 1 := by
  split
  · rename_i h
    exact eq_of (Nat.zero_le _) (by simp) fun _ => h
  · rename_i h
    refine eq_of (Nat.succ_le_succ (le _ n)) (fun i hi => ?_) fun hlt => ?_
    · cases i with
      | zero => simpa using h
      | succ i => exact @test_eq_false (fun i => test (i + 1)) n i (Nat.lt_of_succ_lt_succ hi)
    · exact @test_eq_true (fun i => test (i + 1)) n (Nat.lt_of_succ_lt_succ hlt)

/-- Two tests have one first index when they agree up to it. -/
theorem eq_iff : firstIndex test n = firstIndex test' n ↔
    ∀ i ≤ firstIndex test' n, i < n → test i = test' i := by
  constructor
  · intro heq i hle hlt
    rcases Nat.lt_or_eq_of_le hle with hbefore | rfl
    · have hbefore' : i < firstIndex test n := by rwa [heq]
      rw [test_eq_false hbefore, test_eq_false hbefore']
    · have hlt' : firstIndex test n < n := by rwa [heq]
      have hat := test_eq_true hlt'
      rw [heq] at hat
      rw [test_eq_true hlt, hat]
  · intro hagree
    refine eq_of (le test' n) (fun i hi => ?_) fun hlt => ?_
    · exact (hagree i hi.le (hi.trans_le (le test' n))).trans (test_eq_false hi)
    · exact (hagree _ le_rfl hlt).trans (test_eq_true hlt)

end FirstIndex

namespace Pieces

variable {α : Type*} {cut cut' : List α → Nat} {l : List α}

/-- What is left of a list before each cut, where a cut takes its element away. -/
def starts (cut : List α → Nat) : Nat → List α → List (List α)
  | 0, _ => []
  | fuel + 1, l => if l.isEmpty then [] else l :: starts cut fuel (l.drop (cut l + 1))

/-- The pieces between the cuts. -/
def pieces (cut : List α → Nat) (l : List α) : List (List α) := (starts cut l.length l).map fun rest =>
    rest.take (cut rest)

theorem starts_fuel {fuel : Nat} (h : l.length ≤ fuel) : starts cut fuel l = starts cut l.length l := by
  induction hn : l.length using Nat.strong_induction_on generalizing l fuel with
  | _ n ih =>
    subst hn
    cases l with
    | nil => cases fuel <;> rfl
    | cons a l =>
      obtain ⟨fuel, rfl⟩ := Nat.exists_eq_add_of_le' (Nat.lt_of_lt_of_le (Nat.succ_pos _) h)
      have hdrop : ((a :: l).drop (cut (a :: l) + 1)).length ≤ l.length := by simp
      have hlt : ((a :: l).drop (cut (a :: l) + 1)).length < (a :: l).length := Nat.lt_succ_of_le hdrop
      rw [List.length_cons] at h ⊢
      simp only [starts, List.isEmpty_cons, Bool.false_eq_true, if_false]
      rw [ih _ hlt (by omega) rfl, ih _ hlt hdrop rfl]

theorem starts_cons (h : l ≠ []) :
    starts cut l.length l = l :: starts cut (l.drop (cut l + 1)).length (l.drop (cut l + 1)) := by
  cases l with
  | nil => exact absurd rfl h
  | cons a l =>
    simp only [List.length_cons, starts, List.isEmpty_cons, Bool.false_eq_true, if_false]
    rw [starts_fuel (by simp)]

@[simp] theorem pieces_nil (cut : List α → Nat) : pieces cut [] = [] := rfl

theorem pieces_cons (h : l ≠ []) : pieces cut l = l.take (cut l) :: pieces cut (l.drop (cut l + 1)) := by
  rw [pieces, starts_cons h, List.map_cons, pieces]

/-- Two ways to cut give the same pieces when they agree on what is left before each cut. -/
theorem pieces_eq_iff (hle : ∀ l, cut l ≤ l.length) (hle' : ∀ l, cut' l ≤ l.length) :
    pieces cut l = pieces cut' l ↔ ∀ rest ∈ starts cut' l.length l, cut rest = cut' rest := by
  induction hn : l.length using Nat.strong_induction_on generalizing l with
  | _ n ih =>
    subst hn
    by_cases hl : l = []
    · simp [hl, starts]
    · have hlt : (l.drop (cut' l + 1)).length < l.length := by
        have := List.length_pos_iff.mpr hl
        rw [List.length_drop]
        omega
      rw [pieces_cons hl, pieces_cons hl, starts_cons hl, List.forall_mem_cons, ← ih _ hlt rfl, List.cons.injEq]
      constructor
      · rintro ⟨hhead, htail⟩
        have hcut := congrArg List.length hhead
        rw [List.length_take, List.length_take, Nat.min_eq_left (hle l), Nat.min_eq_left (hle' l)] at hcut
        exact ⟨hcut, hcut ▸ htail⟩
      · rintro ⟨hcut, htail⟩
        rw [hcut]
        exact ⟨rfl, htail⟩

end Pieces
