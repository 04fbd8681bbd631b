import Mathlib.Algebra.Order.BigOperators.Group.List
import Mathlib.Data.Fintype.Basic
import Mathlib.Data.List.GetD
import Mathlib.Data.List.MinMax
import Mathlib.Data.List.Perm.Subperm
import Mathlib.Data.List.Sublists
import Mathlib.Data.List.TakeWhile
import Mathlib.Tactic.IntervalCases

open Std

namespace PrefixOrder

variable {α : Type*} [Ord α]

theorem compare_cons (a b : α) (l l' : List α) : compare (a :: l) (b :: l') = (compare a b).then (compare l l') := by
  rw [List.compare_eq_compareLex, List.compareLex_cons_cons]

/-- What stands between a text and one that begins with it begins with it too. -/
theorem prefix_of_between [LawfulEqOrd α] {l m n : List α} (hle : compare m l ≠ .lt) (hlt : compare m n = .lt)
    (h : l <+: n) : l <+: m := by
  induction l generalizing m n with
  | nil => exact List.nil_prefix
  | cons a l ih =>
    obtain ⟨n, rfl⟩ := h
    cases m with
    | nil => exact absurd (by simp) hle
    | cons b m =>
      rw [List.cons_append, compare_cons] at hlt
      rw [compare_cons] at hle
      cases hab : compare b a with
      | lt =>
        rw [hab] at hle
        exact absurd rfl hle
      | gt =>
        rw [hab] at hlt
        cases hlt
      | eq =>
        rw [hab, Ordering.eq_then] at hlt hle
        rw [LawfulEqCmp.eq_of_compare hab]
        exact List.cons_prefix_cons.mpr ⟨rfl, ih hle hlt (List.prefix_append _ _)⟩

/-- Among texts that are not before `l`, those that begin with `l` come first. -/
theorem takeWhile_eq_filter [LawfulEqOrd α] [DecidableEq α] {texts : List (List α)}
    (hsorted : texts.Pairwise fun m n => compare m n = .lt) {l : List α} (hle : ∀ m ∈ texts, compare m l ≠ .lt) :
    texts.takeWhile l.isPrefixOf = texts.filter l.isPrefixOf := by
  induction texts with
  | nil => rfl
  | cons m texts ih =>
    obtain ⟨hfirst, hsorted⟩ := List.pairwise_cons.mp hsorted
    obtain ⟨hm, hle⟩ := List.forall_mem_cons.mp hle
    by_cases hbegins : l.isPrefixOf m = true
    · rw [List.takeWhile_cons_of_pos hbegins, List.filter_cons_of_pos hbegins, ih hsorted hle]
    · rw [List.takeWhile_cons_of_neg hbegins, List.filter_cons_of_neg hbegins]
      refine (List.filter_eq_nil_iff.mpr fun n hn hbegins' => hbegins ?_).symm
      rw [List.isPrefixOf_iff_prefix] at hbegins' ⊢
      exact prefix_of_between hm (hfirst n hn) hbegins'

variable [TransOrd α]

theorem compare_append_left (l m m' : List α) : compare (l ++ m) (l ++ m') = compare m m' := by
  induction l with
  | nil => rfl
  | cons a l ih => rw [List.cons_append, List.cons_append, compare_cons, compare_self, Ordering.eq_then, ih]

/-- A text is not before what it begins with. -/
theorem not_lt_of_prefix {l m : List α} (h : l <+: m) : compare m l ≠ .lt := by
  obtain ⟨m, rfl⟩ := h
  have happend := compare_append_left l m []
  rw [List.append_nil] at happend
  rw [happend]
  cases m with
  | nil => simp
  | cons a m => simp

variable [LawfulEqOrd α]

/-- Two lists in order with the same members are one list. -/
theorem eq_of_mem_iff {texts texts' : List (List α)} (hsorted : texts.Pairwise fun m n => compare m n = .lt)
    (hsorted' : texts'.Pairwise fun m n => compare m n = .lt) (hmem : ∀ m, m ∈ texts ↔ m ∈ texts') :
    texts = texts' := by
  have hnodup : ∀ {texts : List (List α)}, texts.Pairwise (fun m n => compare m n = .lt) → texts.Nodup := by
    intro texts hsorted
    refine hsorted.imp fun hlt heq => ?_
    rw [heq, compare_self] at hlt
    cases hlt
  refine List.Perm.eq_of_pairwise (fun m n _ _ hmn hnm => ?_) hsorted hsorted'
    ((List.perm_ext_iff_of_nodup (hnodup hsorted) (hnodup hsorted')).mpr hmem)
  rw [OrientedCmp.gt_of_lt hmn] at hnm
  cases hnm

/-- From the first text that is not before `l`, those that begin with `l` are all of them in the list. -/
theorem block_eq_filter [DecidableEq α] {texts : List (List α)} (hsorted : texts.Pairwise fun m n => compare m n = .lt)
    (l : List α) :
    (texts.dropWhile fun m => compare m l = .lt).takeWhile l.isPrefixOf = texts.filter l.isPrefixOf := by
  induction texts with
  | nil => rfl
  | cons m texts ih =>
    obtain ⟨hfirst, hrest⟩ := List.pairwise_cons.mp hsorted
    by_cases hlt : compare m l = .lt
    · have hnot : ¬ l.isPrefixOf m = true := fun h => not_lt_of_prefix (List.isPrefixOf_iff_prefix.mp h) hlt
      rw [List.dropWhile_cons_of_pos (by simpa using hlt), List.filter_cons_of_neg hnot, ih hrest]
    · rw [List.dropWhile_cons_of_neg (by simpa using hlt)]
      refine takeWhile_eq_filter hsorted (List.forall_mem_cons.mpr ⟨hlt, fun n hn hn' => hlt ?_⟩)
      exact TransCmp.lt_trans (hfirst n hn) hn'

end PrefixOrder
