import Mathlib.Algebra.Order.BigOperators.Group.List
import Mathlib.Data.Fintype.Basic
import Mathlib.Data.List.GetD
import Mathlib.Data.List.MinMax
import Mathlib.Data.List.Perm.Subperm
import Mathlib.Data.List.Sublists
import Mathlib.Data.List.TakeWhile
import Mathlib.Tactic.IntervalCases

namespace Adjacent

variable {α : Type*} {r : α → α → Prop} {l : List α} {a b p q x : α}

/-- `q` comes right after `p`. -/
def Next (l : List α) (p q : α) : Prop := [p, q] <:+: l

theorem next_cons_cons : Next (a :: b :: l) p q ↔ (p = a ∧ q = b) ∨ Next (b :: l) p q := by
  rw [Next, List.infix_cons_iff, Next]
  refine or_congr_left ?_
  simp [List.cons_prefix_cons]

theorem not_next_singleton : ¬ Next [a] p q := by
  intro h
  have hlen := h.length_le
  simp at hlen

theorem not_next_nil : ¬ Next ([] : List α) p q := by
  intro h
  have hlen := h.length_le
  simp at hlen

theorem Next.mem (h : Next l p q) : p ∈ l ∧ q ∈ l := by
  have hsub := h.sublist.subset
  exact ⟨hsub (by simp), hsub (by simp)⟩

theorem Next.mono {l' : List α} (h : Next l p q) (hl : l <:+: l') : Next l' p q := h.trans hl

theorem Next.rel (h : Next l p q) (hl : l.Pairwise r) : r p q :=
  (List.pairwise_cons.mp (hl.sublist h.sublist)).1 q (by simp)

/-- Where a property starts to hold, it does so between two neighbours. -/
theorem exists_next (P : α → Prop) (ha : ¬ P a) (hx : x ∈ a :: l) (hPx : P x) :
    ∃ p q, Next (a :: l) p q ∧ ¬ P p ∧ P q := by
  induction l generalizing a with
  | nil =>
    obtain rfl := List.mem_singleton.mp hx
    exact absurd hPx ha
  | cons b l ih =>
    by_cases hb : P b
    · exact ⟨a, b, next_cons_cons.mpr (.inl ⟨rfl, rfl⟩), ha, hb⟩
    · have hrest : x ∈ b :: l := by
        rcases List.mem_cons.mp hx with rfl | hx
        · exact absurd hPx ha
        · exact hx
      obtain ⟨p, q, hnext, hp, hq⟩ := ih hb hrest
      exact ⟨p, q, next_cons_cons.mpr (.inr hnext), hp, hq⟩

/-- A list that is strictly sorted by a transitive relation. -/
structure Sorted (r : α → α → Prop) (l : List α) : Prop where
  pairwise : l.Pairwise r
  irrefl : ∀ a, ¬ r a a
  trans : ∀ a b c, r a b → r b c → r a c

/-- Between two neighbours of a sorted list there is no other element. -/
theorem Next.between (h : Next l p q) (hl : Sorted r l) (hx : x ∈ l) (hpx : r p x) : ¬ r x q := by
  intro hxq
  obtain ⟨s, t, rfl⟩ := h
  have hpairwise := hl.pairwise
  rw [List.append_assoc] at hpairwise hx
  obtain ⟨_, htail, hcross⟩ := List.pairwise_append.mp hpairwise
  rcases List.mem_append.mp hx with hx | hx
  · exact hl.irrefl p (hl.trans p x p hpx (hcross x hx p (by simp)))
  · rw [List.cons_append, List.cons_append, List.nil_append] at hx htail
    rcases List.mem_cons.mp hx with rfl | hx
    · exact hl.irrefl x hpx
    · rcases List.mem_cons.mp hx with rfl | hx
      · exact hl.irrefl x hxq
      · have hqx := (List.pairwise_cons.mp (List.pairwise_cons.mp htail).2).1 x hx
        exact hl.irrefl x (hl.trans x q x hxq hqx)

/-- Elements of a sorted list with none between them are neighbours. -/
theorem next_of_between (hl : Sorted r l) (hp : p ∈ l) (hq : q ∈ l) (hpq : r p q)
    (hnone : ∀ x ∈ l, r p x → ¬ r x q) : Next l p q := by
  obtain ⟨s, t, rfl⟩ := List.append_of_mem hp
  obtain ⟨_, htail, hcross⟩ := List.pairwise_append.mp hl.pairwise
  have hqt : q ∈ t := by
    rcases List.mem_append.mp hq with hqs | hqt
    · exact absurd (hl.trans p q p hpq (hcross q hqs p List.mem_cons_self)) (hl.irrefl p)
    · rcases List.mem_cons.mp hqt with rfl | hqt
      · exact absurd hpq (hl.irrefl q)
      · exact hqt
  cases t with
  | nil => cases hqt
  | cons u t =>
    obtain ⟨hpt, hut⟩ := List.pairwise_cons.mp htail
    rcases List.mem_cons.mp hqt with rfl | hqt
    · exact ⟨s, t, by simp⟩
    · exact absurd ((List.pairwise_cons.mp hut).1 q hqt) (hnone u (by simp) (hpt u List.mem_cons_self))

/-- Neighbours whose first is before `x` are neighbours up to `x`. -/
theorem Next.upto {t : List α} (h : Next (l ++ x :: t) p q) (hl : Sorted r (l ++ x :: t)) (hpx : r p x) :
    Next (l ++ [x]) p q := by
  induction l with
  | nil =>
    rw [List.nil_append] at h hl
    rcases List.mem_cons.mp h.mem.1 with rfl | hpt
    · exact absurd hpx (hl.irrefl p)
    · exact absurd (hl.trans p x p hpx ((List.pairwise_cons.mp hl.pairwise).1 p hpt)) (hl.irrefl p)
  | cons a l ih =>
    have htail : Sorted r (l ++ x :: t) := ⟨(List.pairwise_cons.mp hl.pairwise).2, hl.irrefl, hl.trans⟩
    cases l with
    | nil =>
      rcases next_cons_cons.mp h with hpq | hrest
      · exact next_cons_cons.mpr (.inl hpq)
      · exact next_cons_cons.mpr (.inr (ih hrest htail))
    | cons b l =>
      rcases next_cons_cons.mp h with hpq | hrest
      · exact next_cons_cons.mpr (.inl hpq)
      · exact next_cons_cons.mpr (.inr (ih hrest htail))

end Adjacent
