import Mathlib.Algebra.Order.BigOperators.Group.List
import Mathlib.Data.Fintype.Basic
import Mathlib.Data.List.GetD
import Mathlib.Data.List.MinMax
import Mathlib.Data.List.Perm.Subperm
import Mathlib.Data.List.Sublists
import Mathlib.Data.List.TakeWhile
import Mathlib.Tactic.IntervalCases

namespace Round

variable {top : Nat}

/-- The index that comes next. -/
def prev (index : Fin (top + 1)) : Fin (top + 1) := if index = 0 then Fin.last top else ⟨index - 1, by omega⟩

/-- All indices, from the highest on. -/
def down (top : Nat) : List (Fin (top + 1)) := (List.finRange (top + 1)).reverse

/-- All indices, from a given one on. -/
def order (index : Fin (top + 1)) : List (Fin (top + 1)) :=
    (down top).drop (top - index) ++ (down top).take (top - index)

@[simp] theorem length_down : (down top).length = top + 1 := by
  rw [down, List.length_reverse, List.length_finRange]

theorem getElem_down (k : Nat) (hk : k < (down top).length) : (down top)[k] = ⟨top - k, by omega⟩ := by
  simp [down]

theorem order_perm (index : Fin (top + 1)) : (order index).Perm (List.finRange (top + 1)) := by
  have happend := @List.perm_append_comm _ ((down top).drop (top - index)) ((down top).take (top - index))
  rw [List.take_append_drop] at happend
  exact happend.trans (List.reverse_perm _)

theorem nodup_order (index : Fin (top + 1)) : (order index).Nodup :=
  (order_perm index).nodup_iff.2 (List.nodup_finRange _)

theorem mem_order (index other : Fin (top + 1)) : other ∈ order index :=
  (order_perm index).mem_iff.2 (List.mem_finRange other)

theorem length_order (index : Fin (top + 1)) : (order index).length = top + 1 := by
  rw [(order_perm index).length_eq, List.length_finRange]

/-- A round starts with its index, and the round from the next index ends with it. -/
theorem order_eq_cons (index : Fin (top + 1)) : ∃ rest, order index = index :: rest ∧
    order (prev index) = rest ++ [index] := by
  have hk : top - index < (down top).length := by
    rw [length_down]
    omega
  have hat : (down top)[top - index] = index := by
    rw [getElem_down]
    apply Fin.ext
    dsimp only
    omega
  refine ⟨(down top).drop (top - index + 1) ++ (down top).take (top - index), ?_, ?_⟩
  · rw [order, List.drop_eq_getElem_cons hk, hat, List.cons_append]
  · have htake : (down top).take (top - index) ++ [index] = (down top).take (top - index + 1) := by
      rw [List.take_succ_eq_append_getElem hk, hat]
    rw [List.append_assoc, htake, order, prev]
    split
    · rename_i hzero
      subst hzero
      have hle : (down top).length ≤ top + 1 := Nat.le_of_eq length_down
      simp [List.drop_eq_nil_of_le hle, List.take_of_length_le hle]
    · rename_i hzero
      have hpos : 0 < index.val := Nat.pos_of_ne_zero fun h => hzero (Fin.ext h)
      have hnext : top - (index.val - 1) = top - index + 1 := by omega
      dsimp only
      rw [hnext]

/-- The round from an index further on. -/
theorem order_headD {index : Fin (top + 1)} {before rest : List (Fin (top + 1))} (h : order index = before ++ rest) :
    order (rest.headD index) = rest ++ before := by
  induction before generalizing index rest with
  | nil =>
    obtain ⟨tail, horder, -⟩ := order_eq_cons index
    rw [List.nil_append] at h
    rw [List.append_nil, ← h, horder, List.headD_cons, horder]
  | cons first before ih =>
    obtain ⟨tail, horder, hprev⟩ := order_eq_cons index
    rw [horder, List.cons_append, List.cons.injEq] at h
    obtain ⟨rfl, rfl⟩ := h
    rw [List.append_assoc] at hprev
    have hrest := ih hprev
    rw [List.append_assoc, List.singleton_append] at hrest
    obtain - | ⟨next, rest⟩ := rest
    · exact hrest
    · exact hrest

/-- What comes after an index of a round: the next one of the round, or its start again. -/
theorem prev_eq_headD {index other : Fin (top + 1)} {before rest : List (Fin (top + 1))}
    (h : order index = before ++ other :: rest) : prev other = rest.headD index ∧
      (prev other = index ↔ rest = []) := by
  have hheadD : prev other = rest.headD index := by
    have hother := order_headD h
    rw [List.headD_cons] at hother
    have hnext : order (rest.headD index) = rest ++ (before ++ [other]) :=
      order_headD (by rw [h, List.append_assoc]; rfl)
    obtain ⟨tail, horder, hprev⟩ := order_eq_cons other
    rw [hother, List.cons_append, List.cons.injEq] at horder
    rw [← horder.2, List.append_assoc, ← hnext] at hprev
    obtain ⟨_, hfirst, -⟩ := order_eq_cons (prev other)
    obtain ⟨_, hsecond, -⟩ := order_eq_cons (rest.headD index)
    rw [hprev, hsecond, List.cons.injEq] at hfirst
    exact hfirst.1.symm
  refine ⟨hheadD, ?_⟩
  rw [hheadD]
  obtain - | ⟨next, rest⟩ := rest
  · simp
  · refine iff_of_false ?_ (by simp)
    intro hnext
    rw [List.headD_cons] at hnext
    subst hnext
    obtain ⟨tail, horder, -⟩ := order_eq_cons next
    have hnodup := nodup_order next
    rw [h] at hnodup
    have hmem : next ∈ before ++ [other] := by
      rw [horder] at h
      obtain - | ⟨first, before⟩ := before
      · rw [List.nil_append, List.cons.injEq] at h
        exact List.mem_append_right _ (h.1 ▸ List.mem_singleton_self _)
      · rw [List.cons_append, List.cons.injEq] at h
        exact List.mem_append_left _ (h.1 ▸ List.mem_cons_self)
    rw [← List.singleton_append, ← List.append_assoc] at hnodup
    exact (List.nodup_append.1 hnodup).2.2 next hmem next List.mem_cons_self rfl

theorem prev_add_one (index : Fin (top + 1)) : prev (index + 1) = index := by
  unfold prev
  by_cases hlast : index = Fin.last top
  · have hzero : index + 1 = 0 := by
      rw [hlast, Fin.last_add_one]
    rw [if_pos hzero, hlast]
  · have hval := Fin.val_add_one index
    rw [if_neg hlast] at hval
    have hnonzero : index + 1 ≠ 0 := by
      intro hzero
      rw [hzero, Fin.val_zero] at hval
      omega
    rw [if_neg hnonzero]
    apply Fin.ext
    dsimp only
    omega

/-- The last index of a round is the one above its first. -/
theorem order_eq_concat (index : Fin (top + 1)) : ∃ front, order index = front ++ [index + 1] := by
  obtain ⟨rest, -, hprev⟩ := order_eq_cons (index + 1)
  rw [prev_add_one] at hprev
  exact ⟨rest, hprev⟩

end Round
