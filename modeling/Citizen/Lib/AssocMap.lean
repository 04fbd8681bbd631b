import Mathlib.Algebra.Order.BigOperators.Group.List
import Mathlib.Data.Fintype.Basic
import Mathlib.Data.List.GetD
import Mathlib.Data.List.MinMax
import Mathlib.Data.List.Perm.Subperm
import Mathlib.Data.List.Sublists
import Mathlib.Data.List.TakeWhile
import Mathlib.Tactic.IntervalCases

open Std

namespace AssocMap

variable {κ α β : Type*} (cmp : κ → κ → Ordering)

/-- An entry in its place, behind those that do not come after it. -/
def insert (e : κ × α) : List (κ × α) → List (κ × α)
  | [] => [e]
  | e' :: m => if cmp e.1 e'.1 = .lt then e :: e' :: m else e' :: insert e m

/-- The entries in the order of their keys. -/
def sort (l : List (κ × α)) : List (κ × α) := l.foldl (fun m e => insert cmp e m) []

def Sorted (m : List (κ × α)) : Prop := m.Pairwise fun e e' => cmp e'.1 e.1 ≠ .lt

variable {cmp}

theorem insert_cons (e e' : κ × α) (m : List (κ × α)) :
    insert cmp e (e' :: m) = if cmp e.1 e'.1 = .lt then e :: e' :: m else e' :: insert cmp e m := rfl

theorem insert_perm (e : κ × α) (m : List (κ × α)) : (insert cmp e m).Perm (e :: m) := by
  induction m with
  | nil => exact .refl _
  | cons e' m ih =>
    rw [insert_cons]
    split
    · exact .refl _
    · exact (ih.cons e').trans (.swap e e' m)

theorem foldl_insert_perm (l m : List (κ × α)) : (l.foldl (fun m e => insert cmp e m) m).Perm (l ++ m) := by
  induction l generalizing m with
  | nil => exact .refl _
  | cons e l ih => exact (ih _).trans (((insert_perm e m).append_left l).trans List.perm_middle)

theorem sort_perm (l : List (κ × α)) : (sort cmp l).Perm l := by
  have hperm := @foldl_insert_perm _ _ cmp l []
  rwa [List.append_nil] at hperm

theorem sorted_insert [TransCmp cmp] (e : κ × α) {m : List (κ × α)} (h : Sorted cmp m) :
    Sorted cmp (insert cmp e m) := by
  induction m with
  | nil => exact List.pairwise_singleton _ _
  | cons e' m ih =>
    obtain ⟨hhead, htail⟩ := List.pairwise_cons.mp h
    rw [insert_cons]
    split
    next hlt =>
      refine List.pairwise_cons.mpr ⟨fun e'' hmem hlt' => ?_, h⟩
      rcases List.mem_cons.mp hmem with rfl | hmem
      · have hboth := TransCmp.lt_trans hlt hlt'
        simp [ReflCmp.compare_self] at hboth
      · exact hhead e'' hmem (TransCmp.lt_trans hlt' hlt)
    next hge =>
      refine List.pairwise_cons.mpr ⟨fun e'' hmem => ?_, ih htail⟩
      rcases List.mem_cons.mp ((insert_perm e m).mem_iff.mp hmem) with rfl | hmem
      · exact hge
      · exact hhead e'' hmem

theorem sorted_sort [TransCmp cmp] (l : List (κ × α)) : Sorted cmp (sort cmp l) := by
  have hfold : ∀ {m : List (κ × α)}, Sorted cmp m → Sorted cmp (l.foldl (fun m e => insert cmp e m) m) := by
    induction l with
    | nil => exact fun h => h
    | cons e l ih => exact fun h => ih (sorted_insert e h)
  exact hfold List.Pairwise.nil

/-- An entry that comes before none of the others is put at the end. -/
theorem insert_last {e : κ × α} {m : List (κ × α)} (h : ∀ e' ∈ m, cmp e.1 e'.1 ≠ .lt) : insert cmp e m = m ++ [e] := by
  induction m with
  | nil => rfl
  | cons e' m ih =>
    rw [insert_cons, if_neg (h e' List.mem_cons_self), ih fun e'' hmem => h e'' (List.mem_cons_of_mem _ hmem),
      List.cons_append]

theorem sort_of_sorted {l : List (κ × α)} (h : Sorted cmp l) : sort cmp l = l := by
  have hfold : ∀ (l m : List (κ × α)), Sorted cmp (m ++ l) → l.foldl (fun m e => insert cmp e m) m = m ++ l := by
    intro l
    induction l with
    | nil => exact fun m _ => (List.append_nil m).symm
    | cons e l ih =>
      intro m hsorted
      have hlast : insert cmp e m = m ++ [e] :=
        insert_last fun e' hmem => (List.pairwise_append.mp hsorted).2.2 e' hmem e List.mem_cons_self
      rw [List.foldl_cons, hlast, ih, List.append_assoc, List.singleton_append]
      rwa [List.append_assoc, List.singleton_append]
  exact hfold l [] h

theorem sort_sort [TransCmp cmp] (l : List (κ × α)) : sort cmp (sort cmp l) = sort cmp l :=
    sort_of_sorted (sorted_sort l)

/-- With distinct keys there is one order. -/
theorem sort_eq_of_perm [TransCmp cmp] [LawfulEqCmp cmp] {l l' : List (κ × α)} (hperm : l.Perm l')
    (hnodup : (l.map Prod.fst).Nodup) : sort cmp l = sort cmp l' := by
  refine List.Perm.eq_of_pairwise (fun e e' hmem hmem' hle hle' => ?_) (sorted_sort l) (sorted_sort l')
    ((sort_perm l).trans (hperm.trans (sort_perm l').symm))
  have hkey : e.1 = e'.1 := by
    cases hcmp : cmp e.1 e'.1 with
    | lt => exact absurd hcmp hle'
    | eq => exact LawfulEqCmp.eq_of_compare hcmp
    | gt => exact absurd (OrientedCmp.lt_of_gt hcmp) hle
  exact List.inj_on_of_nodup_map hnodup ((sort_perm l).mem_iff.mp hmem)
    (hperm.mem_iff.mpr ((sort_perm l').mem_iff.mp hmem')) hkey

/-- The order does not look at the values. -/
theorem map_insert (f : α → β) (e : κ × α) (m : List (κ × α)) :
    (insert cmp e m).map (fun e => (e.1, f e.2)) = insert cmp (e.1, f e.2) (m.map fun e => (e.1, f e.2)) := by
  induction m with
  | nil => rfl
  | cons e' m ih =>
    rw [insert_cons, List.map_cons, insert_cons]
    split
    · rfl
    · rw [List.map_cons, ih]

theorem map_sort (f : α → β) (l : List (κ × α)) :
    (sort cmp l).map (fun e => (e.1, f e.2)) = sort cmp (l.map fun e => (e.1, f e.2)) := by
  have hfold : ∀ (l m : List (κ × α)), (l.foldl (fun m e => insert cmp e m) m).map (fun e => (e.1, f e.2)) =
      (l.map fun e => (e.1, f e.2)).foldl (fun m e => insert cmp e m) (m.map fun e => (e.1, f e.2)) := by
    intro l
    induction l with
    | nil => exact fun m => rfl
    | cons e l ih =>
      intro m
      rw [List.foldl_cons, ih, map_insert, List.map_cons, List.foldl_cons]
  exact hfold l []

section Fold

variable {step : List (κ × α) → κ × α → List (κ × α)}

/-- Entries with new keys are put in their places. -/
theorem foldl_eq_sort (hstep : ∀ m e, e.1 ∉ m.map Prod.fst → step m e = insert cmp e m) {l : List (κ × α)}
    (hnodup : (l.map Prod.fst).Nodup) : l.foldl step [] = sort cmp l := by
  have hfold : ∀ (l m : List (κ × α)), ((l ++ m).map Prod.fst).Nodup →
      l.foldl step m = l.foldl (fun m e => insert cmp e m) m := by
    intro l
    induction l with
    | nil => exact fun m _ => rfl
    | cons e l ih =>
      intro m hnodup
      rw [List.cons_append, List.map_cons, List.nodup_cons, List.map_append, List.mem_append, not_or] at hnodup
      rw [List.foldl_cons, List.foldl_cons, hstep m e hnodup.1.2, ih]
      have hperm : ((l ++ insert cmp e m).map Prod.fst).Perm (e.1 :: (l.map Prod.fst ++ m.map Prod.fst)) := by
        rw [List.map_append]
        exact (((insert_perm e m).map Prod.fst).append_left _).trans List.perm_middle
      rw [hperm.nodup_iff, List.nodup_cons, List.mem_append, not_or]
      exact hnodup
  exact hfold l [] (by rwa [List.append_nil])

theorem mem_foldl (hstep : ∀ m e e', e' ∈ step m e → e' = e ∨ e' ∈ m) {l : List (κ × α)} {e : κ × α}
    (hmem : e ∈ l.foldl step []) : e ∈ l := by
  have hfold : ∀ (l m : List (κ × α)), e ∈ l.foldl step m → e ∈ l ∨ e ∈ m := by
    intro l
    induction l with
    | nil => exact fun m hmem => .inr hmem
    | cons e' l ih =>
      intro m hmem
      rcases ih _ hmem with hmem | hmem
      · exact .inl (List.mem_cons_of_mem _ hmem)
      · rcases hstep m e' e hmem with rfl | hmem
        · exact .inl List.mem_cons_self
        · exact .inr hmem
  rcases hfold l [] hmem with hmem | hmem
  · exact hmem
  · cases hmem

end Fold

theorem mem_insert {e e' : κ × α} {m : List (κ × α)} : e' ∈ insert cmp e m ↔ e' = e ∨ e' ∈ m := by
  rw [(insert_perm e m).mem_iff, List.mem_cons]

variable [DecidableEq κ]

variable (cmp) in
/-- `m[k] = v`. -/
def assign (m : List (κ × α)) (e : κ × α) : List (κ × α) :=
  if e.1 ∈ m.map Prod.fst then m.map fun e' => if e'.1 = e.1 then e else e' else insert cmp e m

variable (cmp) in
/-- `m.insert({k, v})`, which keeps an entry that is there. -/
def emplace (m : List (κ × α)) (e : κ × α) : List (κ × α) :=
  if e.1 ∈ m.map Prod.fst then m else insert cmp e m

theorem assign_new (m : List (κ × α)) (e : κ × α) (hnew : e.1 ∉ m.map Prod.fst) :
    assign cmp m e = insert cmp e m := if_neg hnew

theorem emplace_new (m : List (κ × α)) (e : κ × α) (hnew : e.1 ∉ m.map Prod.fst) :
    emplace cmp m e = insert cmp e m := if_neg hnew

theorem mem_assign {m : List (κ × α)} {e e' : κ × α} (hmem : e' ∈ assign cmp m e) : e' = e ∨ e' ∈ m := by
  unfold assign at hmem
  split at hmem
  · obtain ⟨e'', hmem, heq⟩ := List.mem_map.mp hmem
    split at heq
    · exact .inl heq.symm
    · exact .inr (heq ▸ hmem)
  · exact mem_insert.mp hmem

theorem mem_emplace {m : List (κ × α)} {e e' : κ × α} (hmem : e' ∈ emplace cmp m e) : e' = e ∨ e' ∈ m := by
  unfold emplace at hmem
  split at hmem
  · exact .inr hmem
  · exact mem_insert.mp hmem

/-- An assignment adds the key if it is new, and no other. -/
theorem keys_assign (m : List (κ × α)) (e : κ × α) : ((assign cmp m e).map Prod.fst).Perm
    (if e.1 ∈ m.map Prod.fst then m.map Prod.fst else e.1 :: m.map Prod.fst) := by
  unfold assign
  split
  · rw [List.map_map]
    have hsame : m.map (Prod.fst ∘ fun e' => if e'.1 = e.1 then e else e') = m.map Prod.fst := by
      refine List.map_congr_left fun e' _ => ?_
      dsimp only [Function.comp_apply]
      split
      next heq => exact heq.symm
      next => rfl
    rw [hsame]
  · exact (insert_perm e m).map Prod.fst

/-- If no assignment overwrites an entry, the keys are distinct. -/
theorem foldl_assign_length (l : List (κ × α)) {m : List (κ × α)} (hnodup : (m.map Prod.fst).Nodup) :
    (l.foldl (assign cmp) m).length ≤ l.length + m.length ∧
      ((l.foldl (assign cmp) m).length = l.length + m.length → ((l ++ m).map Prod.fst).Nodup) := by
  induction l generalizing m with
  | nil => exact ⟨by simp, fun _ => hnodup⟩
  | cons e l ih =>
    have hkeys := @keys_assign _ _ cmp _ m e
    have hlen := hkeys.length_eq
    rw [List.length_map] at hlen
    rw [List.foldl_cons, List.length_cons]
    by_cases hmem : e.1 ∈ m.map Prod.fst
    · rw [if_pos hmem] at hkeys hlen
      rw [List.length_map] at hlen
      obtain ⟨hle, -⟩ := ih (hkeys.nodup_iff.mpr hnodup)
      exact ⟨by omega, fun heq => by omega⟩
    · rw [if_neg hmem] at hkeys hlen
      rw [List.length_cons, List.length_map] at hlen
      obtain ⟨hle, hdistinct⟩ := ih (hkeys.nodup_iff.mpr (List.nodup_cons.mpr ⟨hmem, hnodup⟩))
      refine ⟨by omega, fun heq => ?_⟩
      have hall := hdistinct (by omega)
      rw [List.map_append] at hall
      rw [List.cons_append, List.map_cons, List.map_append]
      exact ((hkeys.append_left (l.map Prod.fst)).trans List.perm_middle).nodup_iff.mp hall

theorem length_foldl_assign (l : List (κ × α)) : (l.foldl (assign cmp) []).length ≤ l.length := by
  simpa using (@foldl_assign_length _ _ cmp _ l [] List.nodup_nil).1

theorem nodup_of_length_foldl_assign {l : List (κ × α)} (hlength : (l.foldl (assign cmp) []).length = l.length) :
    (l.map Prod.fst).Nodup := by
  simpa using (@foldl_assign_length _ _ cmp _ l [] List.nodup_nil).2 (by simpa using hlength)

end AssocMap
