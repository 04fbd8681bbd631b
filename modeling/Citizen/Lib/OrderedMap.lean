import Mathlib.Algebra.Order.BigOperators.Group.List
import Mathlib.Data.Fintype.Basic
import Mathlib.Data.List.GetD
import Mathlib.Data.List.MinMax
import Mathlib.Data.List.Perm.Subperm
import Mathlib.Data.List.Sublists
import Mathlib.Data.List.TakeWhile
import Mathlib.Tactic.IntervalCases

open Std

namespace OrderedMap

variable {α β : Type*} {cmp : α → α → Ordering}

/-- The loop that erases every entry satisfying `p`. -/
def eraseIf (p : α → β → Bool) (m : TreeMap α β cmp) : TreeMap α β cmp :=
  m.foldl (fun acc k v => if p k v then acc.erase k else acc) m

private theorem getElem?_foldl_erase [TransCmp cmp] (p : α → β → Bool) (k : α) (entries : List (α × β))
    (m : TreeMap α β cmp) :
    (entries.foldl (fun acc e => if p e.1 e.2 then acc.erase e.1 else acc) m)[k]? =
      if entries.any fun e => cmp e.1 k = .eq ∧ p e.1 e.2 then none else m[k]? := by
  induction entries generalizing m with
  | nil => rfl
  | cons e entries ih =>
    rw [List.foldl_cons, ih, List.any_cons]
    cases hrest : entries.any fun e => cmp e.1 k = .eq ∧ p e.1 e.2 with
    | true => rw [Bool.or_true, if_pos rfl, if_pos rfl]
    | false =>
      rw [Bool.or_false]
      cases hp : p e.1 e.2 with
      | true => simp [TreeMap.getElem?_erase]
      | false => simp

theorem getElem?_eraseIf [TransCmp cmp] [LawfulEqCmp cmp] (p : α → β → Bool) (m : TreeMap α β cmp) (k : α) :
    (eraseIf p m)[k]? = m[k]?.filter fun v => !p k v := by
  have hany : (m.toList.any fun e => cmp e.1 k = .eq ∧ p e.1 e.2) = m[k]?.any (p k) := by
    rw [Bool.eq_iff_iff, List.any_eq_true, Option.any_eq_true]
    constructor
    · rintro ⟨⟨k', v⟩, hmem, hentry⟩
      obtain ⟨hkey, hp⟩ := of_decide_eq_true hentry
      obtain rfl := LawfulEqCmp.eq_of_compare hkey
      exact ⟨v, TreeMap.mem_toList_iff_getElem?_eq_some.mp hmem, hp⟩
    · rintro ⟨v, hget, hp⟩
      exact ⟨(k, v), TreeMap.mem_toList_iff_getElem?_eq_some.mpr hget,
        decide_eq_true ⟨ReflCmp.compare_self, hp⟩⟩
  rw [eraseIf, TreeMap.foldl_eq_foldl_toList, getElem?_foldl_erase, hany]
  cases m[k]? with
  | none => rfl
  | some v => cases hp : p k v <;> simp [Option.filter, hp]

/-- The loop that erases the members of one set from another. -/
theorem mem_foldl_erase [TransCmp cmp] [LawfulEqCmp cmp] {s t : TreeSet α cmp} {k : α} :
    k ∈ s.foldl (·.erase ·) t ↔ k ∈ t ∧ k ∉ s := by
  have hlist : ∀ (l : List α) (t : TreeSet α cmp), k ∈ l.foldl (·.erase ·) t ↔ k ∈ t ∧ k ∉ l := by
    intro l
    induction l with
    | nil => simp
    | cons a l ih =>
      intro t
      rw [List.foldl_cons, ih, TreeSet.mem_erase, ne_eq, LawfulEqCmp.compare_eq_iff_eq, List.mem_cons]
      tauto
  rw [TreeSet.foldl_eq_foldl_toList, hlist, TreeSet.mem_toList]

/-- The loop that gives every member of a set the same value. -/
theorem getElem?_foldl_insert [TransCmp cmp] [LawfulEqCmp cmp] [DecidableEq α] (s : TreeSet α cmp) (v : β) (k : α) :
    (s.foldl (fun (m : TreeMap α β cmp) a => m.insert a v) ∅)[k]? = if k ∈ s then some v else none := by
  have hlist : ∀ (l : List α) (m : TreeMap α β cmp),
      (l.foldl (fun m a => m.insert a v) m)[k]? = if k ∈ l then some v else m[k]? := by
    intro l
    induction l with
    | nil => simp
    | cons a l ih =>
      intro m
      rw [List.foldl_cons, ih, TreeMap.getElem?_insert]
      by_cases hrest : k ∈ l
      · rw [if_pos hrest, if_pos (List.mem_cons_of_mem _ hrest)]
      · rw [if_neg hrest]
        simp only [LawfulEqCmp.compare_eq_iff_eq]
        by_cases hkey : a = k
        · rw [if_pos hkey, if_pos (by simp [hkey])]
        · rw [if_neg hkey, if_neg (by simp [hrest, Ne.symm hkey])]
  rw [TreeSet.foldl_eq_foldl_toList, hlist]
  simp only [TreeSet.mem_toList]
  simp

/-- Entries that are emplaced one by one: the first one of a key stays. -/
def emplaceAll (cmp : α → α → Ordering) (entries : List (α × β)) : TreeMap α β cmp :=
  entries.foldl (fun m entry => m.insertIfNew entry.1 entry.2) ∅

theorem nodup_keys_toList [TransCmp cmp] (m : TreeMap α β cmp) : (m.toList.map Prod.fst).Nodup := by
  refine List.pairwise_map.mpr (TreeMap.distinct_keys_toList.imp fun hne heq => hne ?_)
  rw [heq]
  exact ReflCmp.compare_self

theorem nodup_toList [TransCmp cmp] (s : TreeSet α cmp) : s.toList.Nodup := by
  refine TreeSet.distinct_toList.imp fun hne heq => hne ?_
  rw [heq]
  exact ReflCmp.compare_self

theorem length_toList_emplaceAll_le [TransCmp cmp] (entries : List (α × β)) :
    (emplaceAll cmp entries).toList.length ≤ entries.length := by
  have hloop : ∀ (entries : List (α × β)) (m : TreeMap α β cmp),
      (entries.foldl (fun m entry => m.insertIfNew entry.1 entry.2) m).size ≤ m.size + entries.length := by
    intro entries
    induction entries with
    | nil => exact fun m => le_rfl
    | cons entry entries ih =>
      intro m
      have hrest := ih (m.insertIfNew entry.1 entry.2)
      have hone := TreeMap.size_insertIfNew_le (t := m) (k := entry.1) (v := entry.2)
      rw [List.foldl_cons, List.length_cons]
      omega
  have hall := hloop entries ∅
  rw [TreeMap.size_emptyc, Nat.zero_add] at hall
  rwa [TreeMap.length_toList]

theorem length_toList_ofList_le [TransCmp cmp] (values : List α) :
    (TreeSet.ofList values cmp).toList.length ≤ values.length := by
  rw [TreeSet.length_toList]
  exact TreeSet.size_ofList_le

/-- Entries with keys of their own are all there. -/
theorem toList_emplaceAll_perm [TransCmp cmp] [LawfulEqCmp cmp] {entries : List (α × β)}
    (hkeys : (entries.map Prod.fst).Nodup) : (emplaceAll cmp entries).toList.Perm entries := by
  have hloop : ∀ (entries : List (α × β)) (m : TreeMap α β cmp), (entries.map Prod.fst).Nodup →
      (∀ entry ∈ entries, entry.1 ∉ m) → ∀ k v,
        (entries.foldl (fun m entry => m.insertIfNew entry.1 entry.2) m)[k]? = some v ↔
          m[k]? = some v ∨ (k, v) ∈ entries := by
    intro entries
    induction entries with
    | nil => simp
    | cons entry entries ih =>
      intro m hkeys hnew k v
      obtain ⟨hfirst, hrest⟩ := List.nodup_cons.mp hkeys
      have hfresh := hnew entry List.mem_cons_self
      have hlater : ∀ other ∈ entries, other.1 ∉ m.insertIfNew entry.1 entry.2 := by
        intro other hother hmem
        rcases TreeMap.mem_insertIfNew.mp hmem with heq | hold
        · exact hfirst (LawfulEqCmp.eq_of_compare heq ▸ List.mem_map_of_mem hother)
        · exact hnew other (List.mem_cons_of_mem _ hother) hold
      rw [List.foldl_cons, ih _ hrest hlater, TreeMap.getElem?_insertIfNew, List.mem_cons]
      by_cases hkey : entry.1 = k
      · subst hkey
        have hnone : m[entry.1]? = none := TreeMap.getElem?_eq_none hfresh
        rw [if_pos ⟨ReflCmp.compare_self, hfresh⟩, hnone, Option.some.injEq, Prod.ext_iff]
        simp [eq_comm]
      · rw [if_neg fun h => hkey (LawfulEqCmp.eq_of_compare h.1), Prod.ext_iff]
        simp [Ne.symm hkey]
  refine (List.perm_ext_iff_of_nodup (nodup_keys_toList _).of_map hkeys.of_map).mpr fun entry => ?_
  rw [TreeMap.mem_toList_iff_getElem?_eq_some, emplaceAll, hloop entries ∅ hkeys (by simp)]
  simp

/-- A set of values that differ has just these. -/
theorem toList_ofList_perm [TransCmp cmp] [LawfulEqCmp cmp] [BEq α] [LawfulBEqCmp cmp] [LawfulBEq α] {values : List α}
    (hvalues : values.Nodup) : (TreeSet.ofList values cmp).toList.Perm values := by
  refine (List.perm_ext_iff_of_nodup (nodup_toList _) hvalues).mpr fun value => ?_
  rw [TreeSet.mem_toList, TreeSet.mem_ofList, List.contains_iff_mem]

end OrderedMap
