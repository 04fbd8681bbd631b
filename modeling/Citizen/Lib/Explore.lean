import Mathlib.Algebra.Order.BigOperators.Group.List
import Mathlib.Data.Fintype.Basic
import Mathlib.Data.List.GetD
import Mathlib.Data.List.MinMax
import Mathlib.Data.List.Perm.Subperm
import Mathlib.Data.List.Sublists
import Mathlib.Data.List.TakeWhile
import Mathlib.Tactic.IntervalCases

open Std

namespace Explore

variable {α : Type*} {cmp : α → α → Ordering}

/-- Adds what is found from `x`, depth first, to an ordered set. Nodes that compare equal are one node, and one
that is already in the set is not entered. -/
def explore (next : α → List α) : Nat → α → TreeSet α cmp → TreeSet α cmp
  | 0, _, seen => seen
  | fuel + 1, x, seen =>
    (next x).foldl (fun seen y => if y ∈ seen then seen else explore next fuel y (seen.insert y)) seen

/-- The exploration where so many calls can be nested. -/
def exploreWithin (next : α → List α) : Nat → α → TreeSet α cmp → Option (TreeSet α cmp)
  | 0, _, _ => none
  | depth + 1, x, seen =>
    (next x).foldlM (fun seen y => if y ∈ seen then some seen else exploreWithin next depth y (seen.insert y)) seen

/-- One step along an edge, to a node or to one that compares equal to it. -/
def Edge (cmp : α → α → Ordering) (next : α → List α) (x y : α) : Prop := ∃ z ∈ next x, cmp z y = .eq

/-- The nodes of a list that are not in the set. -/
def missing (nodes : List α) (seen : TreeSet α cmp) : Nat := (nodes.filter fun y => !seen.contains y).length

/-- What can be reached from `x` without leaving from another node of `before`. -/
inductive Reach (next : α → List α) (before : TreeSet α cmp) (x : α) : α → Prop
  | first {y : α} : Edge cmp next x y → Reach next before x y
  | step {y z : α} : Reach next before x y → y ∉ before → Edge cmp next y z → Reach next before x z

/-- What was found from `x` so far: nodes that can be reached from `x`, and each new
node with everything that follows it. -/
structure Found (next : α → List α) (x : α) (before after : TreeSet α cmp) : Prop where
  grows : ∀ y ∈ before, y ∈ after
  reached : ∀ y ∈ after, y ∈ before ∨ Reach next before x y
  closed : ∀ y ∈ after, y ∉ before → ∀ z ∈ next y, z ∈ after

variable {next : α → List α} {nodes : List α}

theorem Found.refl (x : α) (seen : TreeSet α cmp) : Found next x seen seen :=
  ⟨fun _ h => h, fun _ h => Or.inl h, fun _ h hnew => absurd h hnew⟩

section Lawful

variable [TransCmp cmp]

theorem missing_insert {seen : TreeSet α cmp} {y : α} (hy : y ∈ nodes) (hnew : y ∉ seen) :
    missing nodes (seen.insert y) < missing nodes seen := by
  have hsub : (nodes.filter fun z => !(seen.insert y).contains z) =
      (nodes.filter fun z => !seen.contains z).filter fun z => !(seen.insert y).contains z := by
    rw [List.filter_filter]
    refine List.filter_congr fun z _ => ?_
    rw [TreeSet.contains_insert]
    cases cmp y z == .eq <;> simp
  rw [missing, missing, hsub, List.length_filter_lt_length_iff_exists]
  refine ⟨y, List.mem_filter.mpr ⟨hy, ?_⟩, ?_⟩
  · rw [Bool.not_eq_true', ← Bool.not_eq_true, TreeSet.contains_iff_mem]
    exact hnew
  · rw [TreeSet.contains_insert_self]
    decide

omit [TransCmp cmp] in
theorem missing_mono {seen seen' : TreeSet α cmp} (h : ∀ y ∈ seen, y ∈ seen') :
    missing nodes seen' ≤ missing nodes seen := by
  refine List.Sublist.length_le (List.monotone_filter_right nodes fun z hz => ?_)
  simp only [Bool.not_eq_true', ← Bool.not_eq_true, TreeSet.contains_iff_mem] at hz ⊢
  exact fun hmem => hz (h z hmem)

omit [TransCmp cmp] in
/-- A path from a successor that was not known is a path from `x`. -/
theorem Reach.head {x y z : α} {before seen : TreeSet α cmp} (h : Reach next seen y z) (hedge : Edge cmp next x y)
    (hy : y ∉ before) (hsub : ∀ w ∈ before, w ∈ seen) : Reach next before x z := by
  induction h with
  | first hlast => exact .step (.first hedge) hy hlast
  | step _ hout hlast ih => exact .step ih (fun hw => hout (hsub _ hw)) hlast

/-- Going on from a successor keeps what was found. -/
theorem Found.step {x y : α} {before seen after : TreeSet α cmp}
    (hcongr : ∀ {u v}, cmp u v = .eq → next u = next v) (h : Found next x before seen) (hy : y ∈ next x)
    (hnew : y ∉ seen) (hfound : Found next y (seen.insert y) after) (hnext : ∀ z ∈ next y, z ∈ after) :
    Found next x before after := by
  have hedge : Edge cmp next x y := ⟨y, hy, ReflCmp.compare_self⟩
  refine ⟨fun z hz => hfound.grows z (TreeSet.mem_insert.mpr (Or.inr (h.grows z hz))), fun z hz => ?_,
    fun z hz hfresh w hw => ?_⟩
  · rcases hfound.reached z hz with hold | hreach
    · rcases TreeSet.mem_insert.mp hold with heq | hseen
      · exact Or.inr (.first ⟨y, hy, heq⟩)
      · exact h.reached z hseen
    · exact Or.inr (hreach.head hedge (fun hmem => hnew (h.grows y hmem))
        fun w hw => TreeSet.mem_insert.mpr (Or.inr (h.grows w hw)))
  · by_cases hold : z ∈ seen.insert y
    · rcases TreeSet.mem_insert.mp hold with heq | hseen
      · exact hnext w (hcongr heq ▸ hw)
      · exact hfound.grows w (TreeSet.mem_insert.mpr (Or.inr (h.closed z hseen hfresh w hw)))
    · exact hfound.closed z hz hold w hw

/-- With fuel for the missing nodes, exploration from `x` finds what `x` leads to. -/
theorem explore_spec (nodes : List α) (hcongr : ∀ {u v}, cmp u v = .eq → next u = next v)
    (hnodes : ∀ u, ∀ v ∈ next u, v ∈ nodes) {fuel : Nat} {x : α} {seen : TreeSet α cmp}
    (hfuel : missing nodes seen < fuel) :
    Found next x seen (explore next fuel x seen) ∧ ∀ z ∈ next x, z ∈ explore next fuel x seen := by
  induction fuel generalizing x seen with
  | zero => exact absurd hfuel (Nat.not_lt_zero _)
  | succ fuel ih =>
    -- the loop over the successors: what was found so far, and the successors left
    have hloop : ∀ (l : List α) (now : TreeSet α cmp), (∀ z ∈ l, z ∈ next x) → Found next x seen now →
        Found next x seen (l.foldl
          (fun seen y => if y ∈ seen then seen else explore next fuel y (seen.insert y)) now) ∧
        (∀ z ∈ now, z ∈ l.foldl (fun seen y => if y ∈ seen then seen else explore next fuel y (seen.insert y)) now) ∧
        ∀ z ∈ l, z ∈ l.foldl (fun seen y => if y ∈ seen then seen else explore next fuel y (seen.insert y)) now := by
      intro l
      induction l with
      | nil => exact fun now _ hfound => ⟨hfound, fun _ h => h, fun _ h => absurd h List.not_mem_nil⟩
      | cons y l ihl =>
        intro now hl hfound
        rw [List.foldl_cons]
        have hy := hl y List.mem_cons_self
        have hrest := fun z hz => hl z (List.mem_cons_of_mem _ hz)
        by_cases hmem : y ∈ now
        · rw [if_pos hmem]
          obtain ⟨hall, hkeep, hdone⟩ := ihl now hrest hfound
          refine ⟨hall, hkeep, fun z hz => ?_⟩
          rcases List.mem_cons.mp hz with rfl | hz
          · exact hkeep z hmem
          · exact hdone z hz
        · rw [if_neg hmem]
          have hroom : missing nodes (now.insert y) < fuel := by
            have hless := missing_insert (hnodes x y hy) hmem
            have hmono : missing nodes now ≤ missing nodes seen := missing_mono hfound.grows
            omega
          obtain ⟨hinner, hnext⟩ := ih hroom
          obtain ⟨hall, hkeep, hdone⟩ := ihl _ hrest (hfound.step hcongr hy hmem hinner hnext)
          refine ⟨hall, fun z hz => hkeep z (hinner.grows z (TreeSet.mem_insert.mpr (Or.inr hz))), fun z hz => ?_⟩
          rcases List.mem_cons.mp hz with rfl | hz
          · exact hkeep z (hinner.grows z TreeSet.mem_insert_self)
          · exact hdone z hz
    obtain ⟨hall, -, hdone⟩ := hloop (next x) seen (fun _ h => h) (.refl x seen)
    exact ⟨hall, hdone⟩

/-- With room for the missing nodes the exploration ends. -/
theorem exploreWithin_eq (nodes : List α) (hcongr : ∀ {u v}, cmp u v = .eq → next u = next v)
    (hnodes : ∀ u, ∀ v ∈ next u, v ∈ nodes) {depth : Nat} {x : α} {seen : TreeSet α cmp}
    (hdepth : missing nodes seen < depth) :
    exploreWithin next depth x seen = some (explore next depth x seen) := by
  induction depth generalizing x seen with
  | zero => exact absurd hdepth (Nat.not_lt_zero _)
  | succ depth ih =>
    rw [exploreWithin, explore]
    -- the set only grows in the loop over the successors
    have hloop : ∀ (l : List α) (now : TreeSet α cmp), (∀ z ∈ l, z ∈ next x) → missing nodes now ≤ missing nodes seen →
        l.foldlM (fun seen y => if y ∈ seen then some seen else exploreWithin next depth y (seen.insert y)) now =
          some (l.foldl (fun seen y => if y ∈ seen then seen else explore next depth y (seen.insert y)) now) := by
      intro l
      induction l with
      | nil => exact fun now _ _ => rfl
      | cons y l ihl =>
        intro now hl hless
        have hrest := fun z hz => hl z (List.mem_cons_of_mem _ hz)
        rw [List.foldlM_cons, List.foldl_cons]
        by_cases hmem : y ∈ now
        · rw [if_pos hmem, if_pos hmem]
          exact ihl now hrest hless
        · have hroom : missing nodes (now.insert y) < depth := by
            have hinsert := missing_insert (hnodes x y (hl y List.mem_cons_self)) hmem
            omega
          rw [if_neg hmem, if_neg hmem, ih hroom]
          obtain ⟨hfound, -⟩ : Found next y (now.insert y) (explore next depth y (now.insert y)) ∧ _ :=
            explore_spec nodes (fun hsame => hcongr hsame) hnodes hroom
          have hgrows : missing nodes (explore next depth y (now.insert y)) ≤ missing nodes now :=
            missing_mono fun z hz => hfound.grows z (TreeSet.mem_insert.mpr (Or.inr hz))
          exact ihl _ hrest (Nat.le_trans hgrows hless)
    exact hloop (next x) seen (fun _ h => h) (Nat.le_refl _)

omit [TransCmp cmp] in
/-- More room does not change what is found. -/
theorem exploreWithin_succ {depth : Nat} {x : α} {seen found : TreeSet α cmp}
    (h : exploreWithin next depth x seen = some found) :
    exploreWithin next (depth + 1) x seen = some found := by
  induction depth generalizing x seen found with
  | zero => cases h
  | succ depth ih =>
    rw [exploreWithin] at h ⊢
    generalize next x = l at h ⊢
    induction l generalizing seen with
    | nil => exact h
    | cons y l ihl =>
      rw [List.foldlM_cons] at h ⊢
      obtain ⟨now, hfirst, hrest⟩ := Option.bind_eq_some_iff.mp h
      have hfirst' : (if y ∈ seen then some seen else exploreWithin next (depth + 1) y (seen.insert y)) =
        some now := by
        by_cases hmem : y ∈ seen
        · rwa [if_pos hmem] at hfirst ⊢
        · rw [if_neg hmem] at hfirst ⊢
          exact ih hfirst
      rw [hfirst']
      exact ihl hrest

omit [TransCmp cmp] in
theorem exploreWithin_mono {depth depth' : Nat} (hle : depth ≤ depth') {x : α} {seen found : TreeSet α cmp}
    (h : exploreWithin next depth x seen = some found) : exploreWithin next depth' x seen = some found := by
  induction hle with
  | refl => exact h
  | step _ ih => exact exploreWithin_succ ih

end Lawful

end Explore
