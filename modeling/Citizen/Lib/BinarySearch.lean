import Citizen.Lib.Bits

namespace BinarySearch

/-- `bsearch`: how the key compares with a position is asked of `compareAt`, which may fail. -/
def search (compareAt : Nat → Option Ordering) : Nat → Nat → Nat → Option (Option Nat)
  | 0, _, _ => some none
  | fuel + 1, l, u =>
    if l < u then
      match compareAt ((l + u) / 2) with
      | none => none
      | some .lt => search compareAt fuel l ((l + u) / 2)
      | some .gt => search compareAt fuel ((l + u) / 2 + 1) u
      | some .eq => some (some ((l + u) / 2))
    else some none

/-- The key is less than what follows a position that it is less than, and greater than what precedes one that it is
greater than. -/
structure Partitioned (position : Nat → Ordering) (l u : Nat) : Prop where
  lt : ∀ i j, l ≤ i → i ≤ j → j < u → position i = .lt → position j = .lt
  gt : ∀ i j, l ≤ i → i ≤ j → j < u → position j = .gt → position i = .gt

variable {compareAt : Nat → Option Ordering} {position : Nat → Ordering} {l u fuel : Nat}

theorem Partitioned.mono {l' u' : Nat} (hpart : Partitioned position l u) (hl : l ≤ l') (hu : u' ≤ u) :
    Partitioned position l' u' where
  lt i j hi hij hj := hpart.lt i j (hl.trans hi) hij (hj.trans_le hu)
  gt i j hi hij hj := hpart.gt i j (hl.trans hi) hij (hj.trans_le hu)

/-- The search asks about positions in the range only, and finds one that the key equals if there is any. -/
theorem search_spec (hfuel : u - l ≤ fuel) (hread : ∀ i, l ≤ i → i < u → compareAt i = some (position i))
    (hpart : Partitioned position l u) :
    ∃ found, search compareAt fuel l u = some found ∧ (∀ i, found = some i → l ≤ i ∧ i < u ∧ position i = .eq) ∧
      (found = none → ∀ i, l ≤ i → i < u → position i ≠ .eq) := by
  induction fuel generalizing l u with
  | zero => exact ⟨none, rfl, by simp, fun _ i hl hu => by omega⟩
  | succ fuel ih =>
    rw [search]
    by_cases hlu : l < u
    · have hl : l ≤ (l + u) / 2 := by omega
      have hu : (l + u) / 2 < u := by omega
      rw [if_pos hlu, hread _ hl hu]
      cases hposition : position ((l + u) / 2) with
      | lt =>
        have hleft : (l + u) / 2 - l ≤ fuel := by omega
        obtain ⟨found, hfound, hsome, hnone⟩ := ih hleft (fun i hi hiu => hread i hi (hiu.trans hu))
          (hpart.mono le_rfl hu.le)
        refine ⟨found, hfound, fun i hi => ?_, fun h i hi hiu => ?_⟩
        · obtain ⟨hl, hu', heq⟩ := hsome i hi
          exact ⟨hl, hu'.trans hu, heq⟩
        · by_cases hbefore : i < (l + u) / 2
          · exact hnone h i hi hbefore
          · rw [hpart.lt _ i hl (Nat.le_of_not_lt hbefore) hiu hposition]
            decide
      | gt =>
        have hright : u - ((l + u) / 2 + 1) ≤ fuel := by omega
        obtain ⟨found, hfound, hsome, hnone⟩ := ih hright (fun i hi hiu => hread i (by omega) hiu)
          (hpart.mono (by omega) le_rfl)
        refine ⟨found, hfound, fun i hi => ?_, fun h i hi hiu => ?_⟩
        · obtain ⟨hl', hu', heq⟩ := hsome i hi
          exact ⟨by omega, hu', heq⟩
        · by_cases hafter : (l + u) / 2 < i
          · exact hnone h i hafter hiu
          · rw [hpart.gt i _ hi (Nat.le_of_not_lt hafter) hu hposition]
            decide
      | eq =>
        refine ⟨some ((l + u) / 2), rfl, fun i hi => ?_, by simp⟩
        obtain rfl := Option.some.inj hi
        exact ⟨hl, hu, hposition⟩
    · exact ⟨none, if_neg hlu, by simp, fun _ i hi hiu => absurd (hi.trans_lt hiu) hlu⟩

end BinarySearch
