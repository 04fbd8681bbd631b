import Citizen.WorldGrid.Basic

namespace fx

/-- The sectors of a range that is not refused are those that it contains, and in the grid if its ends are. -/
theorem exists_sector {range : SectorRange} (hrefused : range.refused = false) (hinside : range.Inside)
    {sector : Int × Int} (hmem : sector ∈ range.sectors) :
    ∃ x y : Fin 256, sector? sector.1 = some x ∧ sector? sector.2 = some y ∧ range.contains x y = true := by
  obtain ⟨hmaxX, hmaxY⟩ := hinside hrefused
  simp only [SectorRange.sectors, List.mem_flatMap, List.mem_map, List.mem_range] at hmem
  obtain ⟨dx, hdx, dy, hdy, rfl⟩ := hmem
  simp only [SectorRange.refused, decide_eq_false_iff_not] at hrefused
  refine ⟨⟨(range.minSectorX + dx).toNat, by omega⟩, ⟨(range.minSectorY + dy).toNat, by omega⟩, ?_, ?_, ?_⟩
  · exact dif_pos (by dsimp only; omega)
  · exact dif_pos (by dsimp only; omega)
  · rw [SectorRange.contains, decide_eq_true_eq]
    dsimp only
    omega

namespace WorldGrid

variable {grid grid' : WorldGrid} {netId slotId : Nat}

/-- No two entries of a slot are the same. -/
def Unique (grid : WorldGrid) : Prop :=
  ∀ slotId i j, (grid.state slotId i).netID ≠ noNetId → grid.state slotId i = grid.state slotId j → i = j

@[simp] theorem setNetID_state (x y : Fin 256) : (grid.setNetID x y netId).state = grid.state := rfl

@[simp] theorem setEntry_netIDs (i : Fin 32) (entry : WorldGridEntry) :
    (grid.setEntry slotId i entry).netIDs = grid.netIDs := rfl

theorem setNetID_netIDs (x y x' y' : Fin 256) :
    (grid.setNetID x y netId).netIDs x' y' = if x' = x ∧ y' = y then netId else grid.netIDs x' y' := by
  unfold setNetID
  by_cases hx : x' = x
  · subst hx
    simp only [Function.update_self, true_and, Function.update_apply]
  · rw [if_neg fun h => hx h.1]
    simp only [Function.update_of_ne hx]

theorem setEntry_state (i : Fin 32) (entry : WorldGridEntry) (slotId' : Nat) (j : Fin 32) :
    (grid.setEntry slotId i entry).state slotId' j =
      if slotId' = slotId ∧ j = i then entry else grid.state slotId' j := by
  unfold setEntry
  by_cases hs : slotId' = slotId
  · subst hs
    simp only [Function.update_self, true_and, Function.update_apply]
  · rw [if_neg fun h => hs h.1]
    simp only [Function.update_of_ne hs]

theorem clear_state (slotId' : Nat) (i : Fin 32) :
    (grid.clear netId slotId).state slotId' i =
      if slotId' = slotId ∧ slotId ≠ noSlot then {} else grid.state slotId' i := by
  unfold clear
  by_cases hnone : slotId = noSlot
  · rw [if_pos hnone, if_neg fun h => h.2 hnone]
  · simp only [hnone, if_false, ne_eq, not_false_eq_true, and_true]
    by_cases hslot : slotId' = slotId
    · rw [hslot, Function.update_self, if_pos rfl]
    · rw [Function.update_of_ne hslot, if_neg hslot]

theorem clear_netIDs (x y : Fin 256) :
    (grid.clear netId slotId).netIDs x y = if grid.netIDs x y = netId then noNetId else grid.netIDs x y := by
  unfold clear filterNetIDs
  simp only [bne_iff_ne, ne_eq, ite_not]

theorem Unique.setEntry (h : grid.Unique) {i : Fin 32} {entry : WorldGridEntry}
    (hnew : entry.netID ≠ noNetId → ∀ j, grid.state slotId j ≠ entry) : (grid.setEntry slotId i entry).Unique := by
  intro slotId' j k hused heq
  rw [setEntry_state] at hused heq
  rw [setEntry_state] at heq
  split_ifs at hused heq with hj hk hk
  · rw [hj.2, hk.2]
  · obtain ⟨rfl, -⟩ := hj
    exact absurd heq.symm (hnew hused k)
  · obtain ⟨rfl, -⟩ := hk
    exact absurd heq (hnew (heq ▸ hused) j)
  · exact h slotId' j k hused heq

/-- The new owners and entries are the same as far as a net id and its slot go. -/
theorem Agrees.frame (h : grid.Agrees netId slotId) (hcell : ∀ x y, grid'.netIDs x y = netId ↔ grid.netIDs x y = netId)
    (hstate : grid'.state slotId = grid.state slotId)
    (hother : ∀ slotId' i x y, slotId' ≠ slotId → grid.netIDs x y = netId → (grid'.state slotId' i).For x y →
      (grid.state slotId' i).For x y) : grid'.Agrees netId slotId := by
  intro x y
  obtain ⟨howns, halone⟩ := h x y
  rw [hcell, hstate]
  exact ⟨howns, fun hcell slotId' i hne hfor => halone hcell slotId' i hne (hother slotId' i x y hne hcell hfor)⟩

/-- An entry with the net id of its slot's client is for a sector that the client owns. -/
theorem Agrees.owned (h : grid.Agrees netId slotId) (hunique : grid.Unique) (hnetId : netId ≠ noNetId)
    (hslot : slotId ≠ noSlot) {x y : Fin 256} {i : Fin 32} (hentry : grid.state slotId i = ⟨x, y, netId⟩) :
    grid.netIDs x y = netId := by
  refine (h x y).1.mpr ⟨hslot, i, hentry, fun j hj => (hunique slotId i j ?_ (hentry.trans hj.symm)).symm⟩
  rw [hentry]
  exact hnetId

/-- A slot whose client has left no trace. -/
theorem agrees_of_clear (hcell : ∀ x y, grid.netIDs x y ≠ netId)
    (hentry : slotId ≠ noSlot → ∀ i, (grid.state slotId i).netID ≠ netId) : grid.Agrees netId slotId := by
  intro x y
  refine ⟨⟨fun h => absurd h (hcell x y), ?_⟩, fun h => absurd h (hcell x y)⟩
  rintro ⟨hslot, i, hi, -⟩
  exact absurd (congrArg WorldGridEntry.netID hi) (hentry hslot i)

theorem Forgot.agrees (h : grid.Forgot netId) : grid.Agrees netId slotId := agrees_of_clear h.1 fun _ => h.2 slotId

theorem agrees_new (hnetId : netId ≠ noNetId) : ({} : WorldGrid).Agrees netId slotId :=
  agrees_of_clear (fun _ _ => hnetId.symm) fun _ _ => hnetId.symm

theorem unique_new : ({} : WorldGrid).Unique := fun _ _ _ hused => absurd rfl hused

theorem freeEntry_eq_some {i : Fin 32} (h : grid.freeEntry slotId = some i) :
    (grid.state slotId i).netID = noNetId := by
  have hfound := List.find?_some h
  exact eq_of_beq hfound

end WorldGrid

namespace GridPass

open WorldGrid

variable {clients : Nat → Nat → Prop} {slotId netId now : Nat} {range : SectorRange} {pass : GridPass}

/-- No index outside of the grid was used, and the grid agrees for the client of the pass and for the other clients. -/
structure Settled (clients : Nat → Nat → Prop) (netId slotId : Nat) (pass : GridPass) : Prop where
  inside : pass.outside = false
  unique : pass.grid.Unique
  own : pass.grid.Agrees netId slotId
  others : ∀ netId' slotId', clients netId' slotId' → pass.grid.Agrees netId' slotId'

/-- The client of a pass and the other clients have net ids and slots of their own. -/
structure Apart (clients : Nat → Nat → Prop) (netId slotId : Nat) : Prop where
  netId_ne : netId ≠ noNetId
  slotId_ne : slotId ≠ noSlot
  others : ∀ netId' slotId', clients netId' slotId' → netId' ≠ noNetId ∧ netId' ≠ netId ∧ slotId' ≠ slotId

/-- Only the grid and the indices matter. -/
theorem Settled.cooldown (h : pass.Settled clients netId slotId) (cooldown : Nat → Option Nat) :
    Settled clients netId slotId { pass with worldGridCooldown := cooldown } :=
  ⟨h.inside, h.unique, h.own, h.others⟩

theorem Settled.take (h : pass.Settled clients netId slotId) (hapart : Apart clients netId slotId) {x y : Fin 256}
    (hfree : pass.grid.netIDs x y = noNetId)
    (halone : (pass.grid.freeEntry slotId).isSome →
      ∀ slotId' i, slotId' ≠ slotId → ¬ (pass.grid.state slotId' i).For x y) :
    (pass.take slotId netId x y).Settled clients netId slotId := by
  unfold GridPass.take
  split
  · exact h
  · rename_i i hi
    have halone := halone (by rw [hi]; rfl)
    have hnone : ∀ j, pass.grid.state slotId j ≠ ⟨x, y, netId⟩ := by
      intro j hj
      have howned := h.own.owned h.unique hapart.netId_ne hapart.slotId_ne hj
      exact hapart.netId_ne (howned.symm.trans hfree)
    have hgone := freeEntry_eq_some hi
    refine ⟨h.inside, ?_, ?_, ?_⟩
    · exact h.unique.setEntry fun _ => hnone
    · intro x' y'
      simp only [setNetID_netIDs, setNetID_state, setEntry_netIDs, setEntry_state, true_and]
      by_cases hxy : x' = x ∧ y' = y
      · obtain ⟨rfl, rfl⟩ := hxy
        simp only [and_self, if_true, true_iff, ne_eq, hapart.slotId_ne, not_false_eq_true, true_and]
        refine ⟨⟨i, if_pos rfl, ?_⟩, ?_⟩
        · intro j hj
          by_contra hne
          simp only [if_neg hne] at hj
          exact hnone j hj
        · intro _ slotId' j hne
          rw [if_neg fun hsame => hne hsame.1]
          exact halone slotId' j hne
      · rw [if_neg hxy]
        have hsame : ∀ j, (if j = i then (⟨x, y, netId⟩ : WorldGridEntry) else pass.grid.state slotId j) =
            ⟨x', y', netId⟩ ↔ pass.grid.state slotId j = ⟨x', y', netId⟩ := by
          intro j
          split
          · rename_i hj
            subst hj
            constructor
            · intro heq
              cases heq
              exact absurd ⟨rfl, rfl⟩ hxy
            · intro heq
              rw [heq] at hgone
              exact absurd hgone hapart.netId_ne
          · exact Iff.rfl
        simp only [hsame]
        obtain ⟨howns, halone'⟩ := h.own x' y'
        refine ⟨howns, fun hcell slotId' j hne => ?_⟩
        rw [if_neg fun hsame => hne hsame.1]
        exact halone' hcell slotId' j hne
    · intro netId' slotId' hclient
      obtain ⟨hne0, hne, hslot⟩ := hapart.others netId' slotId' hclient
      refine (h.others netId' slotId' hclient).frame ?_ ?_ ?_
      · intro x' y'
        rw [setNetID_netIDs]
        split
        · rename_i hxy
          obtain ⟨rfl, rfl⟩ := hxy
          rw [hfree]
          exact ⟨fun heq => absurd heq.symm hne, fun heq => absurd heq.symm hne0⟩
        · rfl
      · funext j
        rw [setNetID_state, setEntry_state, if_neg fun hsame => hslot hsame.1]
      · intro slotId'' j x' y' _ hcell hfor
        rw [setNetID_state, setEntry_state] at hfor
        split at hfor
        · obtain ⟨-, rfl, rfl⟩ := hfor
          exact absurd (hcell.symm.trans hfree) hne0
        · exact hfor

/-- The tables of the other slots, where they are near, are of their clients. -/
def Live (clients : Nat → Nat → Prop) (slotId : Nat) (range : SectorRange) (pass : GridPass) : Prop :=
  ∀ slotId' i, slotId' ≠ slotId → (pass.grid.state slotId' i).netID ≠ noNetId →
    range.contains (pass.grid.state slotId' i).sectorX (pass.grid.state slotId' i).sectorY = true →
      slotId' ≠ noSlot ∧ clients (pass.grid.state slotId' i).netID slotId'

/-- A pass changes no table but its own. -/
theorem Live.of_state {pass' : GridPass} (h : pass.Live clients slotId range)
    (hstate : ∀ slotId' i, slotId' ≠ slotId → pass'.grid.state slotId' i = pass.grid.state slotId' i) :
    pass'.Live clients slotId range := by
  intro slotId' i hne
  rw [hstate slotId' i hne]
  exact h slotId' i hne

theorem visit_state (sector : Int × Int) (slotId' : Nat) (i : Fin 32) (hne : slotId' ≠ slotId) :
    (pass.visit slotId netId now sector).grid.state slotId' i = pass.grid.state slotId' i := by
  unfold GridPass.visit
  split
  · split
    · rfl
    · dsimp only
      split
      · rfl
      · unfold GridPass.take
        split
        · rfl
        · dsimp only
          rw [setNetID_state, setEntry_state, if_neg fun hsame => hne hsame.1]
  · rfl

/-- A near sector that nobody owns is in no table of another slot, as a live entry is for a sector that its client
owns. -/
theorem Live.alone (h : pass.Live clients slotId range) (hsettled : pass.Settled clients netId slotId) {x y : Fin 256}
    (hnear : range.contains x y = true) (hfree : pass.grid.netIDs x y = noNetId) (slotId' : Nat) (i : Fin 32)
    (hne : slotId' ≠ slotId) :
    ¬ (pass.grid.state slotId' i).For x y := by
  rintro ⟨hused, rfl, rfl⟩
  obtain ⟨hslot, hclient⟩ := h slotId' i hne hused hnear
  have hagrees := hsettled.others _ _ hclient
  have howned := hagrees.owned hsettled.unique hused hslot (i := i) rfl
  exact hused (howned.symm.trans hfree)

theorem Settled.visit (h : pass.Settled clients netId slotId) (hapart : Apart clients netId slotId)
    (hlive : pass.Live clients slotId range) {sector : Int × Int}
    (hsector : ∃ x y : Fin 256, sector? sector.1 = some x ∧ sector? sector.2 = some y ∧ range.contains x y = true) :
    (pass.visit slotId netId now sector).Settled clients netId slotId := by
  obtain ⟨x, y, hx, hy, hnear⟩ := hsector
  simp only [GridPass.visit, hx, hy]
  split
  · exact h.cooldown _
  · rename_i hfree
    rw [ne_eq, not_not] at hfree
    split
    · exact h.cooldown _
    · exact (h.cooldown _).take hapart hfree fun _ => hlive.alone h hnear hfree

/-- The loops that create the grid chunks settle again. -/
theorem Settled.visitAll (h : pass.Settled clients netId slotId) (hapart : Apart clients netId slotId)
    (hlive : pass.Live clients slotId range) {sectors : List (Int × Int)}
    (hsectors : ∀ sector ∈ sectors,
      ∃ x y : Fin 256, sector? sector.1 = some x ∧ sector? sector.2 = some y ∧ range.contains x y = true) :
    (sectors.foldl (GridPass.visit slotId netId now) pass).Settled clients netId slotId := by
  have hround (pass : GridPass) (hpass : pass.Settled clients netId slotId ∧ pass.Live clients slotId range)
      (sector : Int × Int) (hmem : sector ∈ sectors) :
        (pass.visit slotId netId now sector).Settled clients netId slotId ∧
          (pass.visit slotId netId now sector).Live clients slotId range :=
    ⟨hpass.1.visit hapart hpass.2 (hsectors sector hmem), hpass.2.of_state (visit_state sector)⟩
  exact (List.foldlRecOn sectors _ ⟨h, hlive⟩ hround).1

/-- The state of the pass while it disowns: what is near agrees, and what is not is at least an entry of the slot. -/
structure Disowning (clients : Nat → Nat → Prop) (netId slotId : Nat) (range : SectorRange)
    (pass : GridPass) : Prop where
  inside : pass.outside = false
  unique : pass.grid.Unique
  owns : ∀ x y, pass.grid.netIDs x y = netId → (∃! i, pass.grid.state slotId i = ⟨x, y, netId⟩) ∧
    ∀ slotId' i, slotId' ≠ slotId → ¬ (pass.grid.state slotId' i).For x y
  near : ∀ (x y : Fin 256), range.contains x y = true → (∃! i, pass.grid.state slotId i = ⟨x, y, netId⟩) →
    pass.grid.netIDs x y = netId
  others : ∀ netId' slotId', clients netId' slotId' → pass.grid.Agrees netId' slotId'

/-- The entry is free or near. -/
def Near (slotId : Nat) (range : SectorRange) (i : Fin 32) (pass : GridPass) : Prop :=
  (pass.grid.state slotId i).netID = noNetId ∨
    range.contains (pass.grid.state slotId i).sectorX (pass.grid.state slotId i).sectorY = true

theorem Settled.disowning (h : pass.Settled clients netId slotId) (hslot : slotId ≠ noSlot) (range : SectorRange) :
    pass.Disowning clients netId slotId range where
  inside := h.inside
  unique := h.unique
  owns x y hcell := ⟨((h.own x y).1.mp hcell).2, (h.own x y).2 hcell⟩
  near x y _ hentry := (h.own x y).1.mpr ⟨hslot, hentry⟩
  others := h.others

/-- When no entry that is not near is left, the pass is settled again. -/
theorem Disowning.settled (h : pass.Disowning clients netId slotId range) (hapart : Apart clients netId slotId)
    (hnear : ∀ i, pass.Near slotId range i) : pass.Settled clients netId slotId where
  inside := h.inside
  unique := h.unique
  own x y := by
    refine ⟨⟨fun hcell => ⟨hapart.slotId_ne, (h.owns x y hcell).1⟩, ?_⟩, fun hcell => (h.owns x y hcell).2⟩
    rintro ⟨-, hentry⟩
    refine h.near x y ?_ hentry
    obtain ⟨i, hi, -⟩ := hentry
    have hi' := hnear i
    rw [GridPass.Near, hi] at hi'
    exact hi'.resolve_left hapart.netId_ne
  others := h.others

theorem disown_of_near {i : Fin 32} (h : pass.Near slotId range i) : pass.disown slotId netId range i = pass := by
  refine if_neg ?_
  rintro ⟨hused, hfar⟩
  rw [GridPass.Near, hfar] at h
  exact absurd (h.resolve_right Bool.false_ne_true) hused

/-- The entry that is not near is gone. -/
theorem disown_state (i : Fin 32) (h : ¬ pass.Near slotId range i) (slotId' : Nat) (j : Fin 32) :
    (pass.disown slotId netId range i).grid.state slotId' j =
      if slotId' = slotId ∧ j = i then {} else pass.grid.state slotId' j := by
  rw [GridPass.Near, not_or, Bool.not_eq_true] at h
  simp only [GridPass.disown, ne_eq]
  rw [if_pos h]
  simp only [setEntry_state]
  split
  · rfl
  · split
    · rfl
    · rfl

/-- The owner of the entry's sector is gone, if it is the client. -/
theorem disown_netIDs (i : Fin 32) (h : ¬ pass.Near slotId range i) (x y : Fin 256) :
    (pass.disown slotId netId range i).grid.netIDs x y =
      if x = (pass.grid.state slotId i).sectorX ∧ y = (pass.grid.state slotId i).sectorY ∧ pass.grid.netIDs x y = netId
      then noNetId else pass.grid.netIDs x y := by
  rw [GridPass.Near, not_or, Bool.not_eq_true] at h
  simp only [GridPass.disown, ne_eq]
  rw [if_pos h]
  simp only [setEntry_netIDs]
  split_ifs with hown hxy hxy
  · rw [setNetID_netIDs, if_pos ⟨hxy.1, hxy.2.1⟩]
  · rw [setNetID_netIDs, if_neg]
    rintro ⟨rfl, rfl⟩
    exact hxy ⟨rfl, rfl, hown⟩
  · obtain ⟨rfl, rfl, hown'⟩ := hxy
    exact absurd hown' hown
  · rfl

theorem disown_state_of_ne (i : Fin 32) (slotId' : Nat) (j : Fin 32) (hne : slotId' ≠ slotId) :
    (pass.disown slotId netId range i).grid.state slotId' j = pass.grid.state slotId' j := by
  by_cases h : pass.Near slotId range i
  · rw [disown_of_near h]
  · rw [disown_state i h, if_neg fun hsame => hne hsame.1]

theorem disown_outside (i : Fin 32) : (pass.disown slotId netId range i).outside = pass.outside := by
  by_cases h : pass.Near slotId range i
  · rw [disown_of_near h]
  · rw [GridPass.Near, not_or, Bool.not_eq_true] at h
    simp only [GridPass.disown, ne_eq]
    rw [if_pos h]

theorem Disowning.disown (h : pass.Disowning clients netId slotId range) (hapart : Apart clients netId slotId)
    (i : Fin 32) : (pass.disown slotId netId range i).Disowning clients netId slotId range := by
  by_cases hnear : pass.Near slotId range i
  · rw [disown_of_near hnear]
    exact h
  have hfar : range.contains (pass.grid.state slotId i).sectorX (pass.grid.state slotId i).sectorY = false :=
    Bool.not_eq_true _ ▸ (not_or.mp hnear).2
  have hclear : ∀ slotId' j x y, ((pass.disown slotId netId range i).grid.state slotId' j).For x y →
      (pass.grid.state slotId' j).For x y := by
    intro slotId' j x y hfor
    rw [disown_state i hnear] at hfor
    split at hfor
    · exact absurd rfl hfor.1
    · exact hfor
  -- an entry with the client's net id is the same as before, but for the one that is gone
  have hentry : ∀ x y j, (pass.disown slotId netId range i).grid.state slotId j = ⟨x, y, netId⟩ ↔
      j ≠ i ∧ pass.grid.state slotId j = ⟨x, y, netId⟩ := by
    intro x y j
    rw [disown_state i hnear]
    by_cases hj : j = i
    · rw [if_pos ⟨rfl, hj⟩]
      exact ⟨fun heq => absurd (congrArg WorldGridEntry.netID heq).symm hapart.netId_ne, fun heq => absurd hj heq.1⟩
    · rw [if_neg fun hsame => hj hsame.2]
      exact ⟨fun heq => ⟨hj, heq⟩, And.right⟩
  refine ⟨(disown_outside i).trans h.inside, ?_, ?_, ?_, ?_⟩
  · intro slotId' j k hused heq
    rw [disown_state i hnear] at hused heq
    rw [disown_state i hnear] at heq
    split_ifs at hused heq with hj hk hk
    · exact absurd rfl hused
    · exact absurd rfl hused
    · exact absurd (congrArg WorldGridEntry.netID heq) hused
    · exact h.unique slotId' j k hused heq
  · intro x y hown
    rw [disown_netIDs i hnear] at hown
    split at hown
    · exact absurd hown.symm hapart.netId_ne
    · rename_i hother
      obtain ⟨⟨j, hj, huniq⟩, halone⟩ := h.owns x y hown
      refine ⟨⟨j, (hentry x y j).mpr ⟨?_, hj⟩, fun k hk => huniq k ((hentry x y k).mp hk).2⟩,
        fun slotId' k hslot hfor => halone slotId' k hslot (hclear slotId' k x y hfor)⟩
      rintro rfl
      exact hother ⟨by rw [hj], by rw [hj], hown⟩
  · rintro x y hin ⟨j, hj, huniq⟩
    have hj := (hentry x y j).mp hj
    rw [disown_netIDs i hnear, if_neg]
    · refine h.near x y hin ⟨j, hj.2, fun k hk => huniq k ((hentry x y k).mpr ⟨?_, hk⟩)⟩
      rintro rfl
      rw [hk, hin] at hfar
      cases hfar
    · rintro ⟨rfl, rfl, -⟩
      rw [hin] at hfar
      cases hfar
  · intro netId' slotId' hclient
    obtain ⟨hne0, hne, hslot⟩ := hapart.others netId' slotId' hclient
    refine (h.others netId' slotId' hclient).frame ?_ ?_ fun slotId'' j x y _ _ => hclear slotId'' j x y
    · intro x y
      rw [disown_netIDs i hnear]
      split
      · rename_i hown
        rw [hown.2.2]
        exact ⟨fun heq => absurd heq.symm hne0, fun heq => absurd heq.symm hne⟩
      · rfl
    · funext j
      rw [disown_state i hnear, if_neg fun hsame => hslot hsame.1]

/-- A round leaves its own entry free or near, and each of the others free or near if it was. -/
theorem disown_near (i : Fin 32) : (pass.disown slotId netId range i).Near slotId range i := by
  by_cases h : pass.Near slotId range i
  · rw [disown_of_near h]
    exact h
  · left
    rw [disown_state i h, if_pos ⟨rfl, rfl⟩]

theorem Near.disown {j : Fin 32} (h : pass.Near slotId range j) (i : Fin 32) :
    (pass.disown slotId netId range i).Near slotId range j := by
  by_cases hi : pass.Near slotId range i
  · rw [disown_of_near hi]
    exact h
  · have hne : j ≠ i := by
      rintro rfl
      exact hi h
    rw [GridPass.Near, disown_state i hi, if_neg fun hsame => hne hsame.2]
    exact h

/-- The loop that disowns settles again. -/
theorem Settled.disownAll (h : pass.Settled clients netId slotId) (hapart : Apart clients netId slotId)
    (range : SectorRange) :
    ((List.finRange 32).foldl (GridPass.disown slotId netId range) pass).Settled clients netId slotId := by
  have hround : ∀ pass : GridPass, pass.Disowning clients netId slotId range → ∀ i ∈ List.finRange 32,
      (pass.disown slotId netId range i).Disowning clients netId slotId range := fun _ h i _ => h.disown hapart i
  have hstart := h.disowning hapart.slotId_ne range
  refine Disowning.settled (List.foldlRecOn _ _ hstart hround) hapart fun i => ?_
  exact Loop.all (Disowning clients netId slotId range) (GridPass.Near slotId range) hround
    (fun _ _ i _ => disown_near i) (fun _ _ i _ _ hnear => hnear.disown i) pass hstart i (List.mem_finRange i)

/-- Every entry that the pass leaves is as it was, or free, or has the net id of the pass's client in its slot. -/
def Entries (slotId netId : Nat) (grid : WorldGrid) (pass : GridPass) : Prop :=
  ∀ slotId' i, pass.grid.state slotId' i = grid.state slotId' i ∨ (pass.grid.state slotId' i).netID = noNetId ∨
    slotId' = slotId ∧ (pass.grid.state slotId' i).netID = netId

theorem Entries.disown {grid : WorldGrid} (h : pass.Entries slotId netId grid) (i : Fin 32) :
    (pass.disown slotId netId range i).Entries slotId netId grid := by
  intro slotId' j
  by_cases hnear : pass.Near slotId range i
  · rw [disown_of_near hnear]
    exact h slotId' j
  · rw [disown_state i hnear]
    split
    · exact .inr (.inl rfl)
    · exact h slotId' j

theorem Entries.visit {grid : WorldGrid} (h : pass.Entries slotId netId grid) (sector : Int × Int) :
    (pass.visit slotId netId now sector).Entries slotId netId grid := by
  unfold GridPass.visit
  split
  · split
    · exact h
    · dsimp only
      split
      · exact h
      · unfold GridPass.take
        split
        · exact h
        · intro slotId' j
          dsimp only
          rw [setNetID_state, setEntry_state]
          split
          · rename_i hsame
            exact .inr (.inr ⟨hsame.1, rfl⟩)
          · exact h slotId' j
  · exact h

end GridPass

namespace GridWorld

open WorldGrid

variable {w w' : GridWorld}

/-- The net id and the slot of another connected client. -/
def Others (w : GridWorld) (c : ClientPtr) (netId slotId : Nat) : Prop :=
  ∃ c' ∈ w.connected, c' ≠ c ∧ w.netId c' = netId ∧ w.slotId c' = slotId

/-- Connected clients have net ids and slots of their own, and the grids are consistent. -/
structure Settled (w : GridWorld) : Prop where
  inside : w.outside = false
  netId_ne : ∀ c ∈ w.connected, w.netId c ≠ noNetId
  netId_inj : ∀ c ∈ w.connected, ∀ c' ∈ w.connected, w.netId c = w.netId c' → c = c'
  slotId_inj : ∀ c ∈ w.connected, ∀ c' ∈ w.connected, w.slotId c = w.slotId c' → w.slotId c ≠ noSlot → c = c'
  slotId_none : ∀ c, c ∉ w.connected → w.slotId c = noSlot
  unique : ∀ routingBucket grid, w.worldGrids routingBucket = some grid → grid.Unique
  agrees : ∀ c ∈ w.connected, ∀ routingBucket grid, w.worldGrids routingBucket = some grid →
    grid.Agrees (w.netId c) (w.slotId c)

theorem Settled.consistent (h : w.Settled) : w.Consistent := ⟨h.inside, h.agrees⟩

theorem settled_empty : empty.Settled where
  inside := rfl
  netId_ne := fun _ hc => nomatch hc
  netId_inj := fun _ hc => nomatch hc
  slotId_inj := fun _ hc => nomatch hc
  slotId_none := fun _ _ => rfl
  unique := fun _ _ hgrid => nomatch hgrid
  agrees := fun _ hc => nomatch hc

/-- The clients are the same, and the grids are still those that the clients need. -/
theorem Settled.grids (h : w.Settled) (hconnected : w'.connected = w.connected) (hnetId : w'.netId = w.netId)
    (hslotId : w'.slotId = w.slotId) (hinside : w'.outside = false)
    (hgrid : ∀ routingBucket grid', w'.worldGrids routingBucket = some grid' →
      grid'.Unique ∧ ∀ c ∈ w.connected, grid'.Agrees (w.netId c) (w.slotId c)) : w'.Settled where
  inside := hinside
  netId_ne := by rw [hconnected, hnetId]; exact h.netId_ne
  netId_inj := by rw [hconnected, hnetId]; exact h.netId_inj
  slotId_inj := by rw [hconnected, hslotId]; exact h.slotId_inj
  slotId_none := by rw [hconnected, hslotId]; exact h.slotId_none
  unique routingBucket grid' hgrid' := (hgrid routingBucket grid' hgrid').1
  agrees := by
    rw [hconnected, hnetId, hslotId]
    exact fun c hc routingBucket grid' hgrid' => (hgrid routingBucket grid' hgrid').2 c hc

theorem Settled.setGrid (h : w.Settled) {routingBucket : Int} {grid : WorldGrid} (hunique : grid.Unique)
    (hagrees : ∀ c ∈ w.connected, grid.Agrees (w.netId c) (w.slotId c)) : (w.setGrid routingBucket grid).Settled := by
  refine h.grids rfl rfl rfl h.inside fun routingBucket' grid' hgrid' => ?_
  simp only [GridWorld.setGrid, Function.update_apply] at hgrid'
  split at hgrid'
  · cases hgrid'
    exact ⟨hunique, hagrees⟩
  · exact ⟨h.unique _ _ hgrid', fun c hc => h.agrees c hc _ _ hgrid'⟩

theorem Settled.gridOf (h : w.Settled) (c : ClientPtr) :
    (w.gridOf c).Unique ∧ ∀ c' ∈ w.connected, (w.gridOf c).Agrees (w.netId c') (w.slotId c') := by
  unfold GridWorld.gridOf
  cases hgrid : w.worldGrids (w.routingBucket c) with
  | none => exact ⟨unique_new, fun c' hc' => agrees_new (h.netId_ne c' hc')⟩
  | some grid => exact ⟨h.unique _ _ hgrid, fun c' hc' => h.agrees c' hc' _ _ hgrid⟩

/-- A client with a slot is apart from the other clients. -/
theorem Settled.apart (h : w.Settled) {c : ClientPtr} (hslot : w.slotId c ≠ noSlot) :
    c ∈ w.connected ∧ GridPass.Apart (w.Others c) (w.netId c) (w.slotId c) := by
  have hc : c ∈ w.connected := by
    by_contra hc
    exact hslot (h.slotId_none c hc)
  refine ⟨hc, h.netId_ne c hc, hslot, ?_⟩
  rintro _ _ ⟨c', hc', hne, rfl, rfl⟩
  exact ⟨h.netId_ne c' hc', fun heq => hne (h.netId_inj c' hc' c hc heq),
    fun heq => hne (h.slotId_inj c hc c' hc' heq.symm hslot).symm⟩

theorem Settled.disowned (h : w.Settled) {c : ClientPtr} (hslot : w.slotId c ≠ noSlot) (range : SectorRange) :
    (w.disowned c range).Settled (w.Others c) (w.netId c) (w.slotId c) := by
  obtain ⟨hc, hapart⟩ := h.apart hslot
  obtain ⟨hunique, hagrees⟩ := h.gridOf c
  refine GridPass.Settled.disownAll ⟨h.inside, hunique, hagrees c hc, ?_⟩ hapart range
  rintro _ _ ⟨c', hc', -, rfl, rfl⟩
  exact hagrees c' hc'

theorem live_disowned (w : GridWorld) {c : ClientPtr} {range : SectorRange}
    (hstale : ∀ slotId i, slotId ≠ w.slotId c → w.Stale (w.gridOf c) slotId i →
      range.contains ((w.gridOf c).state slotId i).sectorX ((w.gridOf c).state slotId i).sectorY = false) :
    (w.disowned c range).Live (w.Others c) (w.slotId c) range := by
  refine List.foldlRecOn (motive := GridPass.Live (w.Others c) (w.slotId c) range) _ _ ?_ fun pass h i _ =>
    h.of_state (GridPass.disown_state_of_ne i)
  intro slotId i hne hused hnear
  by_contra hdead
  have hlive := hstale slotId i hne
    ⟨hused, fun c' hc' hslotId hslot hnetId => hdead ⟨hslot, c', hc', ?_, hnetId, hslotId⟩⟩
  · rw [hnear] at hlive
    cases hlive
  · rintro rfl
    exact hne hslotId.symm

theorem Settled.updateClient (h : w.Settled) {turn : GridTurn} (hundisturbed : w.Undisturbed turn) :
    (w.updateClient turn).Settled := by
  unfold GridWorld.updateClient
  cases hfocus : turn.focus with
  | none => exact h
  | some range =>
    dsimp only
    split_ifs with hslot hrefused
    · exact h
    · obtain ⟨hunique, hagrees⟩ := h.gridOf turn.client
      exact h.setGrid hunique hagrees
    · obtain ⟨hc, hapart⟩ := h.apart hslot
      obtain ⟨hinside, hstale⟩ := hundisturbed range hfocus hslot
      have hpass : (List.foldl (GridPass.visit _ _ turn.now) _ _).Settled _ _ _ :=
        (h.disowned hslot range).visitAll hapart (w.live_disowned hstale) fun sector hmem =>
          exists_sector (Bool.not_eq_true _ ▸ hrefused) hinside hmem
      have hworld : (w.setGrid (w.routingBucket turn.client) _).Settled := h.setGrid hpass.unique fun c' hc' => ?_
      · exact hworld.grids rfl rfl rfl hpass.inside fun routingBucket grid hgrid =>
          ⟨hworld.unique routingBucket grid hgrid, fun c' hc' => hworld.agrees c' hc' routingBucket grid hgrid⟩
      · by_cases hsame : c' = turn.client
        · rw [hsame]
          exact hpass.own
        · exact hpass.others _ _ ⟨c', hc', hsame, rfl, rfl⟩

/-- The clients are the same, and no stale entry is new. -/
structure Kept (w w' : GridWorld) : Prop where
  connected : w'.connected = w.connected
  netId : w'.netId = w.netId
  slotId : w'.slotId = w.slotId
  routingBucket : w'.routingBucket = w.routingBucket
  stale : ∀ c slotId i, w.Stale (w'.gridOf c) slotId i → (w'.gridOf c).state slotId i = (w.gridOf c).state slotId i

theorem Kept.refl (w : GridWorld) : w.Kept w := ⟨rfl, rfl, rfl, rfl, fun _ _ _ _ => rfl⟩

theorem Kept.stale_iff (h : w.Kept w') (grid : WorldGrid) (slotId : Nat) (i : Fin 32) :
    w'.Stale grid slotId i ↔ w.Stale grid slotId i := by
  unfold Stale
  rw [h.connected, h.netId, h.slotId]

theorem stale_of_state_eq {grid grid' : WorldGrid} {slotId : Nat} {i : Fin 32} (h : w.Stale grid' slotId i)
    (hstate : grid'.state slotId i = grid.state slotId i) : w.Stale grid slotId i := by
  unfold Stale at h ⊢
  rwa [hstate] at h

theorem Kept.trans {w'' : GridWorld} (h : w.Kept w') (h' : w'.Kept w'') : w.Kept w'' where
  connected := h'.connected.trans h.connected
  netId := h'.netId.trans h.netId
  slotId := h'.slotId.trans h.slotId
  routingBucket := h'.routingBucket.trans h.routingBucket
  stale c slotId i hstale := by
    have hstate := h'.stale c slotId i ((h.stale_iff _ _ _).mpr hstale)
    exact hstate.trans (h.stale c slotId i (stale_of_state_eq hstale hstate))

/-- Nobody is disturbed that was not before. -/
theorem Kept.undisturbed (h : w.Kept w') {turn : GridTurn} (hundisturbed : w.Undisturbed turn) :
    w'.Undisturbed turn := by
  intro range hfocus hslot
  rw [h.slotId] at hslot ⊢
  obtain ⟨hinside, hnear⟩ := hundisturbed range hfocus hslot
  refine ⟨hinside, fun slotId i hne hstale => ?_⟩
  rw [h.stale_iff] at hstale
  have hstate := h.stale turn.client slotId i hstale
  rw [hstate]
  exact hnear slotId i hne (stale_of_state_eq hstale hstate)

theorem kept_checkWorld (w : GridWorld) (now : Nat) : w.Kept (w.checkWorld now) := by
  unfold GridWorld.checkWorld
  split
  · refine ⟨rfl, rfl, rfl, rfl, fun c slotId i hstale => ?_⟩
    unfold GridWorld.gridOf cleanUp at hstale ⊢
    dsimp only at hstale ⊢
    split at hstale
    · rename_i hlive
      rw [if_pos hlive]
      cases w.worldGrids (w.routingBucket c) with
      | none => rfl
      | some grid => rfl
    · exact absurd rfl hstale.1
  · exact .refl w

theorem kept_updateClient (h : w.Settled) (turn : GridTurn) : w.Kept (w.updateClient turn) := by
  have hset (pass : GridPass) (hslot : w.slotId turn.client ≠ noSlot)
      (hentries : pass.Entries (w.slotId turn.client) (w.netId turn.client) (w.gridOf turn.client)) (c : ClientPtr)
      (slotId : Nat) (i : Fin 32)
        (hstale : w.Stale ((w.setGrid (w.routingBucket turn.client) pass.grid).gridOf c) slotId i) :
      ((w.setGrid (w.routingBucket turn.client) pass.grid).gridOf c).state slotId i = (w.gridOf c).state slotId i := by
    obtain ⟨hc, -⟩ := h.apart hslot
    unfold GridWorld.gridOf GridWorld.setGrid at hstale ⊢
    dsimp only at hstale ⊢
    by_cases hbucket : w.routingBucket c = w.routingBucket turn.client
    · rw [hbucket, Function.update_self, Option.getD_some] at hstale ⊢
      obtain hsame | hfree | ⟨rfl, hown⟩ := hentries slotId i
      · exact hsame
      · exact absurd hfree hstale.1
      · exact absurd hown.symm (hstale.2 _ hc rfl hslot)
    · rw [Function.update_of_ne hbucket]
  unfold GridWorld.updateClient
  cases turn.focus with
  | none => exact .refl w
  | some range =>
    dsimp only
    split_ifs with hslot hrefused
    · exact .refl w
    · exact ⟨rfl, rfl, rfl, rfl, hset ⟨w.gridOf turn.client, fun _ => none, false⟩ hslot fun _ _ => .inl rfl⟩
    · refine ⟨rfl, rfl, rfl, rfl, hset _ hslot ?_⟩
      refine List.foldlRecOn _ _ ?_ fun pass h sector _ => h.visit sector
      exact List.foldlRecOn _ _ (fun _ _ => .inl rfl) fun pass h i _ => h.disown i

theorem Settled.checkWorld (h : w.Settled) (now : Nat) : (w.checkWorld now).Settled := by
  unfold GridWorld.checkWorld
  split
  · refine h.grids rfl rfl rfl h.inside fun routingBucket grid' hgrid' => ?_
    simp only [cleanUp] at hgrid'
    obtain ⟨-, hgrid'⟩ := Option.ite_none_right_eq_some.mp hgrid'
    obtain ⟨grid, hgrid, rfl⟩ := Option.map_eq_some_iff.mp hgrid'
    refine ⟨h.unique routingBucket grid hgrid, fun c hc =>
      (h.agrees c hc routingBucket grid hgrid).frame ?_ rfl fun _ _ _ _ _ _ hfor => hfor⟩
    intro x y
    simp only [filterNetIDs, decide_eq_true_eq]
    split
    · rfl
    · rename_i hunknown
      refine ⟨fun heq => absurd heq.symm (h.netId_ne c hc), fun heq => absurd ⟨c, hc, heq.symm⟩ hunknown⟩
  · exact h

/-- The clients that an update visits find the sectors around them as they were before it, as far as stale entries
go. -/
theorem Settled.updateWorldGrid (h : w.Settled) (now : Nat) {turns : List GridTurn}
    (hundisturbed : ∀ turn ∈ turns, w.Undisturbed turn) : (w.updateWorldGrid now turns).Settled := by
  have hround (w' : GridWorld) (hw' : w'.Settled ∧ w.Kept w') (turn : GridTurn) (hturn : turn ∈ turns) :
      (w'.updateClient turn).Settled ∧ w.Kept (w'.updateClient turn) :=
    ⟨hw'.1.updateClient (hw'.2.undisturbed (hundisturbed turn hturn)), hw'.2.trans (kept_updateClient hw'.1 turn)⟩
  exact (List.foldlRecOn turns _ ⟨h.checkWorld now, kept_checkWorld w now⟩ hround).1

/-- The client is connected, or nobody has its net id. -/
theorem Settled.clear (h : w.Settled) {c : ClientPtr}
    (hclear : c ∉ w.connected → ∀ c' ∈ w.connected, w.netId c' ≠ w.netId c) :
    (w.clearClientFromWorldGrid c).Settled := by
  unfold clearClientFromWorldGrid
  split
  · exact h
  · rename_i grid hgrid
    refine h.setGrid (fun slotId i j hused heq => ?_) fun c' hc' => ?_
    · rw [clear_state] at hused heq
      rw [clear_state] at heq
      split_ifs at hused heq with hsame
      · exact absurd rfl hused
      · exact h.unique _ _ hgrid slotId i j hused heq
    · by_cases hsame : c' = c
      · subst hsame
        refine agrees_of_clear (fun x y => ?_) fun hslot i => ?_
        · rw [clear_netIDs]
          split
          · exact (h.netId_ne c' hc').symm
          · assumption
        · rw [clear_state, if_pos ⟨rfl, hslot⟩]
          exact (h.netId_ne c' hc').symm
      · refine (h.agrees c' hc' _ _ hgrid).frame ?_ ?_ ?_
        · intro x y
          rw [clear_netIDs]
          split
          · rename_i hcell
            refine ⟨fun heq => absurd heq.symm (h.netId_ne c' hc'), fun heq => ?_⟩
            by_cases hc : c ∈ w.connected
            · exact absurd (h.netId_inj c' hc' c hc (heq.symm.trans hcell)) hsame
            · exact absurd (heq.symm.trans hcell) (hclear hc c' hc')
          · rfl
        · funext i
          rw [clear_state, if_neg]
          rintro ⟨heq, hslot⟩
          obtain ⟨hc, -⟩ := h.apart hslot
          exact hsame (h.slotId_inj c hc c' hc' heq.symm hslot).symm
        · intro slotId i x y _ _ hfor
          rw [clear_state] at hfor
          split at hfor
          · exact absurd rfl hfor.1
          · exact hfor

theorem Settled.join (h : w.Settled) {c : ClientPtr} {netId slotId : Nat} (hnew : c ∉ w.connected)
    (hlt : netId < noNetId) (hnetId : ∀ c' ∈ w.connected, w.netId c' ≠ netId)
    (hslotId : slotId = noSlot ∨ slotId < MAX_CLIENTS ∧ ∀ c' ∈ w.connected, w.slotId c' ≠ slotId)
    (hforgot : ∀ routingBucket grid, w.worldGrids routingBucket = some grid → grid.Forgot netId)
    (hconnected : w'.connected = c :: w.connected) (hnetId' : w'.netId = Function.update w.netId c netId)
    (hslotId' : w'.slotId = Function.update w.slotId c slotId) (hgrids : w'.worldGrids = w.worldGrids)
    (houtside : w'.outside = w.outside) : w'.Settled := by
  have hother : ∀ c' ∈ w.connected, c' ≠ c := by
    rintro c' hc' rfl
    exact hnew hc'
  have hfree : ∀ c' ∈ w.connected, w.slotId c' = slotId → slotId = noSlot := by
    intro c' hc' heq
    obtain hslot | ⟨-, hfree⟩ := hslotId
    · exact hslot
    · exact absurd heq (hfree c' hc')
  refine ⟨houtside.trans h.inside, ?_, ?_, ?_, ?_, ?_, ?_⟩
  · rw [hconnected, hnetId', List.forall_mem_cons, Function.update_self]
    refine ⟨hlt.ne, fun c' hc' => ?_⟩
    rw [Function.update_of_ne (hother c' hc')]
    exact h.netId_ne c' hc'
  · rw [hconnected, hnetId']
    simp only [List.forall_mem_cons, Function.update_self]
    refine ⟨⟨fun _ => trivial, fun c' hc' heq => ?_⟩, fun c' hc' => ⟨fun heq => ?_, fun c'' hc'' heq => ?_⟩⟩
    · rw [Function.update_of_ne (hother c' hc')] at heq
      exact absurd heq.symm (hnetId c' hc')
    · rw [Function.update_of_ne (hother c' hc')] at heq
      exact absurd heq (hnetId c' hc')
    · rw [Function.update_of_ne (hother c' hc'), Function.update_of_ne (hother c'' hc'')] at heq
      exact h.netId_inj c' hc' c'' hc'' heq
  · rw [hconnected, hslotId']
    simp only [List.forall_mem_cons, Function.update_self]
    refine ⟨⟨fun _ _ => trivial, fun c' hc' heq hslot => ?_⟩,
      fun c' hc' => ⟨fun heq hslot => ?_, fun c'' hc'' heq hslot => ?_⟩⟩
    · rw [Function.update_of_ne (hother c' hc')] at heq
      exact absurd (hfree c' hc' heq.symm) hslot
    · rw [Function.update_of_ne (hother c' hc')] at heq hslot
      exact absurd (heq.trans (hfree c' hc' heq)) hslot
    · rw [Function.update_of_ne (hother c' hc')] at hslot heq
      rw [Function.update_of_ne (hother c'' hc'')] at heq
      exact h.slotId_inj c' hc' c'' hc'' heq hslot
  · intro c' hc'
    rw [hconnected, List.mem_cons, not_or] at hc'
    rw [hslotId', Function.update_of_ne hc'.1]
    exact h.slotId_none c' hc'.2
  · rw [hgrids]
    exact h.unique
  · rw [hconnected, hnetId', hslotId', hgrids, List.forall_mem_cons, Function.update_self, Function.update_self]
    refine ⟨fun routingBucket grid hgrid => (hforgot routingBucket grid hgrid).agrees, fun c' hc' => ?_⟩
    rw [Function.update_of_ne (hother c' hc'), Function.update_of_ne (hother c' hc')]
    exact h.agrees c' hc'

theorem Settled.removeClient (h : w.Settled) (c : ClientPtr) :
    Settled { w with
      connected := w.connected.filter (· ≠ c)
      slotId := Function.update w.slotId c noSlot } := by
  have hmem : ∀ c' ∈ w.connected.filter (· ≠ c), c' ∈ w.connected ∧ c' ≠ c := fun c' hc' => by
    simpa only [List.mem_filter, decide_eq_true_eq] using hc'
  have hslot : ∀ c' ∈ w.connected.filter (· ≠ c), Function.update w.slotId c noSlot c' = w.slotId c' :=
    fun c' hc' => Function.update_of_ne (hmem c' hc').2 ..
  refine ⟨h.inside, fun c' hc' => h.netId_ne c' (hmem c' hc').1,
    fun c' hc' c'' hc'' => h.netId_inj c' (hmem c' hc').1 c'' (hmem c'' hc'').1, ?_, ?_, h.unique, ?_⟩
  · intro c' hc' c'' hc''
    dsimp only
    rw [hslot c' hc', hslot c'' hc'']
    exact h.slotId_inj c' (hmem c' hc').1 c'' (hmem c'' hc'').1
  · intro c' hc'
    simp only [List.mem_filter, decide_eq_true_eq, not_and, not_not] at hc'
    dsimp only
    by_cases hsame : c' = c
    · rw [hsame, Function.update_self]
    · rw [Function.update_of_ne hsame]
      exact h.slotId_none c' fun hold => hsame (hc' hold)
  · intro c' hc'
    dsimp only
    rw [hslot c' hc']
    exact h.agrees c' (hmem c' hc').1

/-- A step that meets the condition settles again. -/
theorem Settled.step (h : w.Settled) {a : Action} (hok : w.Orderly a) (hstep : w.step a = some w') : w'.Settled := by
  cases a with
  | join c netId slotId =>
    obtain ⟨⟨hnew, -, -, hlt, hnetId, hslotId⟩, heq⟩ := Option.ite_none_right_eq_some.mp hstep
    cases heq
    exact h.join hnew hlt hnetId hslotId hok rfl rfl rfl rfl rfl
  | drop c =>
    obtain ⟨-, heq⟩ := Option.ite_none_right_eq_some.mp hstep
    cases heq
    exact h.grids rfl rfl rfl h.inside fun b grid hgrid =>
      ⟨h.unique b grid hgrid, fun c hc => h.agrees c hc b grid hgrid⟩
  | removeClient c =>
    obtain ⟨-, heq⟩ := Option.ite_none_right_eq_some.mp hstep
    cases heq
    exact h.removeClient c
  | handleClientDrop c =>
    obtain ⟨-, heq⟩ := Option.ite_none_right_eq_some.mp hstep
    cases heq
    have h := h.clear hok
    exact h.grids rfl rfl rfl h.inside fun b grid hgrid =>
      ⟨h.unique b grid hgrid, fun c hc => h.agrees c hc b grid hgrid⟩
  | setRoutingBucket c routingBucket =>
    obtain ⟨hc, heq⟩ := Option.ite_none_right_eq_some.mp hstep
    cases heq
    have h := h.clear fun hnot => absurd hc hnot
    exact h.grids rfl rfl rfl h.inside fun b grid hgrid =>
      ⟨h.unique b grid hgrid, fun c hc => h.agrees c hc b grid hgrid⟩
  | updateWorldGrid now turns =>
    obtain ⟨-, heq⟩ := Option.ite_none_right_eq_some.mp hstep
    cases heq
    exact h.updateWorldGrid now hok

/-- The grids are consistent in every state of a run whose steps meet the condition: net ids are not reused while a
grid has them, and an update finds the client that it visits as the last one left it. Nothing is asked of which
sectors are near. -/
theorem run_consistent (acts : List Action) (w : GridWorld) (hrun : Transition.Run step Orderly empty acts w) :
    w.Consistent := by
  have h : w.Settled := hrun.invariant Settled settled_empty fun h hok hstep => h.step hok hstep
  exact h.consistent

/-- Two clients at the corner of the map, in an update at some time. -/
def cornerUpdate (now : Nat) : Action :=
  .updateWorldGrid now [⟨1, now, some (.ofPos (-8500) (-8500))⟩, ⟨2, now, some (.ofPos (-8500) (-8500))⟩]

/-- The clients join, and the first update starts their cooldowns. -/
def settling : GridWorld := (Transition.exec step empty [.join 1 1 0, .join 2 2 1, cornerUpdate 0]).getD empty

set_option maxRecDepth 4000 in
theorem gridOf_settling : settling.gridOf 1 = {} ∧ settling.gridOf 2 = {} := ⟨rfl, rfl⟩

/-- In an empty grid, only the position matters. -/
theorem orderly_cornerUpdate {w : GridWorld} (now : Nat) (hgrid : w.gridOf 1 = {} ∧ w.gridOf 2 = {}) :
    w.Orderly (cornerUpdate now) := by
  have hinside : (SectorRange.ofPos (-8500) (-8500)).Inside := fun _ => by decide
  intro turn hturn range hfocus _
  have hturn : (turn.client = 1 ∨ turn.client = 2) ∧ turn.focus = some (.ofPos (-8500) (-8500)) := by
    simp only [List.mem_cons, List.not_mem_nil, or_false] at hturn
    rcases hturn with rfl | rfl
    · exact ⟨.inl rfl, rfl⟩
    · exact ⟨.inr rfl, rfl⟩
  rw [hturn.2] at hfocus
  cases hfocus
  refine ⟨hinside, fun slotId i _ hstale => absurd ?_ hstale.1⟩
  rcases hturn.1 with hclient | hclient
  · rw [hclient, hgrid.1]
  · rw [hclient, hgrid.2]

/-- The first client takes the sector at the corner, and the second does not. -/
theorem run_consistent_corner : ∃ w, Transition.Run step Orderly empty
    [.join 1 1 0, .join 2 2 1, cornerUpdate 0, cornerUpdate 100] w ∧ w.Consistent ∧
      (w.gridOf 1).netIDs 0 0 = 1 ∧ (w.gridOf 1).state 0 0 = ⟨0, 0, 1⟩ ∧ ((w.gridOf 1).state 1 0).netID = noNetId := by
  have hlast : ((settling.step (cornerUpdate 100)).any fun w => decide ((w.gridOf 1).netIDs 0 0 = 1 ∧
      (w.gridOf 1).state 0 0 = ⟨0, 0, 1⟩ ∧ ((w.gridOf 1).state 1 0).netID = noNetId)) = true := by
    decide +kernel
  obtain ⟨w, hstep, htest⟩ := (Option.any_eq_true _ _).mp hlast
  have hrun : Transition.Run step Orderly empty [.join 1 1 0, .join 2 2 1, cornerUpdate 0, cornerUpdate 100] w := by
    refine .cons (fun _ _ hgrid => ?_) rfl (.cons (fun _ _ hgrid => ?_) rfl (.cons (orderly_cornerUpdate 0 ⟨rfl, rfl⟩)
      (rfl : _ = some settling) (.cons (orderly_cornerUpdate 100 gridOf_settling) hstep (.nil _))))
    · cases hgrid
    · cases hgrid
  exact ⟨w, hrun, run_consistent _ w hrun, of_decide_eq_true htest⟩

/-- A player in a vehicle that a script created far outside of the map uses sectors that do not exist. -/
theorem run_outside : ∃ acts w, Transition.Run step (fun _ _ => True) empty acts w ∧ ¬ w.Consistent := by
  have hend : ((Transition.exec step empty
      [.join 1 1 0, .updateWorldGrid 0 [⟨1, 0, some (.ofPos 30000 0)⟩]]).any fun w => w.outside) = true := by
    decide +kernel
  obtain ⟨w, hrun, hw⟩ := Transition.exists_run hend
  refine ⟨_, w, hrun, fun h => ?_⟩
  rw [h.1] at hw
  cases hw

end GridWorld

end fx
