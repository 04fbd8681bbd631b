import Citizen.EventCore.RefContainer

namespace fwRefContainer

open Heap

/-- Between the calls of one `Release`, which began on the heap `h₀`: counts are of the containers and of the calls
that are still to come, and what has gone satisfies `D`. -/
structure Releasing (D : Nat → Prop) (h₀ h : Heap) (calls : List Call) : Prop where
  count_eq : ∀ x n, h.getRefCount x = some n → n = h.references x + calls.count (.release x)
  small : ∀ x n, h.getRefCount x = some n → n < 2 ^ 32
  targets : ∀ x, 0 < h.references x + calls.count (.release x) → ∃ n, h.getRefCount x = some n
  deletes : ∀ x, calls.count (.delete x) ≤ 1
  deleted : ∀ x, .delete x ∈ calls → h.getRefCount x = some 0 ∧ D x
  same : ∀ k c, h.container k = some c → h₀.container k = some c
  gone : ∀ k c, h₀.container k = some c → h.container k = none → ∃ z, c.owner = some z ∧ D z
  fewer : ∀ x, h.references x ≤ h₀.references x
  kept : ∀ x n, h.getRefCount x = some n →
    ∃ m, h₀.getRefCount x = some m ∧ (0 < n ∨ .delete x ∈ calls ↔ 0 < m)
  freed : ∀ x m, h₀.getRefCount x = some m → h.getRefCount x = none → 0 < m ∧ D x

/-- What all containers that point to an object satisfy if it is to be destroyed. -/
def Closed (D : Nat → Prop) (h₀ : Heap) : Prop :=
  ∀ x m, h₀.getRefCount x = some m → 0 < m →
    (∀ k c, h₀.container k = some c → c.ref = some x → ∃ z, c.owner = some z ∧ D z) → D x

namespace Releasing

variable {D : Nat → Prop} {h₀ h h' : Heap} {calls inner : List Call}

/-- Every container that pointed to an object without references has gone. -/
theorem doomed {x n : Nat} (hinv : Releasing D h₀ h calls) (hclosed : Closed D h₀)
    (hx : h.getRefCount x = some n) (hn : 0 < n) (hnone : h.references x = 0) : D x := by
  obtain ⟨m, hm, hpos⟩ := hinv.kept x n hx
  refine hclosed x m hm (hpos.mp (.inl hn)) fun k c hk href => ?_
  cases hnow : h.container k with
  | none => exact hinv.gone k c hk hnow
  | some c' =>
    obtain rfl := Option.some.inj ((hinv.same k c' hnow).symm.trans hk)
    have hpointed := references_pos_iff.mpr ⟨k, c', hnow, href⟩
    omega

theorem advance_release {x : Nat} (hclosed : Closed D h₀) (hinv : Releasing D h₀ h (.release x :: calls)) :
    ∃ h' inner, h.advance (.release x) = some (h', inner) ∧ Releasing D h₀ h' (inner ++ calls) := by
  obtain ⟨n, hn⟩ := hinv.targets x (by simp)
  have hcount := hinv.count_eq x n hn
  have hsmall := hinv.small x n hn
  rw [List.count_cons_self] at hcount
  have hnot : ∀ y, Call.delete y ∉ calls ∨ h.getRefCount y = some 0 := fun y => by
    by_cases hy : Call.delete y ∈ calls
    · exact .inr (hinv.deleted y (List.mem_cons_of_mem _ hy)).1
    · exact .inl hy
  have hround : (n + (2 ^ 32 - 1)) % 2 ^ 32 = n - 1 := by omega
  have hget := getRefCount_setRefCount hn (n - 1)
  have hpending : ∀ y, (if n ≤ 1 then [Call.delete x] else []).count (.release y) = 0 := by
    intro y
    split <;> simp
  refine ⟨h.setRefCount x (n - 1), if n ≤ 1 then [.delete x] else [], by rw [advance, hn, Option.map_some, hround], ?_⟩
  refine ⟨fun y m hy => ?_, fun y m hy => ?_, fun y hy => ?_, fun y => ?_, fun y hy => ?_, hinv.same, hinv.gone,
    hinv.fewer, fun y m hy => ?_, fun y m hm hy => ?_⟩
  · rw [references_setRefCount, List.count_append, hpending, Nat.zero_add]
    rw [hget] at hy
    split at hy
    next hxy =>
      subst hxy
      obtain rfl := Option.some.inj hy
      omega
    next hxy =>
      have hold := hinv.count_eq y m hy
      rw [List.count_cons_of_ne (by simpa using Ne.symm hxy)] at hold
      exact hold
  · rw [hget] at hy
    split at hy
    · obtain rfl := Option.some.inj hy
      omega
    · exact hinv.small y m hy
  · rw [references_setRefCount, List.count_append, hpending, Nat.zero_add] at hy
    rw [hget]
    split
    · exact ⟨_, rfl⟩
    · refine hinv.targets y ?_
      have hle := (List.sublist_cons_self (Call.release x) calls).count_le (.release y)
      omega
  · have hold := hinv.deletes y
    rw [List.count_cons_of_ne (by simp)] at hold
    rw [List.count_append]
    split
    · by_cases hxy : y = x
      · subst hxy
        have hzero : calls.count (.delete y) = 0 := by
          rw [List.count_eq_zero]
          intro hmem
          have hdead := (hinv.deleted y (List.mem_cons_of_mem _ hmem)).1
          rw [hn] at hdead
          cases hdead
          omega
        rw [hzero]
        simp
      · rw [List.count_cons_of_ne (by simpa using Ne.symm hxy)]
        simpa using hold
    · simpa using hold
  · rw [hget]
    rcases List.mem_append.mp hy with hy | hy
    · split at hy
      next hle =>
        have hxy : y = x := by simpa using hy
        subst hxy
        rw [if_pos rfl, show n - 1 = 0 by omega]
        exact ⟨rfl, hinv.doomed hclosed hn (by omega) (by omega)⟩
      next => cases hy
    · obtain ⟨hdead, hD⟩ := hinv.deleted y (List.mem_cons_of_mem _ hy)
      have hxy : y ≠ x := by
        rintro rfl
        rw [hn] at hdead
        cases hdead
        omega
      rw [if_neg hxy]
      exact ⟨hdead, hD⟩
  · rw [hget] at hy
    split at hy
    next hxy =>
      subst hxy
      obtain rfl := Option.some.inj hy
      obtain ⟨m, hm, hiff⟩ := hinv.kept y n hn
      refine ⟨m, hm, ⟨fun _ => hiff.mp (.inl (by omega)), fun _ => ?_⟩⟩
      by_cases hle : n ≤ 1
      · exact .inr (by simp [hle])
      · exact .inl (by omega)
    next hxy =>
      obtain ⟨m', hm', hiff⟩ := hinv.kept y m hy
      refine ⟨m', hm', ?_⟩
      rw [← hiff]
      split
      · simp [hxy]
      · simp
  · rw [hget] at hy
    split at hy
    · cases hy
    · exact hinv.freed y m hm hy

theorem advance_free {x : Nat} (hinv : Releasing D h₀ h (.delete x :: calls)) : Releasing D h₀ (h.free x) calls := by
  obtain ⟨hdead, hD⟩ := hinv.deleted x List.mem_cons_self
  have hcount := hinv.count_eq x 0 hdead
  rw [List.count_cons_of_ne (by simp)] at hcount
  have honce := hinv.deletes x
  rw [List.count_cons_self] at honce
  have hother : Call.delete x ∉ calls := List.count_eq_zero.mp (by omega)
  refine ⟨fun y m hy => ?_, fun y m hy => ?_, fun y hy => ?_, fun y => ?_, fun y hy => ?_, hinv.same, hinv.gone,
    hinv.fewer, fun y m hy => ?_, fun y m hm hy => ?_⟩
  · rw [getRefCount_free] at hy
    split at hy
    · cases hy
    · have hold := hinv.count_eq y m hy
      rw [List.count_cons_of_ne (by simp)] at hold
      exact hold
  · rw [getRefCount_free] at hy
    split at hy
    · cases hy
    · exact hinv.small y m hy
  · rw [references_free] at hy
    rw [getRefCount_free]
    split
    next hxy =>
      subst hxy
      omega
    next =>
      refine hinv.targets y ?_
      rw [List.count_cons_of_ne (by simp)]
      exact hy
  · have hle := (List.sublist_cons_self (Call.delete x) calls).count_le (.delete y)
    exact hle.trans (hinv.deletes y)
  · have hxy : y ≠ x := by
      rintro rfl
      exact hother hy
    rw [getRefCount_free, if_neg hxy]
    exact hinv.deleted y (List.mem_cons_of_mem _ hy)
  · rw [getRefCount_free] at hy
    split at hy
    · cases hy
    next hxy =>
      obtain ⟨m', hm', hiff⟩ := hinv.kept y m hy
      refine ⟨m', hm', ?_⟩
      rw [← hiff]
      simp [hxy]
  · rw [getRefCount_free] at hy
    split at hy
    next hxy =>
      subst hxy
      obtain ⟨m', hm', hiff⟩ := hinv.kept y 0 hdead
      obtain rfl := Option.some.inj (hm.symm.trans hm')
      exact ⟨hiff.mp (.inr List.mem_cons_self), hD⟩
    next => exact hinv.freed y m hm hy

theorem advance_member {x k : Nat} {c : Container} (hinv : Releasing D h₀ h (.delete x :: calls))
    (hk : h.container k = some c) (howner : c.owner = some x) :
    Releasing D h₀ (h.put k none) ((c.ref.map Call.release).toList ++ .delete x :: calls) := by
  have hput := container_put hk none
  have hrefs := references_put_none hk
  have hpending : ∀ y, (c.ref.map Call.release).toList.count (.release y) = if c.ref = some y then 1 else 0 := by
    intro y
    cases c.ref with
    | none => rfl
    | some z => simp [List.count_singleton]
  have hplain : ∀ y, Call.delete y ∉ (c.ref.map Call.release).toList := by
    intro y
    cases c.ref <;> simp
  have hsum : ∀ y, (h.put k none).references y +
      ((c.ref.map Call.release).toList ++ .delete x :: calls).count (.release y) =
        h.references y + (Call.delete x :: calls).count (.release y) := by
    intro y
    have hone := hrefs y
    rw [List.count_append, hpending]
    omega
  refine ⟨fun y m hy => ?_, hinv.small, fun y hy => ?_, fun y => ?_, fun y hy => ?_, fun j c' hj => ?_,
    fun j c' hj hnone => ?_, fun y => ?_, fun y m hy => ?_, hinv.freed⟩
  · rw [hsum]
    exact hinv.count_eq y m hy
  · rw [hsum] at hy
    exact hinv.targets y hy
  · rw [List.count_append, List.count_eq_zero.mpr (hplain y), Nat.zero_add]
    exact hinv.deletes y
  · rcases List.mem_append.mp hy with hy | hy
    · exact absurd hy (hplain y)
    · exact hinv.deleted y hy
  · rw [hput] at hj
    split at hj
    · cases hj
    · exact hinv.same j c' hj
  · rw [hput] at hnone
    split at hnone
    next hjk =>
      subst hjk
      obtain rfl := Option.some.inj ((hinv.same j c hk).symm.trans hj)
      exact ⟨x, howner, (hinv.deleted x List.mem_cons_self).2⟩
    next => exact hinv.gone j c' hj hnone
  · have hone := hrefs y
    have hfewer := hinv.fewer y
    omega
  · obtain ⟨m', hm', hiff⟩ := hinv.kept y m hy
    refine ⟨m', hm', ?_⟩
    rw [← hiff, List.mem_append]
    simp [hplain]

/-- Every call of a release can be made. -/
theorem advance {call : Call} (hclosed : Closed D h₀) (hinv : Releasing D h₀ h (call :: calls)) :
    ∃ h' inner, h.advance call = some (h', inner) ∧ Releasing D h₀ h' (inner ++ calls) := by
  cases call with
  | release x => exact hinv.advance_release hclosed
  | delete x =>
    obtain ⟨hdead, -⟩ := hinv.deleted x List.mem_cons_self
    rw [Heap.advance, hdead, Option.map_some]
    cases hlast : h.lastMember x with
    | none => exact ⟨_, _, rfl, hinv.advance_free⟩
    | some k =>
      obtain ⟨c, hc, howner⟩ := lastMember_spec hlast
      refine ⟨_, _, rfl, ?_⟩
      rw [hc, Option.bind_some, List.append_assoc]
      exact hinv.advance_member hc howner

theorem returns {fuel : Nat} (hclosed : Closed D h₀) (hinv : Releasing D h₀ h calls) (hfuel : h.weight calls ≤ fuel) :
    ∃ h', Heap.returns fuel h calls = some h' ∧ Releasing D h₀ h' [] := by
  induction fuel generalizing h calls with
  | zero =>
    cases calls with
    | nil => exact ⟨h, by rw [Heap.returns], hinv⟩
    | cons call calls =>
      have hpos := weight_cons_pos h call calls
      omega
  | succ fuel ih =>
    cases calls with
    | nil => exact ⟨h, by rw [Heap.returns], hinv⟩
    | cons call calls =>
      obtain ⟨h', inner, hadv, hnext⟩ := hinv.advance hclosed
      have hlt := @weight_advance h h' call calls inner hadv
      obtain ⟨h'', hreturns, hend⟩ := ih hnext (by omega)
      refine ⟨h'', ?_, hend⟩
      rw [Heap.returns, hadv]
      exact hreturns

/-- A call that does not destroy the owner of a container does the same whatever the container points to. -/
theorem advance_put {this : Nat} {c : Container} {call : Call} (hthis : h.container this = some c) (ref : Option Nat)
    (howner : ∀ z, c.owner = some z → call ≠ .delete z) (hadv : h.advance call = some (h', inner)) :
    (h.put this (some { c with ref })).advance call = some (h'.put this (some { c with ref }), inner) ∧
      h'.container this = some c := by
  cases call with
  | release x =>
    obtain ⟨n, hn, hnext⟩ := Option.map_eq_some_iff.mp hadv
    obtain ⟨rfl, rfl⟩ := Prod.mk.inj hnext
    exact ⟨by rw [Heap.advance, getRefCount_put, hn]; rfl, hthis⟩
  | delete x =>
    obtain ⟨n, hn, hnext⟩ := Option.map_eq_some_iff.mp hadv
    have howners := @lastMember_put h this c { c with ref } hthis rfl x
    rw [Heap.advance, getRefCount_put, hn, Option.map_some, howners]
    cases hlast : h.lastMember x with
    | none =>
      rw [hlast] at hnext
      obtain ⟨rfl, rfl⟩ := Prod.mk.inj hnext
      exact ⟨rfl, hthis⟩
    | some k =>
      rw [hlast] at hnext
      obtain ⟨rfl, rfl⟩ := Prod.mk.inj hnext
      obtain ⟨c', hc', hmember⟩ := lastMember_spec hlast
      have hne : k ≠ this := by
        rintro rfl
        obtain rfl := Option.some.inj (hthis.symm.trans hc')
        exact howner x hmember rfl
      refine ⟨?_, by rw [container_put hc', if_neg (Ne.symm hne), hthis]⟩
      have hcomm : (h.put this (some { c with ref })).put k none = (h.put k none).put this (some { c with ref }) := by
        unfold put
        rw [List.set_comm _ _ (Ne.symm hne)]
      dsimp only
      rw [container_put hthis, if_neg hne, hcomm]

/-- A container whose owner is not destroyed is not touched. -/
theorem returns_put {this fuel : Nat} {c : Container} (hclosed : Closed D h₀) (hinv : Releasing D h₀ h calls)
    (hthis : h.container this = some c) (howner : ∀ z, c.owner = some z → ¬ D z) (ref : Option Nat)
    (hreturns : Heap.returns fuel h calls = some h') :
    Heap.returns fuel (h.put this (some { c with ref })) calls = some (h'.put this (some { c with ref })) ∧
      h'.container this = some c := by
  induction fuel generalizing h calls with
  | zero =>
    cases calls with
    | nil =>
      rw [Heap.returns] at hreturns
      obtain rfl := Option.some.inj hreturns
      exact ⟨by rw [Heap.returns], hthis⟩
    | cons call calls => cases hreturns
  | succ fuel ih =>
    cases calls with
    | nil =>
      rw [Heap.returns] at hreturns
      obtain rfl := Option.some.inj hreturns
      exact ⟨by rw [Heap.returns], hthis⟩
    | cons call calls =>
      obtain ⟨next, inner, hadv, hnext⟩ := hinv.advance hclosed
      have hlives : ∀ z, c.owner = some z → call ≠ .delete z := by
        rintro z hz rfl
        exact howner z hz (hinv.deleted z List.mem_cons_self).2
      obtain ⟨hput, hstays⟩ := advance_put hthis ref hlives hadv
      rw [Heap.returns, hadv] at hreturns
      rw [Heap.returns, hput]
      exact ih hnext hstays hreturns

end Releasing

end fwRefContainer
