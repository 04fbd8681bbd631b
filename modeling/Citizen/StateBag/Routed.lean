import Citizen.StateBag.Routing

open Bits rl Std

namespace fx.StateBags

/-- The bag exists or existed, and its routing set is not empty while it lives. -/
structure Routed (bag : BagPtr) (w : StateBags) : Prop where
  old : bag < w.nextBag
  routed : ∀ b, w.bags[bag]? = some b → b.routingTargets.isEmpty = false

/-- The call does not take the last peer from the routing set of the bag. `UnregisterTarget`
reaches the bags of the map only. -/
def KeepsRouting (bag : BagPtr) (w : StateBags) : Call → Prop
  | .setRoutingTargets other peers => other = bag → peers.isEmpty = false
  | .removeRoutingTarget other peer => other = bag →
      ∀ b, w.bags[bag]? = some b → ∃ kept ∈ b.routingTargets, kept ≠ peer
  | .unregisterTarget id => ∀ (name : Str) (b : StateBagImpl), w.component.stateBags[name]? = some bag →
      w.bags[bag]? = some b → ∃ kept ∈ b.routingTargets, kept ≠ id
  | _ => True

/-- The bag stays routed, and what is sent of it is sent while it is. -/
def StaysRouted (bag : BagPtr) (w w' : StateBags) : Prop :=
  w.Routed bag → w'.Routed bag ∧
    ∃ new, w'.sends = w.sends ++ new ∧ ∀ s ∈ new, s.bag = bag → s.routingTargets.isEmpty = false

namespace StaysRouted

variable {bag : BagPtr} {w mid w' : StateBags}

/-- Nothing is sent, and the bag is destroyed at most. -/
theorem of_bags (hnext : w.nextBag ≤ w'.nextBag) (hsends : w'.sends = w.sends)
    (hbags : ∀ b, bag < w.nextBag → w'.bags[bag]? = some b → w.bags[bag]? = some b) : StaysRouted bag w w' :=
  fun h => ⟨⟨h.old.trans_le hnext, fun b hb => h.routed b (hbags b h.old hb)⟩,
    [], by rw [hsends, List.append_nil], fun _ hs => by cases hs⟩

theorem refl (bag : BagPtr) (w : StateBags) : StaysRouted bag w w := .of_bags le_rfl rfl fun _ _ hb => hb

theorem trans (h : StaysRouted bag w mid) (h' : StaysRouted bag mid w') : StaysRouted bag w w' := by
  intro hrouted
  obtain ⟨hmid, new, heq, hnew⟩ := h hrouted
  obtain ⟨hend, new', heq', hnew'⟩ := h' hmid
  refine ⟨hend, new ++ new', by rw [heq', heq, List.append_assoc], fun s hs => ?_⟩
  rcases List.mem_append.mp hs with hs | hs
  · exact hnew s hs
  · exact hnew' s hs

/-- Sends of one bag, each with its routing set. -/
theorem of_sends {other : BagPtr} {b : StateBagImpl} {new : List QueuedSend} (hnew : Sends w w' new)
    (hb : w.bags[other]? = some b) (hall : ∀ s ∈ new, s.bag = other ∧ s.routingTargets = b.routingTargets) :
    StaysRouted bag w w' := by
  intro hrouted
  refine ⟨⟨?_, fun b' hb' => hrouted.routed b' (hnew.bags_eq ▸ hb')⟩, new, hnew.sends_eq, fun s hs hbag => ?_⟩
  · rw [hnew.eq]
    exact hrouted.old
  · obtain ⟨hother, hset⟩ := hall s hs
    obtain rfl : other = bag := hother.symm.trans hbag
    rw [hset]
    exact hrouted.routed b hb

theorem setBag {other : BagPtr} {b' : StateBagImpl}
    (hset : other = bag → (∀ b, w.bags[bag]? = some b → b.routingTargets.isEmpty = false) →
      b'.routingTargets.isEmpty = false) : StaysRouted bag w (w.setBag other b') := by
  intro hrouted
  refine ⟨⟨hrouted.old, fun c hc => ?_⟩, [], (List.append_nil _).symm, fun _ hs => by cases hs⟩
  rw [StateBags.setBag, TreeMap.getElem?_insert] at hc
  split at hc
  · cases hc
    exact hset (LawfulEqCmp.eq_of_compare ‹_›) hrouted.routed
  · exact hrouted.routed c hc

theorem sendAll {other : BagPtr} {target : Int} (h : w.sendAll other target = some w') : StaysRouted bag w w' := by
  obtain ⟨b, hb, _⟩ := Option.bind_eq_some_iff.mp h
  obtain ⟨new, hnew, hall⟩ := sendAll_sends hb h
  refine .of_sends hnew hb fun s hs => ?_
  obtain ⟨key, _, hsend⟩ := exists_left_of_forall₂ hall hs
  exact ⟨hsend.bag_eq, hsend.routingTargets_eq⟩

theorem setKeyInternal {call : SetKeyCall} (h : w.setKeyInternal call = some w') : StaysRouted bag w w' := by
  obtain ⟨b, hb, h⟩ := Option.bind_eq_some_iff.mp h
  dsimp only at h
  generalize (if call.replicated then b.data.getD call.key [] else []) = lastValue at h
  have hset : StaysRouted bag w (w.setBag call.bag { b with data := b.data.insert call.key call.data }) := by
    refine .setBag fun hbag hrouted => ?_
    subst hbag
    exact hrouted b hb
  split at h
  · have hb' : (w.setBag call.bag { b with data := b.data.insert call.key call.data }).bags[call.bag]? =
        some { b with data := b.data.insert call.key call.data } := by
      rw [StateBags.setBag, TreeMap.getElem?_insert_self]
    obtain ⟨new, hnew, hall⟩ := sendKeyAll_sends hb' (by simp) h
    refine hset.trans (.of_sends hnew hb' fun s hs => ?_)
    obtain ⟨target, _, hsend⟩ := exists_left_of_forall₂ hall hs
    exact ⟨hsend.bag_eq, hsend.routingTargets_eq⟩
  · cases h
    exact hset

theorem setRoutingTargets {other : BagPtr} {peers : TreeSet Int} (hkeeps : other = bag → peers.isEmpty = false)
    (h : w.setRoutingTargets other peers = some w') : StaysRouted bag w w' := by
  obtain ⟨b, _, h⟩ := Option.bind_eq_some_iff.mp h
  exact Loop.foldlM_invariant (StaysRouted bag w) (fun _ hstays hs => hstays.trans (.sendAll hs))
    (.setBag fun hbag _ => hkeeps hbag) h

theorem addRoutingTarget {other : BagPtr} {peer : Int} (h : w.addRoutingTarget other peer = some w') :
    StaysRouted bag w w' := by
  obtain ⟨b, _, h⟩ := Option.bind_eq_some_iff.mp h
  have hset : StaysRouted bag w (w.setBag other { b with routingTargets := b.routingTargets.insert peer }) :=
    .setBag fun _ _ => TreeSet.isEmpty_insert
  dsimp only at h
  split at h
  · cases h
    exact hset
  · exact hset.trans (.sendAll h)

theorem removeRoutingTarget {other : BagPtr} {peer : Int}
    (hkeeps : other = bag → ∀ b, w.bags[bag]? = some b → ∃ kept ∈ b.routingTargets, kept ≠ peer) :
    StaysRouted bag w (w.removeRoutingTarget other peer) := by
  rw [StateBags.removeRoutingTarget]
  split
  · rename_i b hb
    refine .setBag fun hbag _ => ?_
    subst hbag
    obtain ⟨kept, hmem, hne⟩ := hkeeps rfl b hb
    refine TreeSet.isEmpty_eq_false_of_contains (a := kept) ?_
    exact TreeSet.mem_erase.mpr ⟨fun heq => hne (LawfulEqCmp.eq_of_compare heq).symm, hmem⟩
  · exact .refl bag w

/-- The loop of `UnregisterTarget`. What it leaves in the routing set of the bag stays there. -/
theorem removeAll {id : Int} {bags : List BagPtr}
    (hkeeps : bag ∈ bags → ∀ b, w.bags[bag]? = some b → ∃ kept ∈ b.routingTargets, kept ≠ id) :
    StaysRouted bag w (bags.foldl (fun w bag => w.removeRoutingTarget bag id) w) := by
  induction bags generalizing w with
  | nil => exact .refl bag w
  | cons other bags ih =>
    refine .trans (.removeRoutingTarget fun hbag => hkeeps (hbag ▸ List.mem_cons_self)) (ih fun hmem b' hb' => ?_)
    have hkept := hkeeps (List.mem_cons_of_mem _ hmem)
    rw [StateBags.removeRoutingTarget] at hb'
    split at hb'
    · rename_i b hb
      rw [StateBags.setBag, TreeMap.getElem?_insert] at hb'
      split at hb'
      · cases hb'
        obtain rfl : other = bag := LawfulEqCmp.eq_of_compare ‹_›
        obtain ⟨kept, hmem, hne⟩ := hkept b hb
        exact ⟨kept, TreeSet.mem_erase.mpr ⟨fun heq => hne (LawfulEqCmp.eq_of_compare heq).symm, hmem⟩, hne⟩
      · exact hkept b' hb'
    · exact hkept b' hb'

theorem registerTarget {id : Int} (h : w.registerTarget id = some w') : StaysRouted bag w w' := by
  rw [StateBags.registerTarget] at h
  split at h
  · cases h
    exact .refl bag _
  · have hset : StaysRouted bag w
      { w with component := { w.component with targets := w.component.targets.insert id } } :=
      .of_bags le_rfl rfl fun _ _ hb => hb
    refine Loop.foldlM_invariant (StaysRouted bag w) (fun {s other s'} _ hstays hstep => hstays.trans ?_) hset h
    obtain ⟨b, hb, _⟩ := Option.bind_eq_some_iff.mp hstep
    obtain ⟨new, hnew, hall⟩ := sendAllInitial_sends hb hstep
    refine .of_sends hnew hb fun send hsend => ?_
    split at hall
    · obtain ⟨key, _, hof⟩ := exists_left_of_forall₂ hall hsend
      exact ⟨hof.bag_eq, hof.routingTargets_eq⟩
    · rw [hall] at hsend
      cases hsend

theorem unregisterTarget {id : Int} (hkeeps : w.KeepsRouting bag (.unregisterTarget id)) :
    StaysRouted bag w (w.unregisterTarget id) := by
  have hset : StaysRouted bag w { w with component := { w.component with targets := w.component.targets.erase id } } :=
    .of_bags le_rfl rfl fun _ _ hb => hb
  refine hset.trans (.removeAll fun hmem b hb => ?_)
  obtain ⟨⟨name, other⟩, hentry, hlock⟩ := List.mem_filterMap.mp hmem
  rw [StateBags.lock] at hlock
  split at hlock
  · cases hlock
    exact hkeeps name b (TreeMap.mem_toList_iff_getElem?_eq_some.mp hentry) hb
  · cases hlock

theorem acrossParts (bag : BagPtr) : AcrossParts (StaysRouted bag) where
  refl := .refl bag
  trans := .trans
  of_same hbags hnext hsends := .of_bags hnext.ge hsends fun _ _ hb => hbags ▸ hb
  newStateBag w id := by
    refine .of_bags (Nat.le_succ _) rfl fun b hlt hb => ?_
    rw [StateBags.newStateBag, TreeMap.getElem?_insert,
      if_neg fun heq => (LawfulEqCmp.eq_of_compare heq).not_gt hlt] at hb
    exact hb
  erase w other := by
    refine .of_bags le_rfl rfl fun b _ hb => ?_
    rw [TreeMap.getElem?_erase] at hb
    split at hb
    · cases hb
    · exact hb
  setKeyInternal := .setKeyInternal

theorem step {call : Call} (hkeeps : w.KeepsRouting bag call) (h : w.step call = some w') : StaysRouted bag w w' := by
  refine (acrossParts bag).step h fun hroutes => ?_
  cases call with
  | setOwningPeer other peer =>
    obtain ⟨b, hb, h⟩ := Option.bind_eq_some_iff.mp h
    cases h
    refine .setBag fun hbag hrouted => ?_
    subst hbag
    exact hrouted b hb
  | setRoutingTargets other peers => exact .setRoutingTargets hkeeps h
  | addRoutingTarget other peer => exact .addRoutingTarget h
  | removeRoutingTarget other peer =>
    cases h
    exact .removeRoutingTarget hkeeps
  | registerTarget id => exact .registerTarget h
  | unregisterTarget id =>
    cases h
    exact .unregisterTarget hkeeps
  | _ => cases hroutes

end StaysRouted

/-- Only pointers that were given out are alive. -/
def Fresh (w : StateBags) : Prop := ∀ bag, w.idOf bag ≠ none → bag < w.nextBag

namespace Fresh

variable {w w' : StateBags}

theorem same (h : w.Fresh) (hsame : SameBags w w') : w'.Fresh := by
  intro bag halive
  rw [hsame.idOf_eq] at halive
  rw [hsame.nextBag_eq]
  exact h bag halive

theorem acrossParts : AcrossParts fun w w' => w.Fresh → w'.Fresh where
  refl _ h := h
  trans h h' hfresh := h' (h hfresh)
  of_same hbags hnext _ h bag halive := by
    rw [idOf, hbags] at halive
    rw [hnext]
    exact h bag halive
  newStateBag w id h bag halive := by
    rw [Findable.idOf_newStateBag] at halive
    change bag < w.nextBag + 1
    split at halive
    · exact Nat.lt_succ_of_le (Eq.ge ‹_›)
    · exact (h bag halive).trans (Nat.lt_succ_self _)
  erase w bag h other halive := by
    refine h other fun hnone => halive ?_
    rw [idOf, Option.map_eq_none_iff] at hnone ⊢
    rw [TreeMap.getElem?_erase, hnone, ite_self]
  setKeyInternal hstep h := h.same (.setKeyInternal hstep)

theorem step {call : Call} (h : w.Fresh) (hstep : w.step call = some w') : w'.Fresh := by
  refine acrossParts.step hstep (fun hroutes h => ?_) h
  cases call with
  | setOwningPeer bag peer => exact h.same (.setOwningPeer hstep)
  | setRoutingTargets bag peers => exact h.same (.setRoutingTargets hstep)
  | addRoutingTarget bag peer => exact h.same (.addRoutingTarget hstep)
  | removeRoutingTarget bag peer =>
    cases hstep
    exact h.same (.removeRoutingTarget w bag peer)
  | registerTarget id => exact h.same (.registerTarget hstep)
  | unregisterTarget id =>
    cases hstep
    exact h.same (.unregisterTarget w id)
  | _ => cases hroutes

end Fresh

/-- Once a bag has a routing set, what is sent of it goes to the peers of that set only, as
long as no call takes the last of them. The calls before need no condition. Without it only
`run_scoped` is left, as an empty set stands for a broadcast. -/
theorem run_routed {role : StateBagRole} {bag : BagPtr} {b : StateBagImpl} {w w' : StateBags}
    {calls calls' : List Call} (hstart : Transition.Run step (fun _ _ => True) (create role) calls w)
    (hb : w.bags[bag]? = some b)
    (hrouted : b.routingTargets.isEmpty = false) (hrun : Transition.Run step (KeepsRouting bag) w calls' w') :
    ∃ new, w'.sends = w.sends ++ new ∧ ∀ s ∈ new, s.bag = bag → s.target ∈ s.routingTargets := by
  have hfresh : w.Fresh := by
    refine hstart.invariant Fresh (fun other halive => ?_) fun h _ hstep => h.step hstep
    exact absurd (by rw [idOf, create, TreeMap.getElem?_emptyc]; rfl) halive
  have hold : w.Routed bag := by
    refine ⟨hfresh bag (by simp [idOf, hb]), fun b' hb' => ?_⟩
    obtain rfl := Option.some.inj (hb.symm.trans hb')
    exact hrouted
  obtain ⟨-, new, heq, hnew⟩ := hrun.invariant (StaysRouted bag w) (.refl bag w)
    (fun hstays hok hstep => hstays.trans (.step hok hstep)) hold
  obtain ⟨new', heq', hscoped⟩ := run_scoped (hrun.mono fun _ _ _ => trivial)
  obtain rfl : new = new' := List.append_cancel_left (heq.symm.trans heq')
  refine ⟨new, heq, fun s hs hbag => ?_⟩
  have hscope := hscoped s hs
  rwa [QueuedSend.Scoped, if_neg (by simp [hnew s hs hbag])] at hscope

section Examples

/-- A value of the bag that goes to one peer. -/
private theorem setKey_one {w : StateBags} {peers : TreeSet Int} {target : Int}
    (hb : w.bags[(0 : BagPtr)]? = some { id := [112], routingTargets := peers })
    (hsized : w.dataBuffer.Sized bufferSize)
    (htargets : (w.effectiveTargets { id := [112], routingTargets := peers }).toList = [target]) :
    ∃ w' s, w.step (.setKey ⟨0, -1, [107], [118], true⟩ .unhandled) = some w' ∧ w'.sends = w.sends ++ [s] ∧
      s.bag = 0 ∧ s.target = target ∧ s.routingTargets = peers := by
  have hnew : ([118] : Str) ≠ (∅ : TreeMap Str Str).getD [107] [] := by decide
  have hfits : Fits [112] [107] [118] := by
    unfold Fits bufferSize
    decide
  obtain ⟨w', new, hstep, hsends, hall⟩ := setKey_sends ⟨0, -1, [107], [118], true⟩ hb rfl hnew hsized hfits
  change List.Forall₂ _ (w.effectiveTargets { id := [112], routingTargets := peers }).toList new at hall
  rw [htargets] at hall
  cases hall with
  | cons hsend hnil =>
    cases hnil
    exact ⟨w', _, hstep, hsends, hsend.bag_eq, hsend.target_eq, hsend.routingTargets_eq⟩

/-- Of two routed peers one leaves. The next value goes to the other, and not to peer 5. -/
theorem run_routed_left : ∃ (w w' : StateBags) (s : QueuedSend),
    Transition.Run step (fun _ _ => True) (create .server)
      [.registerStateBag [112], .registerTarget 5, .addRoutingTarget 0 1, .addRoutingTarget 0 2] w ∧
    Transition.Run step (KeepsRouting 0) w [.unregisterTarget 1, .setKey ⟨0, -1, [107], [118], true⟩ .unhandled] w' ∧
    w'.sends = w.sends ++ [s] ∧ s.bag = 0 ∧ s.target = 2 ∧ s.target ∈ s.routingTargets := by
  obtain ⟨w, hstart, hb, hsized, hb', htargets, hquiet⟩ : ∃ w, Transition.Run step (fun _ _ => True) (create .server)
      [.registerStateBag [112], .registerTarget 5, .addRoutingTarget 0 1, .addRoutingTarget 0 2] w ∧
      w.bags[(0 : BagPtr)]? = some { id := [112], routingTargets := ((∅ : TreeSet Int).insert 1).insert 2 } ∧
      (w.unregisterTarget 1).dataBuffer.Sized bufferSize ∧
      (w.unregisterTarget 1).bags[(0 : BagPtr)]? =
        some { id := [112], routingTargets := (((∅ : TreeSet Int).insert 1).insert 2).erase 1 } ∧
      ((w.unregisterTarget 1).effectiveTargets
        { id := [112], routingTargets := (((∅ : TreeSet Int).insert 1).insert 2).erase 1 }).toList = [2] ∧
      (w.unregisterTarget 1).sends = w.sends :=
    ⟨_, .cons trivial rfl (.cons trivial rfl (.cons trivial rfl (.cons trivial rfl (.nil _)))), rfl,
      (MessageBuffer.ofSize_written (by decide)).sized, rfl, rfl, rfl⟩
  obtain ⟨w', s, hset, hsends, hbag, htarget, -⟩ := setKey_one hb' hsized htargets
  rw [hquiet] at hsends
  have hkeeps : w.KeepsRouting 0 (.unregisterTarget 1) := by
    intro name b _ hlive
    obtain rfl := Option.some.inj (hb.symm.trans hlive)
    exact ⟨2, by decide, by decide⟩
  have hrun : Transition.Run step (KeepsRouting 0) w
      [.unregisterTarget 1, .setKey ⟨0, -1, [107], [118], true⟩ .unhandled] w' :=
    .cons hkeeps rfl (.cons trivial hset (.nil _))
  obtain ⟨new, hnew, hscoped⟩ := run_routed hstart hb rfl hrun
  obtain rfl : [s] = new := List.append_cancel_left (hsends.symm.trans hnew)
  exact ⟨w, w', s, hstart, hrun, hsends, hbag, htarget, hscoped s (List.mem_singleton_self s) hbag⟩

/-- The only routed peer leaves. The next value goes to peer 5, which the bag was never routed to. -/
theorem run_unscoped : ∃ (w w' : StateBags) (s : QueuedSend),
    Transition.Run step (fun _ _ => True) (create .server)
      [.registerStateBag [112], .registerTarget 5, .addRoutingTarget 0 1] w ∧
    (w.bags[(0 : BagPtr)]?.map (·.routingTargets.toList)) = some [1] ∧
    Transition.Run step (fun _ _ => True) w [.unregisterTarget 1, .setKey ⟨0, -1, [107], [118], true⟩ .unhandled] w' ∧
    w'.sends = w.sends ++ [s] ∧ s.bag = 0 ∧ s.target = 5 ∧ s.target ∉ s.routingTargets := by
  obtain ⟨w, hstart, hb, hsized, hb', htargets, hquiet⟩ : ∃ w, Transition.Run step (fun _ _ => True) (create .server)
      [.registerStateBag [112], .registerTarget 5, .addRoutingTarget 0 1] w ∧
      (w.bags[(0 : BagPtr)]?.map (·.routingTargets.toList)) = some [1] ∧
      (w.unregisterTarget 1).dataBuffer.Sized bufferSize ∧
      (w.unregisterTarget 1).bags[(0 : BagPtr)]? =
        some { id := [112], routingTargets := ((∅ : TreeSet Int).insert 1).erase 1 } ∧
      ((w.unregisterTarget 1).effectiveTargets
        { id := [112], routingTargets := ((∅ : TreeSet Int).insert 1).erase 1 }).toList = [5] ∧
      (w.unregisterTarget 1).sends = w.sends :=
    ⟨_, .cons trivial rfl (.cons trivial rfl (.cons trivial rfl (.nil _))), rfl,
      (MessageBuffer.ofSize_written (by decide)).sized, rfl, rfl, rfl⟩
  obtain ⟨w', s, hset, hsends, hbag, htarget, hrouting⟩ := setKey_one hb' hsized htargets
  rw [hquiet] at hsends
  refine ⟨w, w', s, hstart, hb, .cons trivial rfl (.cons trivial hset (.nil _)), hsends, hbag, htarget, ?_⟩
  rw [hrouting, htarget]
  decide

end Examples

end fx.StateBags
