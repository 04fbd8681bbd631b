import Citizen.StateBag.Lifetime

open Bits rl Std

namespace fx.StateBags

/-- The latest call of `SetKey` for a key of a bag. -/
def latestSetKey (w : StateBags) (bag : BagPtr) (key : Str) : Option SetKeyCall :=
  (w.setKeys.filter fun call => call.bag = bag ∧ call.key = key).getLast?

/-- The packet that was last sent to a peer for a key of a bag. -/
def lastSent (w : StateBags) (bag : BagPtr) (key : Str) (target : Int) : Option (List Byte) :=
  (w.sends.filter fun send => send.bag = bag ∧ send.key = key ∧ send.target = target).getLast?.map (·.packet)

/-- The send carries what the bag stores. -/
def Current (bag : BagPtr) (b : StateBagImpl) (send : QueuedSend) : Prop :=
  send.bag = bag → ∀ value, b.data[send.key]? = some value → send.packet = encode b.id send.key value

/-- Every value of the bag was sent to the peer. -/
def Covers (bag : BagPtr) (b : StateBagImpl) (target : Int) (new : List QueuedSend) : Prop :=
  ∀ key, b.data[key]? ≠ none → ∃ send ∈ new, send.bag = bag ∧ send.key = key ∧ send.target = target

/-- Sends of stored values keep the last send of every key up to date. -/
theorem lastSent_append {w w' : StateBags} {bag : BagPtr} {b : StateBagImpl} {new : List QueuedSend} {key value : Str}
    {target : Int} (hsends : w'.sends = w.sends ++ new) (hcurrent : ∀ send ∈ new, Current bag b send)
    (hvalue : b.data[key]? = some value)
    (h : w.lastSent bag key target = some (encode b.id key value) ∨
      ∃ send ∈ new, send.bag = bag ∧ send.key = key ∧ send.target = target) :
    w'.lastSent bag key target = some (encode b.id key value) := by
  rw [lastSent, hsends, List.filter_append, List.getLast?_append]
  cases hlast : (new.filter fun send => send.bag = bag ∧ send.key = key ∧ send.target = target).getLast? with
  | some send =>
    have hmem := List.mem_of_getLast? hlast
    rw [List.mem_filter, decide_eq_true_eq] at hmem
    obtain ⟨hin, hbag, rfl, -⟩ := hmem
    rw [Option.some_or, Option.map_some, hcurrent send hin hbag value hvalue]
  | none =>
    rw [List.getLast?_eq_none_iff] at hlast
    rw [Option.none_or]
    refine h.resolve_right ?_
    rintro ⟨send, hin, hmatch⟩
    have hmem : send ∈ new.filter fun send => send.bag = bag ∧ send.key = key ∧ send.target = target :=
      List.mem_filter.mpr ⟨hin, decide_eq_true hmatch⟩
    rw [hlast] at hmem
    cases hmem

/-- Every value of the bag fits a packet. -/
def AllFit (b : StateBagImpl) : Prop := ∀ key value, b.data[key]? = some value → Fits b.id key value

/-- A round that sends stored values of the bag `b` only, and all of them to `target` where
`due` holds. -/
structure Resent (bag : BagPtr) (b : StateBagImpl) (target : Int) (due : Prop) (w w' : StateBags)
    (new : List QueuedSend) :
    Prop where
  sends : Sends w w' new
  current : ∀ send ∈ new, Current bag b send
  covers : due → Covers bag b target new

theorem sendAll_resent {w w' : StateBags} {bag other : BagPtr} {b : StateBagImpl} {target : Int}
    (hb : w.bags[bag]? = some b) (hsized : w.dataBuffer.Sized bufferSize) (hfit : AllFit b)
    (h : w.sendAll other target = some w') : ∃ new, Resent bag b target (other = bag) w w' new := by
  obtain ⟨ob, hob, _⟩ := Option.bind_eq_some_iff.mp h
  obtain ⟨new, hnew, hall⟩ := sendAll_sends hob h
  refine ⟨new, hnew, fun send hsend hbag value hvalue => ?_, ?_⟩
  · obtain ⟨key, _, hof⟩ := exists_left_of_forall₂ hall hsend
    obtain rfl : other = bag := hof.bag_eq.symm.trans hbag
    obtain rfl : ob = b := Option.some.inj (hob.symm.trans hb)
    rw [hof.key_eq] at hvalue ⊢
    exact hof.packet_eq hsized value hvalue (hfit key value hvalue)
  · rintro rfl key hkey
    obtain rfl : ob = b := Option.some.inj (hob.symm.trans hb)
    have hmem : key ∈ ob.data.keys := by
      rw [TreeMap.mem_keys, TreeMap.mem_iff_isSome_getElem?]
      exact Option.isSome_iff_ne_none.mpr hkey
    obtain ⟨send, hsend, hof⟩ := exists_right_of_forall₂ hall hmem
    exact ⟨send, hsend, hof.bag_eq, hof.key_eq, hof.target_eq⟩

/-- Rounds one after the other. -/
theorem foldlM_resent {α : Type*} {f : StateBags → α → Option StateBags} (bag : BagPtr) {b : StateBagImpl}
    (target : α → Int) (due : α → Prop) {items : List α} {w w' : StateBags} (hb : w.bags[bag]? = some b)
    (hsized : w.dataBuffer.Sized bufferSize)
    (hround : ∀ {s : StateBags} {a : α} {s' : StateBags}, s.bags = w.bags → s.dataBuffer.Sized bufferSize →
      f s a = some s' → ∃ new, Resent bag b (target a) (due a) s s' new)
    (h : items.foldlM f w = some w') :
    ∃ new, Sends w w' new ∧ (∀ send ∈ new, Current bag b send) ∧ ∀ a ∈ items, due a → Covers bag b (target a) new := by
  induction items generalizing w with
  | nil =>
    cases h
    exact ⟨[], .refl _, by simp, by simp⟩
  | cons item items ih =>
    rw [List.foldlM_cons] at h
    obtain ⟨mid, hmid, hrest⟩ := Option.bind_eq_some_iff.mp h
    obtain ⟨first, hfirst⟩ := hround rfl hsized hmid
    have hbags := hfirst.sends.bags_eq
    obtain ⟨new, hnew, hcurrent, hcovers⟩ := ih (by rw [hbags, hb]) (hfirst.sends.sized hsized)
      (fun heq => hround (heq.trans hbags)) hrest
    refine ⟨first ++ new, hfirst.sends.trans hnew, fun send hsend => ?_, fun a ha hdue key hkey => ?_⟩
    · rcases List.mem_append.mp hsend with hsend | hsend
      · exact hfirst.current send hsend
      · exact hcurrent send hsend
    · rcases List.mem_cons.mp ha with rfl | ha
      · obtain ⟨send, hsend, hmatch⟩ := hfirst.covers hdue key hkey
        exact ⟨send, List.mem_append_left _ hsend, hmatch⟩
      · obtain ⟨send, hsend, hmatch⟩ := hcovers a ha hdue key hkey
        exact ⟨send, List.mem_append_right _ hsend, hmatch⟩

/-- What the replication of a bag rests on: the bag is in the map, its values and the
latest calls of `SetKey` agree, and every effective target has the values whose latest
call was replicated. -/
structure Converged (w : StateBags) (bag : BagPtr) (id : Str) (b : StateBagImpl) : Prop where
  stored : w.bags[bag]? = some b
  id_eq : b.id = id
  mapped : w.component.stateBags[id]? = some bag
  sized : w.dataBuffer.Sized bufferSize
  fits : AllFit b
  data_eq : ∀ key, b.data[key]? = (w.latestSetKey bag key).map (·.data)
  sent : ∀ key call, w.latestSetKey bag key = some call → call.replicated = true → ∀ target ∈ w.effectiveTargets b,
    w.lastSent bag key target = some (encode id key call.data)

/-- A step that sets no key of the bag, and sends the bag to every target it gains. -/
structure Rerouted (w w' : StateBags) (bag : BagPtr) (b b' : StateBagImpl) (new : List QueuedSend) : Prop where
  stored : w'.bags[bag]? = some b'
  id_eq : b'.id = b.id
  data_eq : b'.data = b.data
  stateBags_eq : w'.component.stateBags = w.component.stateBags
  latest_eq : ∀ key, w'.latestSetKey bag key = w.latestSetKey bag key
  sized : w'.dataBuffer.Sized bufferSize
  sends_eq : w'.sends = w.sends ++ new
  current : ∀ send ∈ new, Current bag b' send
  covers : ∀ target ∈ w'.effectiveTargets b', target ∈ w.effectiveTargets b ∨ Covers bag b' target new

theorem Converged.rerouted {w w' : StateBags} {bag : BagPtr} {id : Str} {b b' : StateBagImpl} {new : List QueuedSend}
    (h : w.Converged bag id b) (hstep : Rerouted w w' bag b b' new) : w'.Converged bag id b' := by
  have hdata : ∀ key, b'.data[key]? = (w.latestSetKey bag key).map (·.data) := by
    intro key
    rw [hstep.data_eq, h.data_eq]
  refine ⟨hstep.stored, hstep.id_eq.trans h.id_eq, by rw [hstep.stateBags_eq, h.mapped], hstep.sized,
    fun key value hvalue => ?_,
      fun key => by rw [hstep.latest_eq, hdata], fun key call hcall hrep target htarget => ?_⟩
  · rw [hstep.data_eq] at hvalue
    rw [hstep.id_eq]
    exact h.fits key value hvalue
  · rw [hstep.latest_eq] at hcall
    have hvalue : b'.data[key]? = some call.data := by rw [hdata, hcall, Option.map_some]
    have hid : b'.id = id := hstep.id_eq.trans h.id_eq
    rw [← hid]
    refine lastSent_append hstep.sends_eq hstep.current hvalue ?_
    rcases hstep.covers target htarget with hold | hcovers
    · exact .inl (by rw [hid]; exact h.sent key call hcall hrep target hold)
    · exact .inr (hcovers key (by rw [hvalue]; exact Option.some_ne_none _))

/-- The first half of such a step: the routing changes, and nothing is sent yet. -/
structure Redirected (w w' : StateBags) (bag : BagPtr) (b b' : StateBagImpl) : Prop where
  stored : w'.bags[bag]? = some b'
  id_eq : b'.id = b.id
  data_eq : b'.data = b.data
  stateBags_eq : w'.component.stateBags = w.component.stateBags
  setKeys_eq : w'.setKeys = w.setKeys
  dataBuffer_eq : w'.dataBuffer = w.dataBuffer
  sends_eq : w'.sends = w.sends

theorem effectiveTargets_congr {w w' : StateBags} {b : StateBagImpl} (h : w'.component.targets = w.component.targets) :
    w'.effectiveTargets b = w.effectiveTargets b := by
  rw [effectiveTargets, effectiveTargets, h]

theorem Redirected.rerouted {w mid w' : StateBags} {bag : BagPtr} {b b' : StateBagImpl} {new : List QueuedSend}
    (h : Redirected w mid bag b b') (hsized : w.dataBuffer.Sized bufferSize) (hsends : Sends mid w' new)
    (hcurrent : ∀ send ∈ new, Current bag b' send)
    (hcovers : ∀ target ∈ mid.effectiveTargets b', target ∈ w.effectiveTargets b ∨ Covers bag b' target new) :
    Rerouted w w' bag b b' new where
  stored := by rw [hsends.bags_eq, h.stored]
  id_eq := h.id_eq
  data_eq := h.data_eq
  stateBags_eq := by rw [hsends.component_eq, h.stateBags_eq]
  latest_eq key := by rw [latestSetKey, hsends.eq, h.setKeys_eq, latestSetKey]
  sized := hsends.sized (by rwa [h.dataBuffer_eq])
  sends_eq := by rw [hsends.sends_eq, h.sends_eq]
  current := hcurrent
  covers target htarget := by
    rw [effectiveTargets_congr (congrArg StateBagComponentImpl.targets hsends.component_eq)] at htarget
    exact hcovers target htarget

/-- A change of the routing of some bag. -/
theorem redirected_setBag {w : StateBags} {bag other : BagPtr} {b ob : StateBagImpl} (ob' : StateBagImpl)
    (hb : w.bags[bag]? = some b) (hob : w.bags[other]? = some ob) (hid : ob'.id = ob.id) (hdata : ob'.data = ob.data) :
    ∃ b', Redirected w (w.setBag other ob') bag b b' ∧ (other = bag → ob = b ∧ b' = ob') ∧ (other ≠ bag → b' = b) := by
  by_cases hother : other = bag
  · subst hother
    obtain rfl : ob = b := Option.some.inj (hob.symm.trans hb)
    exact ⟨ob', ⟨by rw [setBag, TreeMap.getElem?_insert_self], hid, hdata, rfl, rfl, rfl, rfl⟩, fun _ => ⟨rfl, rfl⟩,
      fun hne => absurd rfl hne⟩
  · refine ⟨b, ⟨?_, rfl, rfl, rfl, rfl, rfl, rfl⟩, fun heq => absurd heq hother, fun _ => rfl⟩
    rw [setBag, TreeMap.getElem?_insert, if_neg (by rwa [LawfulEqCmp.compare_eq_iff_eq]), hb]

/-- The routing set of a bag is empty in both states or in neither. -/
def SameMode (w w' : StateBags) (bag : BagPtr) : Prop :=
  w'.bags[bag]?.map (·.routingTargets.isEmpty) = w.bags[bag]?.map (·.routingTargets.isEmpty)

theorem SameMode.eq {w w' : StateBags} {bag : BagPtr} {b b' : StateBagImpl} (h : SameMode w w' bag)
    (hb : w.bags[bag]? = some b) (hb' : w'.bags[bag]? = some b') :
    b'.routingTargets.isEmpty = b.routingTargets.isEmpty := by
  rw [SameMode, hb, hb'] at h
  exact Option.some.inj h

/-- In one mode, an effective target stays one or is a routing target that was added. -/
theorem mem_effectiveTargets_or {w mid : StateBags} {b b' : StateBagImpl} {target : Int}
    (hmode : b'.routingTargets.isEmpty = b.routingTargets.isEmpty)
    (htargets : mid.component.targets = w.component.targets)
    (h : target ∈ mid.effectiveTargets b') :
    target ∈ w.effectiveTargets b ∨ target ∈ b'.routingTargets ∧ target ∉ b.routingTargets := by
  rw [effectiveTargets, htargets, hmode] at h
  rw [effectiveTargets]
  split at h
  · rename_i hempty
    exact .inl (by rwa [if_pos hempty])
  · rename_i hempty
    rw [if_neg hempty]
    tauto

section Steps

variable {w w' : StateBags} {bag : BagPtr} {id : Str} {b : StateBagImpl}

theorem Converged.setRoutingTargets (h : w.Converged bag id b) {other : BagPtr} {peers : TreeSet Int}
    (hstep : w.setRoutingTargets other peers = some w') (hmode : SameMode w w' bag) :
    ∃ b', w'.Converged bag id b' := by
  obtain ⟨ob, hob, hstep⟩ := Option.bind_eq_some_iff.mp hstep
  obtain ⟨b', hredirected, hsame, hother⟩ := redirected_setBag { ob with routingTargets := peers } h.stored hob rfl rfl
  have hfit : AllFit b' := fun key value hvalue => by
    rw [hredirected.id_eq]
    exact h.fits key value (by rwa [← hredirected.data_eq])
  obtain ⟨new, hnew, hcurrent, hcovers⟩ := foldlM_resent bag (fun target => target)
    (fun _ => other = bag) hredirected.stored h.sized (fun {s target s'} hbags hsized hs =>
      sendAll_resent (by rw [hbags, hredirected.stored]) hsized hfit hs) hstep
  refine ⟨b', h.rerouted (hredirected.rerouted h.sized hnew hcurrent fun target htarget => ?_)⟩
  have hkept := hmode.eq h.stored (by rw [hnew.bags_eq, hredirected.stored])
  refine (mem_effectiveTargets_or hkept rfl htarget).imp_right fun hadded => ?_
  by_cases heq : other = bag
  · obtain ⟨rfl, rfl⟩ := hsame heq
    refine hcovers target ?_ heq
    rw [List.mem_filter, TreeSet.mem_toList]
    exact ⟨hadded.1, decide_eq_true hadded.2⟩
  · rw [hother heq] at hadded
    exact absurd hadded.1 hadded.2

theorem Converged.addRoutingTarget (h : w.Converged bag id b) {other : BagPtr} {peer : Int}
    (hstep : w.addRoutingTarget other peer = some w') (hmode : SameMode w w' bag) : ∃ b', w'.Converged bag id b' := by
  obtain ⟨ob, hob, hstep⟩ := Option.bind_eq_some_iff.mp hstep
  obtain ⟨b', hredirected, hsame, hother⟩ := redirected_setBag
    { ob with routingTargets := ob.routingTargets.insert peer } h.stored hob rfl rfl
  have hfit : AllFit b' := fun key value hvalue => by
    rw [hredirected.id_eq]
    exact h.fits key value (by rwa [← hredirected.data_eq])
  have hadded : ∀ target, target ∈ b'.routingTargets ∧ target ∉ b.routingTargets →
      other = bag ∧ target = peer ∧ peer ∉ ob.routingTargets := by
    rintro target ⟨hin, hout⟩
    by_cases heq : other = bag
    · obtain ⟨rfl, rfl⟩ := hsame heq
      rcases TreeSet.mem_insert.mp hin with hpeer | hin
      · obtain rfl := LawfulEqCmp.eq_of_compare hpeer
        exact ⟨heq, rfl, hout⟩
      · exact absurd hin hout
    · rw [hother heq] at hin
      exact absurd hin hout
  dsimp only at hstep
  split at hstep
  · rename_i hold
    cases hstep
    refine ⟨b', h.rerouted (hredirected.rerouted h.sized (.refl _) (by simp) fun target htarget => ?_)⟩
    refine (mem_effectiveTargets_or (hmode.eq h.stored hredirected.stored) rfl htarget).imp_right fun hnew => ?_
    exact absurd hold (hadded target hnew).2.2
  · obtain ⟨new, hnew⟩ := sendAll_resent hredirected.stored h.sized hfit hstep
    refine ⟨b', h.rerouted (hredirected.rerouted h.sized hnew.sends hnew.current fun target htarget => ?_)⟩
    have hkept := hmode.eq h.stored (by rw [hnew.sends.bags_eq, hredirected.stored])
    refine (mem_effectiveTargets_or hkept rfl htarget).imp_right fun hin => ?_
    obtain ⟨heq, rfl, _⟩ := hadded target hin
    exact hnew.covers heq

theorem redirected_removeRoutingTarget (w : StateBags) {bag : BagPtr} {b : StateBagImpl} (hb : w.bags[bag]? = some b)
    (other : BagPtr) (peer : Int) : ∃ b', Redirected w (w.removeRoutingTarget other peer) bag b b' ∧
      (∀ target, target ∈ b'.routingTargets → target ∈ b.routingTargets) ∧
      (w.removeRoutingTarget other peer).component = w.component := by
  rw [removeRoutingTarget]
  cases hob : w.bags[other]? with
  | none => exact ⟨b, ⟨hb, rfl, rfl, rfl, rfl, rfl, rfl⟩, fun _ hin => hin, rfl⟩
  | some ob =>
    obtain ⟨b', hredirected, hsame, hother⟩ := redirected_setBag
      { ob with routingTargets := ob.routingTargets.erase peer } hb hob rfl rfl
    refine ⟨b', hredirected, fun target hin => ?_, rfl⟩
    by_cases heq : other = bag
    · obtain ⟨rfl, rfl⟩ := hsame heq
      exact TreeSet.mem_of_mem_erase hin
    · rwa [hother heq] at hin

theorem Converged.removeRoutingTarget (h : w.Converged bag id b) (other : BagPtr) (peer : Int)
    (hmode : SameMode w (w.removeRoutingTarget other peer) bag) :
    ∃ b', (w.removeRoutingTarget other peer).Converged bag id b' := by
  obtain ⟨b', hredirected, hsubset, hcomponent⟩ := redirected_removeRoutingTarget w h.stored other peer
  refine ⟨b', h.rerouted (hredirected.rerouted h.sized (.refl _) (by simp) fun target htarget => ?_)⟩
  refine (mem_effectiveTargets_or (hmode.eq h.stored hredirected.stored) (by rw [hcomponent]) htarget).imp_right
    fun hin => ?_
  exact absurd (hsubset target hin.1) hin.2

theorem Converged.unregisterTarget (h : w.Converged bag id b) (peer : Int)
    (hmode : SameMode w (w.unregisterTarget peer) bag) : ∃ b', (w.unregisterTarget peer).Converged bag id b' := by
  have hloop : ∀ (bags : List BagPtr) (s : StateBags) (sb : StateBagImpl), Redirected w s bag b sb →
      (∀ target ∈ sb.routingTargets, target ∈ b.routingTargets) → ∃ b',
        Redirected w (bags.foldl (fun w bag => w.removeRoutingTarget bag peer) s) bag b b' ∧
        (∀ target ∈ b'.routingTargets, target ∈ b.routingTargets) ∧
        (bags.foldl (fun w bag => w.removeRoutingTarget bag peer) s).component = s.component := by
    intro bags
    induction bags with
    | nil => exact fun s sb hs hsubset => ⟨sb, hs, hsubset, rfl⟩
    | cons other bags ih =>
      intro s sb hs hsubset
      obtain ⟨mb, hm, hmsubset, hcomponent⟩ := redirected_removeRoutingTarget s hs.stored other peer
      obtain ⟨b', hb', hb'subset, hcomponent'⟩ := ih _ mb
        ⟨hm.stored, hm.id_eq.trans hs.id_eq, hm.data_eq.trans hs.data_eq, hm.stateBags_eq.trans hs.stateBags_eq,
          hm.setKeys_eq.trans hs.setKeys_eq, hm.dataBuffer_eq.trans hs.dataBuffer_eq, hm.sends_eq.trans hs.sends_eq⟩
        fun target hin => hsubset target (hmsubset target hin)
      exact ⟨b', hb', hb'subset, hcomponent'.trans hcomponent⟩
  obtain ⟨b', hredirected, hsubset, hcomponent⟩ := hloop
    ((w.component.stateBags.toList.filterMap fun entry =>
      { w with component := { w.component with targets := w.component.targets.erase peer } }.lock entry.2))
    { w with component := { w.component with targets := w.component.targets.erase peer } } b
    ⟨h.stored, rfl, rfl, rfl, rfl, rfl, rfl⟩ fun _ hin => hin
  change Redirected w (w.unregisterTarget peer) bag b b' at hredirected
  change (w.unregisterTarget peer).component = _ at hcomponent
  refine ⟨b', h.rerouted (hredirected.rerouted h.sized (.refl _) (by simp) fun target htarget => .inl ?_)⟩
  have hkept := hmode.eq h.stored hredirected.stored
  rw [effectiveTargets, hcomponent, hkept] at htarget
  rw [effectiveTargets]
  split at htarget
  · rename_i hempty
    rw [if_pos hempty]
    exact TreeSet.mem_of_mem_erase htarget
  · rename_i hempty
    rw [if_neg hempty]
    exact hsubset target htarget

theorem Converged.registerTarget (h : w.Converged bag id b) {target : Int}
    (hstep : w.registerTarget target = some w') :
    ∃ b', w'.Converged bag id b' := by
  rw [StateBags.registerTarget] at hstep
  split at hstep
  · cases hstep
    exact ⟨b, h⟩
  · dsimp only at hstep
    have hredirected : Redirected w
        { w with component := { w.component with targets := w.component.targets.insert target } } bag b b :=
          ⟨h.stored, rfl, rfl, rfl, rfl, rfl, rfl⟩
    have hround : ∀ {s : StateBags} {other : BagPtr} {s' : StateBags}, s.bags = w.bags →
        s.dataBuffer.Sized bufferSize → s.sendAllInitial other target = some s' → ∃ new,
          Resent bag b target (other = bag ∧ (b.routingTargets.isEmpty ∨ target ∈ b.routingTargets)) s s' new := by
      intro s other s' hbags hsized hs
      obtain ⟨ob, hob, _⟩ := Option.bind_eq_some_iff.mp hs
      rw [sendAllInitial, hob, Option.bind_eq_bind, Option.bind_some] at hs
      have hb : s.bags[bag]? = some b := by rw [hbags, h.stored]
      split at hs
      · rename_i hout
        cases hs
        refine ⟨[], .refl _, by simp, ?_⟩
        rintro ⟨rfl, hin⟩
        obtain rfl : ob = b := Option.some.inj (hob.symm.trans hb)
        rcases hin with hempty | hin
        · exact absurd hempty hout.1
        · exact absurd hin hout.2
      · obtain ⟨new, hnew⟩ := sendAll_resent hb hsized h.fits hs
        exact ⟨new, hnew.sends, hnew.current, fun hdue => hnew.covers hdue.1⟩
    obtain ⟨new, hnew, hcurrent, hcovers⟩ := foldlM_resent bag (fun _ => target)
      (fun other => other = bag ∧ (b.routingTargets.isEmpty ∨ target ∈ b.routingTargets)) hredirected.stored h.sized
      (fun hbags hsized hs => hround hbags hsized hs) hstep
    refine ⟨b, h.rerouted (hredirected.rerouted h.sized hnew hcurrent fun t ht => ?_)⟩
    rw [effectiveTargets] at ht
    rw [effectiveTargets]
    split at ht
    · rename_i hempty
      rw [if_pos hempty]
      rcases TreeSet.mem_insert.mp ht with heq | ht
      · obtain rfl := LawfulEqCmp.eq_of_compare heq
        refine .inr (hcovers bag ?_ ⟨rfl, .inl hempty⟩)
        rw [List.mem_filterMap]
        refine ⟨(id, bag), TreeMap.mem_toList_iff_getElem?_eq_some.mpr h.mapped, ?_⟩
        rw [lock, if_pos]
        rw [TreeMap.mem_iff_isSome_getElem?, h.stored]
        rfl
      · exact .inl ht
    · rename_i hempty
      exact .inl (by rwa [if_neg hempty])

/-- The latest call for a key after one more call. -/
theorem latestSetKey_append (call : SetKeyCall) (hlog : w'.setKeys = w.setKeys ++ [call]) (bag : BagPtr) (key : Str) :
    w'.latestSetKey bag key = if call.bag = bag ∧ call.key = key then some call else w.latestSetKey bag key := by
  rw [latestSetKey, hlog, List.filter_append, List.getLast?_append]
  by_cases hmatch : call.bag = bag ∧ call.key = key
  · rw [if_pos hmatch, List.filter_cons, if_pos (decide_eq_true hmatch)]
    rfl
  · rw [if_neg hmatch, List.filter_cons, if_neg (by simpa using hmatch)]
    rfl

/-- A call that `SetKey` does not answer with a send, because the value is the stored one,
or there is none and the value is empty, has a replicated call before it. -/
def SeenBefore (w : StateBags) (call : SetKeyCall) : Prop :=
  ∀ b, w.bags[call.bag]? = some b → call.replicated = true → call.data = b.data.getD call.key [] →
    ∃ latest, w.latestSetKey call.bag call.key = some latest ∧ latest.replicated = true

theorem setKey_cases {call : SetKeyCall} {ob : StateBagImpl} (hob : w.bags[call.bag]? = some ob)
    (hstep : w.setKey call .unhandled = some w') :
    ∃ new, Sends ({ w with setKeys := w.setKeys ++ [call] }.setBag call.bag
        { ob with data := ob.data.insert call.key call.data }) w' new ∧
      if call.replicated = true ∧ call.data ≠ ob.data.getD call.key [] then
        List.Forall₂ (fun target send =>
          SendOf w call.bag { ob with data := ob.data.insert call.key call.data } target call.key send)
          (w.effectiveTargets ob).toList new
      else new = [] := by
  rw [StateBags.setKey, hob, Option.bind_eq_bind, Option.bind_some] at hstep
  dsimp only at hstep
  rw [setKeyInternal, hob, Option.bind_eq_bind, Option.bind_some] at hstep
  dsimp only at hstep
  have hcond : (call.replicated = true ∧ call.data ≠ if call.replicated then ob.data.getD call.key [] else []) ↔
      call.replicated = true ∧ call.data ≠ ob.data.getD call.key [] := by
    refine and_congr_right fun hrep => ?_
    rw [if_pos hrep]
  by_cases hsend : call.replicated = true ∧ call.data ≠ ob.data.getD call.key []
  · rw [if_pos (hcond.mpr hsend)] at hstep
    have hset : ({ w with setKeys := w.setKeys ++ [call] }.setBag call.bag
        { ob with data := ob.data.insert call.key call.data }).bags[call.bag]? =
        some { ob with data := ob.data.insert call.key call.data } := by
      rw [setBag, TreeMap.getElem?_insert_self]
    obtain ⟨new, hnew, hall⟩ := sendKeyAll_sends hset (by simp) hstep
    refine ⟨new, hnew, ?_⟩
    rw [if_pos hsend]
    exact hall.imp fun _ _ hof =>
      ⟨hof.target_eq, hof.bag_eq, hof.key_eq, hof.routingTargets_eq, hof.targets_eq, hof.packet_eq⟩
  · rw [if_neg (mt hcond.mp hsend)] at hstep
    cases hstep
    exact ⟨[], .refl _, by rw [if_neg hsend]⟩

/-- A call for another bag. -/
theorem Converged.setKey_other (h : w.Converged bag id b) {call : SetKeyCall} (hne : call.bag ≠ bag)
    (hstep : w.setKey call .unhandled = some w') : w'.Converged bag id b := by
  obtain ⟨ob, hob, _⟩ := Option.bind_eq_some_iff.mp hstep
  obtain ⟨new, hnew, hsent⟩ := setKey_cases hob hstep
  have hother : ∀ send ∈ new, send.bag ≠ bag := by
    intro send hsend
    split at hsent
    · obtain ⟨target, _, hof⟩ := exists_left_of_forall₂ hsent hsend
      rwa [hof.bag_eq]
    · rw [hsent] at hsend
      cases hsend
  refine h.rerouted ⟨?_, rfl, rfl, by rw [hnew.component_eq]; rfl, fun key => ?_, hnew.sized h.sized, hnew.sends_eq,
    fun send hsend hbag => absurd hbag (hother send hsend), fun target htarget => .inl ?_⟩
  · rw [hnew.bags_eq, setBag, TreeMap.getElem?_insert, if_neg (by rwa [LawfulEqCmp.compare_eq_iff_eq]), h.stored]
  · rw [latestSetKey_append call (w := w) (by rw [hnew.eq]; rfl), if_neg (fun hmatch => hne hmatch.1)]
  · rwa [effectiveTargets, hnew.component_eq] at htarget

/-- A call for the bag itself. -/
theorem Converged.setKey_self (h : w.Converged bag id b) {call : SetKeyCall} (hself : call.bag = bag)
    (hseen : w.SeenBefore call) (hfits : Fits id call.key call.data) (hstep : w.setKey call .unhandled = some w') :
    w'.Converged bag id { b with data := b.data.insert call.key call.data } := by
  subst hself
  obtain ⟨new, hnew, hsent⟩ := setKey_cases h.stored hstep
  have hlatest : ∀ key, w'.latestSetKey call.bag key = if call.key = key then some call
    else w.latestSetKey call.bag key := by
    intro key
    rw [latestSetKey_append call (w := w) (by rw [hnew.eq]; rfl)]
    simp
  have hdata : ∀ key, (b.data.insert call.key call.data)[key]? = if call.key = key then some call.data
    else b.data[key]? := by
    intro key
    rw [TreeMap.getElem?_insert]
    simp only [LawfulEqCmp.compare_eq_iff_eq]
  have hfit : AllFit { b with data := b.data.insert call.key call.data } := by
    intro key value hvalue
    rw [hdata] at hvalue
    split at hvalue
    · rename_i hkey
      subst hkey
      cases hvalue
      rw [← h.id_eq] at hfits
      exact hfits
    · exact h.fits key value hvalue
  have hcurrent : ∀ send ∈ new, Current call.bag { b with data := b.data.insert call.key call.data } send := by
    intro send hsend _ value hvalue
    split at hsent
    · obtain ⟨target, _, hof⟩ := exists_left_of_forall₂ hsent hsend
      rw [hof.key_eq] at hvalue ⊢
      exact hof.packet_eq h.sized value hvalue (hfit _ _ hvalue)
    · rw [hsent] at hsend
      cases hsend
  refine ⟨by rw [hnew.bags_eq, setBag,
    TreeMap.getElem?_insert_self], h.id_eq,
      by rw [hnew.component_eq]; exact h.mapped, hnew.sized h.sized, hfit, fun key => ?_,
      fun key latest hcall hrep target htarget => ?_⟩
  · rw [hlatest, hdata]
    split
    · rfl
    · exact h.data_eq key
  · replace htarget : target ∈ w.effectiveTargets b := by rwa [effectiveTargets, hnew.component_eq] at htarget
    have hvalue : (b.data.insert call.key call.data)[key]? = some latest.data := by
      rw [hdata]
      rw [hlatest] at hcall
      split at hcall
      · cases hcall
        rw [if_pos ‹_›]
      · rw [if_neg ‹_›, h.data_eq, hcall, Option.map_some]
    rw [← h.id_eq]
    refine lastSent_append (b := { b with data := b.data.insert call.key call.data }) hnew.sends_eq hcurrent hvalue ?_
    rw [hlatest] at hcall
    by_cases hkey : call.key = key
    · subst hkey
      rw [if_pos rfl] at hcall
      cases hcall
      by_cases hnewValue : call.data ≠ b.data.getD call.key []
      · rw [if_pos ⟨hrep, hnewValue⟩] at hsent
        obtain ⟨send, hsend, hof⟩ := exists_right_of_forall₂ hsent (TreeSet.mem_toList.mpr htarget)
        exact .inr ⟨send, hsend, hof.bag_eq, hof.key_eq, hof.target_eq⟩
      · have hsame : call.data = b.data.getD call.key [] := not_not.mp hnewValue
        obtain ⟨before, hbefore, hbeforeRep⟩ := hseen b h.stored hrep hsame
        have hstored : b.data[call.key]? = some before.data := by rw [h.data_eq, hbefore, Option.map_some]
        have heq : call.data = before.data := by
          rw [hsame, TreeMap.getD_eq_getD_getElem?, hstored, Option.getD_some]
        refine .inl ?_
        have hold := h.sent call.key before hbefore hbeforeRep target htarget
        rw [heq, h.id_eq]
        exact hold
    · rw [if_neg hkey] at hcall
      have hold := h.sent key latest hcall hrep target htarget
      refine .inl ?_
      rw [h.id_eq]
      exact hold

end Steps

/-- The steps of a run: keys that fit are set with no change handler, and the routing and
broadcast targets change, but no routing set is emptied or filled from empty; and every
suppressed call was seen before. -/
def Replicates (bag : BagPtr) (id : Str) (w : StateBags) : Call → Prop
  | .setKey call change => change = .unhandled ∧ (call.bag = bag → Fits id call.key call.data ∧ w.SeenBefore call)
  | .addRoutingTarget other peer => ∀ w', w.addRoutingTarget other peer = some w' → SameMode w w' bag
  | .removeRoutingTarget other peer => SameMode w (w.removeRoutingTarget other peer) bag
  | .setRoutingTargets other peers => ∀ w', w.setRoutingTargets other peers = some w' → SameMode w w' bag
  | .registerTarget _ => True
  | .unregisterTarget target => SameMode w (w.unregisterTarget target) bag
  | _ => False

theorem Converged.step {w w' : StateBags} {bag : BagPtr} {id : Str} {b : StateBagImpl} {call : Call}
    (h : w.Converged bag id b) (hok : Replicates bag id w call) (hstep : w.step call = some w') :
    ∃ b', w'.Converged bag id b' := by
  cases call with
  | setKey call change =>
    obtain ⟨rfl, hself⟩ := hok
    by_cases hbag : call.bag = bag
    · exact ⟨_, h.setKey_self hbag (hself hbag).2 (hself hbag).1 hstep⟩
    · exact ⟨b, h.setKey_other hbag hstep⟩
  | addRoutingTarget other peer => exact h.addRoutingTarget hstep (hok w' hstep)
  | removeRoutingTarget other peer =>
    cases hstep
    exact h.removeRoutingTarget other peer hok
  | setRoutingTargets other peers => exact h.setRoutingTargets hstep (hok w' hstep)
  | registerTarget target => exact h.registerTarget hstep
  | unregisterTarget target =>
    cases hstep
    exact h.unregisterTarget target hok
  | registerStateBag _ => exact False.elim hok
  | drop _ => exact False.elim hok
  | runTask _ => exact False.elim hok
  | setOwningPeer _ _ => exact False.elim hok
  | addSafePreCreatePrefix _ => exact False.elim hok
  | handlePacket _ _ _ => exact False.elim hok
  | onTick => exact False.elim hok
  | reset => exact False.elim hok

/-- From a bag without values, in every run that suppresses a replicated call only after
another replicated one, what was last sent to each target for a key whose latest call was
replicated is the stored value. -/
theorem replicated_lastSent {w w' : StateBags} {bag : BagPtr} {b : StateBagImpl} {calls : List Call}
    (hb : w.bags[bag]? = some b) (hmapped : w.component.stateBags[b.id]? = some bag)
    (hsized : w.dataBuffer.Sized bufferSize)
    (hempty : ∀ key : Str, b.data[key]? = none) (hfresh : ∀ call ∈ w.setKeys, call.bag ≠ bag)
    (hrun : Transition.Run step (Replicates bag b.id) w calls w') :
    ∃ b', w'.bags[bag]? = some b' ∧ ∀ key call, w'.latestSetKey bag key = some call → call.replicated = true →
      b'.data[key]? = some call.data ∧
        ∀ target ∈ w'.effectiveTargets b', w'.lastSent bag key target = some (encode b.id key call.data) := by
  have hnone : ∀ key, w.latestSetKey bag key = none := by
    intro key
    rw [latestSetKey, List.getLast?_eq_none_iff, List.filter_eq_nil_iff]
    intro call hcall
    simp [hfresh call hcall]
  have hstart : w.Converged bag b.id b := by
    refine ⟨hb, rfl, hmapped, hsized, fun key value hvalue => ?_,
      fun key => by rw [hempty, hnone]; rfl, fun key call hcall => ?_⟩
    · rw [hempty] at hvalue
      cases hvalue
    · rw [hnone] at hcall
      cases hcall
  obtain ⟨b', hend⟩ := hrun.invariant (fun s => ∃ b', s.Converged bag b.id b') ⟨b, hstart⟩
    fun ⟨_, h⟩ hok hstep => h.step hok hstep
  exact ⟨b', hend.stored, fun key call hcall hrep =>
    ⟨by rw [hend.data_eq, hcall, Option.map_some], hend.sent key call hcall hrep⟩⟩

/-- A component with one bag without values and one broadcast target. -/
def oneTarget : StateBags :=
  { create .server with
    component := {
      role := .server
      targets := (∅ : TreeSet Int).insert 5
      stateBags := (∅ : TreeMap Str BagPtr).insert [112] 0 }
    bags := (∅ : TreeMap BagPtr StateBagImpl).insert 0 { id := [112] } }

private theorem oneTarget_sized : oneTarget.dataBuffer.Sized bufferSize :=
    (MessageBuffer.ofSize_written (by decide)).sized

theorem replicated_lastSent_first : ∃ w' : StateBags,
    oneTarget.step (.setKey ⟨0, -1, [107], [118], true⟩ .unhandled) = some w' ∧
      w'.lastSent 0 [107] 5 = some (encode [112] [107] [118]) := by
  have hb : oneTarget.bags[(0 : BagPtr)]? = some { id := [112] } := rfl
  have hfits : Fits [112] [107] [118] := by
    unfold Fits bufferSize
    decide
  have hnew : ([118] : Str) ≠ (∅ : TreeMap Str Str).getD [107] [] := by decide
  obtain ⟨w', new, hstep, -, -⟩ := setKey_sends ⟨0, -1, [107], [118], true⟩ hb rfl hnew oneTarget_sized hfits
  have hrun : Transition.Run step (Replicates 0 [112]) oneTarget [.setKey ⟨0, -1, [107], [118], true⟩ .unhandled] w' :=
    .cons ⟨rfl, fun _ => ⟨hfits, fun b hb' _ hsame =>
      absurd hsame (by cases hb.symm.trans hb'; exact hnew)⟩⟩ hstep (.nil _)
  obtain ⟨b', hb', hall⟩ := replicated_lastSent hb rfl oneTarget_sized (fun _ => TreeMap.getElem?_emptyc)
    (fun _ hcall => nomatch hcall) hrun
  obtain ⟨sent, hsent, -⟩ := setKey_cases hb hstep
  have hlatest : w'.latestSetKey 0 [107] = some ⟨0, -1, [107], [118], true⟩ := by
    rw [latestSetKey_append ⟨0, -1, [107], [118], true⟩ (w := oneTarget) (by rw [hsent.eq]; rfl),
      if_pos ⟨rfl, rfl⟩]
  refine ⟨w', hstep, (hall [107] _ hlatest rfl).2 5 ?_⟩
  rw [hsent.bags_eq, setBag, TreeMap.getElem?_insert_self] at hb'
  cases hb'
  rw [effectiveTargets, hsent.component_eq, if_pos (by decide)]
  exact TreeSet.mem_insert_self

/-- A value set without replication and then with it is never sent. -/
theorem replicated_unsent : ∃ w' : StateBags,
    Transition.Run step (fun _ _ => True) oneTarget [.setKey ⟨0, -1, [107], [118], false⟩ .unhandled,
      .setKey ⟨0, -1, [107], [118], true⟩ .unhandled] w' ∧
      w'.latestSetKey 0 [107] = some ⟨0, -1, [107], [118], true⟩ ∧
      (w'.bags[(0 : BagPtr)]?.map fun b => (w'.effectiveTargets b).toList) = some [5] ∧ w'.lastSent 0 [107] 5 = none :=
  ⟨_, .cons trivial rfl (.cons trivial rfl (.nil _)), rfl, rfl, rfl⟩

end fx.StateBags
