import Citizen.StateBag.Lifetime

open Bits rl Std

namespace fx

namespace StateBags

/-- The call is on the routing sets, the targets or the owner of a bag. -/
def Call.routes : Call → Bool
  | .setOwningPeer .. | .setRoutingTargets .. | .addRoutingTarget .. | .removeRoutingTarget .. => true
  | .registerTarget _ | .unregisterTarget _ => true
  | _ => false

/-- A relation that holds across what the other calls are made of: bookkeeping, a bag that is made or destroyed, and
`SetKeyInternal`. -/
structure AcrossParts (R : StateBags → StateBags → Prop) : Prop where
  refl : ∀ w, R w w
  trans : ∀ {w mid w'}, R w mid → R mid w' → R w w'
  of_same : ∀ {w w' : StateBags}, w'.bags = w.bags → w'.nextBag = w.nextBag → w'.sends = w.sends → R w w'
  newStateBag : ∀ (w : StateBags) (id : Str), R w (w.newStateBag id)
  erase : ∀ (w : StateBags) (bag : BagPtr), R w { w with bags := w.bags.erase bag }
  setKeyInternal : ∀ {w : StateBags} {call : SetKeyCall} {w'}, w.setKeyInternal call = some w' → R w w'

namespace AcrossParts

variable {R : StateBags → StateBags → Prop} {w w' : StateBags}

theorem release (h : AcrossParts R) (w : StateBags) (bag : BagPtr) : R w (w.release bag) := by
  rw [StateBags.release]
  split
  · exact h.refl w
  · split
    · exact h.trans (h.erase w bag) (h.of_same rfl rfl rfl)
    · exact h.refl w

theorem registerStateBag (h : AcrossParts R) (w : StateBags) (id : Str) : R w (w.registerStateBag id).2 := by
  rw [StateBags.registerStateBag]
  split
  · exact h.of_same rfl rfl rfl
  · exact h.newStateBag w id

theorem setKey (h : AcrossParts R) {call : SetKeyCall} {change : StateBagChange}
    (hstep : w.setKey call change = some w') : R w w' := by
  obtain ⟨b, _, hstep⟩ := Option.bind_eq_some_iff.mp hstep
  have hlog : R w { w with setKeys := w.setKeys ++ [call] } := h.of_same rfl rfl rfl
  cases change with
  | unhandled => exact h.trans hlog (h.setKeyInternal hstep)
  | taken => exact h.trans hlog (h.setKeyInternal hstep)
  | refused =>
    cases hstep
    exact hlog
  | queued =>
    cases hstep
    exact h.of_same rfl rfl rfl

theorem handlePacket (h : AcrossParts R) {source : Int} {dataRaw : List Byte} {change : StateBagChange}
    (hstep : w.handlePacket source dataRaw change = some w') : R w w' := by
  obtain ⟨parsed, _, hstep⟩ := Option.bind_eq_some_iff.mp hstep
  rcases parsed with _ | ⟨bagName, key, data⟩
  · cases hstep
    exact h.refl _
  · have hfound : R w (w.findBag bagName).2 := by
      rw [findBag]
      split
      · exact h.refl w
      · split
        · exact h.trans (h.registerStateBag w bagName) (h.of_same rfl rfl rfl)
        · exact h.refl w
    dsimp only at hstep
    generalize w.findBag bagName = found at hstep hfound
    obtain ⟨_ | bag, mid⟩ := found
    · cases hstep
      exact hfound
    · obtain ⟨b, _, hstep⟩ := Option.bind_eq_some_iff.mp hstep
      split at hstep
      · cases hstep
        exact hfound
      · exact h.trans hfound (h.setKey hstep)

theorem runTask (h : AcrossParts R) {taken : Bool} (hstep : w.step (.runTask taken) = some w') : R w w' := by
  rw [StateBags.step] at hstep
  cases htasks : w.tasks with
  | nil =>
    rw [htasks] at hstep
    cases hstep
  | cons call tasks =>
    rw [htasks] at hstep
    obtain ⟨mid, hmid, rfl⟩ := Option.map_eq_some_iff.mp hstep
    have hpopped : R w { w with tasks } := h.of_same rfl rfl rfl
    refine h.trans (h.trans hpopped ?_) (h.release mid call.bag)
    split at hmid
    · exact h.setKeyInternal hmid
    · cases hmid
      exact h.refl _

theorem reset (h : AcrossParts R) (w : StateBags) : R w w.reset := by
  rw [StateBags.reset]
  have hcleared : R w { w with
      component := { w.component with stateBags := ∅, preCreatedStateBags := ∅ }, registered := ∅ } :=
    h.of_same rfl rfl rfl
  exact h.trans hcleared (Loop.keeps R h.refl h.trans h.release _ _)

/-- Every call that does not route is made of these parts. -/
theorem step (h : AcrossParts R) {call : Call} (hstep : w.step call = some w') (hroutes : call.routes = true → R w w') :
    R w w' := by
  cases call with
  | registerStateBag id =>
    cases hstep
    exact h.trans (h.registerStateBag w id) (h.of_same rfl rfl rfl)
  | drop bag =>
    obtain ⟨_, hstep⟩ := Option.ite_none_right_eq_some.mp hstep
    cases hstep
    have hdropped : R w { w with held := w.held.erase bag } := h.of_same rfl rfl rfl
    exact h.trans hdropped (h.release _ bag)
  | setKey call change => exact h.setKey hstep
  | runTask taken => exact h.runTask hstep
  | addSafePreCreatePrefix idPrefix =>
    cases hstep
    exact h.of_same rfl rfl rfl
  | handlePacket source dataRaw change => exact h.handlePacket hstep
  | onTick =>
    cases hstep
    exact h.of_same rfl rfl rfl
  | reset =>
    cases hstep
    exact h.reset w
  | _ => exact hroutes rfl

end AcrossParts

end StateBags

/-- A send goes to a routing target, or to a broadcast target where there are none. -/
def QueuedSend.Scoped (s : QueuedSend) : Prop :=
  if s.routingTargets.isEmpty then s.target ∈ s.targets else s.target ∈ s.routingTargets

namespace StateBags

/-- Everything sent between the two states was scoped. -/
def SendsScoped (w w' : StateBags) : Prop := ∃ new, w'.sends = w.sends ++ new ∧ ∀ s ∈ new, s.Scoped

namespace SendsScoped

variable {w mid w' : StateBags}

theorem of_eq (h : w'.sends = w.sends) : SendsScoped w w' := ⟨[], by rw [h, List.append_nil], fun _ hs => nomatch hs⟩

theorem refl (w : StateBags) : SendsScoped w w := .of_eq rfl

theorem trans (h : SendsScoped w mid) (h' : SendsScoped mid w') : SendsScoped w w' := by
  obtain ⟨new, heq, hnew⟩ := h
  obtain ⟨new', heq', hnew'⟩ := h'
  refine ⟨new ++ new', by rw [heq', heq, List.append_assoc], fun s hs => ?_⟩
  rcases List.mem_append.mp hs with hs | hs
  · exact hnew s hs
  · exact hnew' s hs

theorem sendAll {bag : BagPtr} {b : StateBagImpl} {target : Int} (hb : w.bags[bag]? = some b)
    (hscope : if b.routingTargets.isEmpty then target ∈ w.component.targets else target ∈ b.routingTargets)
    (h : w.sendAll bag target = some w') : SendsScoped w w' := by
  obtain ⟨new, hnew, hall⟩ := sendAll_sends hb h
  refine ⟨new, hnew.sends_eq, fun s hs => ?_⟩
  obtain ⟨key, _, hsend⟩ := exists_left_of_forall₂ hall hs
  rwa [QueuedSend.Scoped, hsend.routingTargets_eq, hsend.targets_eq, hsend.target_eq]

theorem setKeyInternal {call : SetKeyCall} (h : w.setKeyInternal call = some w') : SendsScoped w w' := by
  obtain ⟨b, hb, h⟩ := Option.bind_eq_some_iff.mp h
  dsimp only at h
  generalize hlast : (if call.replicated then b.data.getD call.key [] else []) = lastValue at h
  split at h
  · obtain ⟨new, hnew, hall⟩ := sendKeyAll_sends (b := { b with data := b.data.insert call.key call.data })
      (by rw [StateBags.setBag, TreeMap.getElem?_insert_self]) (by simp) h
    refine ⟨new, hnew.sends_eq, fun s hs => ?_⟩
    obtain ⟨target, htarget, hsend⟩ := exists_left_of_forall₂ hall hs
    rw [TreeSet.mem_toList, effectiveTargets] at htarget
    rw [QueuedSend.Scoped, hsend.routingTargets_eq, hsend.targets_eq, hsend.target_eq]
    split at htarget
    · rwa [if_pos ‹_›]
    · rwa [if_neg ‹_›]
  · cases h
    exact .of_eq rfl

theorem setRoutingTargets {bag : BagPtr} {peers : TreeSet Int} (h : w.setRoutingTargets bag peers = some w') :
    SendsScoped w w' := by
  obtain ⟨b, hb, h⟩ := Option.bind_eq_some_iff.mp h
  dsimp only at h
  have hset : SendsScoped w (w.setBag bag { b with routingTargets := peers }) := .of_eq rfl
  refine (Loop.foldlM_invariant
    (fun s => SendsScoped w s ∧ ∃ b', s.bags[bag]? = some b' ∧ b'.routingTargets = peers)
    (fun {s target s'} htarget hs hstep => ?_)
    ⟨hset, _, by rw [StateBags.setBag, TreeMap.getElem?_insert_self], rfl⟩ h).1
  obtain ⟨hscoped, b', hb', rfl⟩ := hs
  rw [List.mem_filter, TreeSet.mem_toList] at htarget
  obtain ⟨new, hnew, _⟩ := sendAll_sends hb' hstep
  refine ⟨hscoped.trans (.sendAll hb' ?_ hstep), b', by rw [hnew.bags_eq, hb'], rfl⟩
  rw [if_neg]
  · exact htarget.1
  · intro hempty
    exact TreeSet.not_mem_of_isEmpty hempty htarget.1

theorem addRoutingTarget {bag : BagPtr} {peer : Int} (h : w.addRoutingTarget bag peer = some w') :
    SendsScoped w w' := by
  obtain ⟨b, hb, h⟩ := Option.bind_eq_some_iff.mp h
  dsimp only at h
  split at h
  · cases h
    exact .of_eq rfl
  · have hset : SendsScoped w (w.setBag bag { b with routingTargets := b.routingTargets.insert peer }) := .of_eq rfl
    refine hset.trans (.sendAll (b := { b with routingTargets := b.routingTargets.insert peer })
        (by rw [StateBags.setBag, TreeMap.getElem?_insert_self]) ?_ h)
    rw [if_neg (by simp)]
    exact TreeSet.mem_insert_self

theorem removeRoutingTarget (w : StateBags) (bag : BagPtr) (peer : Int) :
    SendsScoped w (w.removeRoutingTarget bag peer) := by
  rw [StateBags.removeRoutingTarget]
  split <;> exact .of_eq rfl

theorem registerTarget {id : Int} (h : w.registerTarget id = some w') : SendsScoped w w' := by
  rw [StateBags.registerTarget] at h
  split at h
  · cases h
    exact .refl _
  · dsimp only at h
    have hset : SendsScoped w { w with component := { w.component with targets := w.component.targets.insert id } } :=
      .of_eq rfl
    refine (Loop.foldlM_invariant (fun s => SendsScoped w s ∧ id ∈ s.component.targets)
      (fun {s bag s'} _ hs hstep => ?_) ⟨hset, TreeSet.mem_insert_self⟩ h).1
    obtain ⟨hscoped, hs⟩ := hs
    obtain ⟨b, hb, _⟩ := Option.bind_eq_some_iff.mp hstep
    obtain ⟨new, hnew, hall⟩ := sendAllInitial_sends hb hstep
    refine ⟨hscoped.trans ⟨new, hnew.sends_eq, fun send hsend => ?_⟩, by rwa [hnew.component_eq]⟩
    split at hall
    · rename_i hin
      obtain ⟨key, _, hof⟩ := exists_left_of_forall₂ hall hsend
      rw [QueuedSend.Scoped, hof.routingTargets_eq, hof.targets_eq, hof.target_eq]
      split
      · exact hs
      · exact hin.resolve_left ‹_›
    · rw [hall] at hsend
      cases hsend

theorem unregisterTarget (w : StateBags) (id : Int) : SendsScoped w (w.unregisterTarget id) := by
  rw [StateBags.unregisterTarget]
  have hset : SendsScoped w { w with component := { w.component with targets := w.component.targets.erase id } } :=
    .of_eq rfl
  exact hset.trans (Loop.keeps _ refl trans (fun s bag => removeRoutingTarget s bag id) _ _)

theorem acrossParts : AcrossParts SendsScoped :=
  ⟨refl, trans, fun _ _ h => .of_eq h, fun _ _ => .of_eq rfl, fun _ _ => .of_eq rfl, setKeyInternal⟩

/-- Every call of the component sends to scoped targets only. -/
theorem step {call : Call} (h : w.step call = some w') : SendsScoped w w' := by
  refine acrossParts.step h fun hroutes => ?_
  cases call with
  | setOwningPeer bag peer =>
    obtain ⟨b, _, h⟩ := Option.bind_eq_some_iff.mp h
    cases h
    exact .of_eq rfl
  | setRoutingTargets bag peers => exact .setRoutingTargets h
  | addRoutingTarget bag peer => exact .addRoutingTarget h
  | removeRoutingTarget bag peer =>
    cases h
    exact .removeRoutingTarget w bag peer
  | registerTarget id => exact .registerTarget h
  | unregisterTarget id =>
    cases h
    exact .unregisterTarget w id
  | _ => cases hroutes

end SendsScoped

/-- In every run, a value is sent to a peer in the routing set of its bag at that moment,
or to a broadcast target if the set is empty then. -/
theorem run_scoped {w w' : StateBags} {calls : List Call} (hrun : Transition.Run step (fun _ _ => True) w calls w') :
    w.SendsScoped w' :=
  hrun.invariant w.SendsScoped (.refl w) fun hscoped _ hstep => hscoped.trans (.step hstep)

end StateBags

end fx
