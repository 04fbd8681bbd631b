import Citizen.StateBag.Send
import Citizen.Lib.Loop
import Citizen.Lib.Transition

open Bits rl Std

namespace fx.StateBags

/-- The id of a bag that is alive. -/
def idOf (w : StateBags) (bag : BagPtr) : Option Str := w.bags[bag]?.map (·.id)

/-- Somebody has a strong reference to the bag. -/
def Referenced (w : StateBags) (bag : BagPtr) : Prop :=
  bag ∈ w.held ∨ bag ∈ w.component.preCreatedStateBags ∨ ∃ call ∈ w.tasks, call.bag = bag

/-- What the lifetime of bags depends on is the same in both states. -/
structure SameBags (w w' : StateBags) : Prop where
  stateBags_eq : w'.component.stateBags = w.component.stateBags
  erasureList_eq : w'.component.erasureList = w.component.erasureList
  preCreatedStateBags_eq : w'.component.preCreatedStateBags = w.component.preCreatedStateBags
  nextBag_eq : w'.nextBag = w.nextBag
  held_eq : w'.held = w.held
  tasks_eq : w'.tasks = w.tasks
  registered_eq : w'.registered = w.registered
  idOf_eq : ∀ bag, w'.idOf bag = w.idOf bag

namespace SameBags

variable {w mid w' : StateBags}

theorem refl (w : StateBags) : SameBags w w := ⟨rfl, rfl, rfl, rfl, rfl, rfl, rfl, fun _ => rfl⟩

theorem trans (h : SameBags w mid) (h' : SameBags mid w') : SameBags w w' where
  stateBags_eq := h'.stateBags_eq.trans h.stateBags_eq
  erasureList_eq := h'.erasureList_eq.trans h.erasureList_eq
  preCreatedStateBags_eq := h'.preCreatedStateBags_eq.trans h.preCreatedStateBags_eq
  nextBag_eq := h'.nextBag_eq.trans h.nextBag_eq
  held_eq := h'.held_eq.trans h.held_eq
  tasks_eq := h'.tasks_eq.trans h.tasks_eq
  registered_eq := h'.registered_eq.trans h.registered_eq
  idOf_eq bag := (h'.idOf_eq bag).trans (h.idOf_eq bag)

theorem of_sends {new : List QueuedSend} (h : Sends w w' new) : SameBags w w' := by
  rw [h.eq]
  exact ⟨rfl, rfl, rfl, rfl, rfl, rfl, rfl, fun _ => rfl⟩

/-- A change of a bag that keeps its id. -/
theorem setBag {bag : BagPtr} {b b' : StateBagImpl} (hb : w.bags[bag]? = some b) (hid : b'.id = b.id) :
    SameBags w (w.setBag bag b') := by
  refine ⟨rfl, rfl, rfl, rfl, rfl, rfl, rfl, fun other => ?_⟩
  rw [idOf, StateBags.setBag, idOf, TreeMap.getElem?_insert]
  split
  · rename_i heq
    obtain rfl : bag = other := LawfulEqCmp.eq_of_compare heq
    rw [hb, Option.map_some, Option.map_some, hid]
  · rfl

theorem sendAll {bag : BagPtr} {target : Int} (h : w.sendAll bag target = some w') : SameBags w w' := by
  obtain ⟨b, hb, _⟩ := Option.bind_eq_some_iff.mp h
  obtain ⟨new, hnew, _⟩ := sendAll_sends hb h
  exact .of_sends hnew

theorem setKeyInternal {call : SetKeyCall} (h : w.setKeyInternal call = some w') : SameBags w w' := by
  obtain ⟨b, hb, h⟩ := Option.bind_eq_some_iff.mp h
  dsimp only at h
  generalize hlast : (if call.replicated then b.data.getD call.key [] else []) = lastValue at h
  have hset : SameBags w (w.setBag call.bag { b with data := b.data.insert call.key call.data }) := .setBag hb rfl
  split at h
  · obtain ⟨new, hnew, _⟩ := sendKeyAll_sends (b := { b with data := b.data.insert call.key call.data })
      (by rw [StateBags.setBag, TreeMap.getElem?_insert_self]) (by simp) h
    exact hset.trans (.of_sends hnew)
  · cases h
    exact hset

theorem setRoutingTargets {bag : BagPtr} {peers : TreeSet Int} (h : w.setRoutingTargets bag peers = some w') :
    SameBags w w' := by
  obtain ⟨b, hb, h⟩ := Option.bind_eq_some_iff.mp h
  have hset : SameBags w (w.setBag bag { b with routingTargets := peers }) := .setBag hb rfl
  dsimp only at h
  exact Loop.foldlM_invariant (SameBags w) (fun _ hsame hs => hsame.trans (.sendAll hs)) hset h

theorem addRoutingTarget {bag : BagPtr} {peer : Int} (h : w.addRoutingTarget bag peer = some w') : SameBags w w' := by
  obtain ⟨b, hb, h⟩ := Option.bind_eq_some_iff.mp h
  have hset : SameBags w (w.setBag bag { b with routingTargets := b.routingTargets.insert peer }) := .setBag hb rfl
  dsimp only at h
  split at h
  · cases h
    exact hset
  · exact hset.trans (.sendAll h)

theorem removeRoutingTarget (w : StateBags) (bag : BagPtr) (peer : Int) :
    SameBags w (w.removeRoutingTarget bag peer) := by
  rw [StateBags.removeRoutingTarget]
  split
  · rename_i b hb
    exact .setBag hb rfl
  · exact .refl w

theorem setOwningPeer {bag : BagPtr} {peer : Option Int} (h : w.setOwningPeer bag peer = some w') : SameBags w w' := by
  obtain ⟨b, hb, h⟩ := Option.bind_eq_some_iff.mp h
  cases h
  exact .setBag hb rfl

theorem registerTarget {id : Int} (h : w.registerTarget id = some w') : SameBags w w' := by
  rw [StateBags.registerTarget] at h
  split at h
  · cases h
    exact .refl _
  · have hset : SameBags w { w with component := { w.component with targets := w.component.targets.insert id } } :=
      ⟨rfl, rfl, rfl, rfl, rfl, rfl, rfl, fun _ => rfl⟩
    dsimp only at h
    refine Loop.foldlM_invariant (SameBags w) (fun {s bag s'} _ hsame hs => hsame.trans ?_) hset h
    obtain ⟨b, hb, _⟩ := Option.bind_eq_some_iff.mp hs
    obtain ⟨new, hnew, _⟩ := sendAllInitial_sends hb hs
    exact .of_sends hnew

theorem unregisterTarget (w : StateBags) (id : Int) : SameBags w (w.unregisterTarget id) := by
  rw [StateBags.unregisterTarget]
  have hset : SameBags w { w with component := { w.component with targets := w.component.targets.erase id } } :=
    ⟨rfl, rfl, rfl, rfl, rfl, rfl, rfl, fun _ => rfl⟩
  exact hset.trans (Loop.keeps _ refl trans (fun s bag => removeRoutingTarget s bag id) _ _)

end SameBags

/-- Destroying the bag erases no other live bag from the map: none has its id. -/
def OnlyBagOfName (w : StateBags) (bag : BagPtr) : Prop :=
  ∀ (id : Str) (other : BagPtr), w.idOf bag = some id → w.component.stateBags[id]? = some other → other ≠ bag →
    w.idOf other = none

/-- A bag whose last strong reference goes is the only live bag of its name. -/
def KeepsNames (w : StateBags) : Call → Prop
  | .drop bag => { w with held := w.held.erase bag }.Referenced bag ∨ w.OnlyBagOfName bag
  | .runTask _ =>
    ∀ call tasks, w.tasks = call :: tasks → { w with tasks }.Referenced call.bag ∨ w.OnlyBagOfName call.bag
  | _ => True

/-- The map names every live bag that is registered, and no pending erasure names a live
bag of the map. -/
structure Findable (w : StateBags) : Prop where
  fresh : ∀ bag, w.idOf bag ≠ none → bag < w.nextBag
  mapped_lt : ∀ (id : Str) (bag : BagPtr), w.component.stateBags[id]? = some bag → bag < w.nextBag
  registered_lt : ∀ (id : Str) (bag : BagPtr), w.registered[id]? = some bag → bag < w.nextBag
  named : ∀ (id : Str) (bag : BagPtr) (id' : Str), w.component.stateBags[id]? = some bag →
    w.idOf bag = some id' → id' = id
  pending : ∀ (id : Str) (bag : BagPtr), w.component.stateBags[id]? = some bag → w.idOf bag ≠ none →
    id ∉ w.component.erasureList
  referenced : ∀ bag, w.Referenced bag → w.idOf bag ≠ none
  registered : ∀ (id : Str) (bag : BagPtr), w.registered[id]? = some bag → w.idOf bag ≠ none →
    w.component.stateBags[id]? = some bag

theorem mem_bags_iff {w : StateBags} {bag : BagPtr} : bag ∈ w.bags ↔ w.idOf bag ≠ none := by
  rw [TreeMap.mem_iff_isSome_getElem?, idOf, ← Option.isSome_iff_ne_none, Option.isSome_map]

theorem getStateBag_eq_some {w : StateBags} {id : Str} {bag : BagPtr} :
    w.getStateBag id = some bag ↔ w.component.stateBags[id]? = some bag ∧ w.idOf bag ≠ none := by
  rw [getStateBag, Option.bind_eq_some_iff]
  constructor
  · rintro ⟨b, hb, hlock⟩
    rw [lock] at hlock
    split at hlock
    · cases hlock
      exact ⟨hb, mem_bags_iff.mp ‹_›⟩
    · cases hlock
  · rintro ⟨hb, halive⟩
    exact ⟨bag, hb, by rw [lock, if_pos (mem_bags_iff.mpr halive)]⟩

theorem Referenced.of_same {w w' : StateBags} {bag : BagPtr} (hsame : SameBags w w') :
    w'.Referenced bag ↔ w.Referenced bag := by
  rw [Referenced, hsame.held_eq, hsame.preCreatedStateBags_eq, hsame.tasks_eq]
  rfl

namespace Findable

variable {w w' : StateBags}

theorem same (h : w.Findable) (hsame : SameBags w w') : w'.Findable where
  fresh bag := by
    rw [hsame.idOf_eq, hsame.nextBag_eq]
    exact h.fresh bag
  mapped_lt id bag := by
    rw [hsame.stateBags_eq, hsame.nextBag_eq]
    exact h.mapped_lt id bag
  registered_lt id bag := by
    rw [hsame.registered_eq, hsame.nextBag_eq]
    exact h.registered_lt id bag
  named id bag id' := by
    rw [hsame.stateBags_eq, hsame.idOf_eq]
    exact h.named id bag id'
  pending id bag := by
    rw [hsame.stateBags_eq, hsame.idOf_eq, hsame.erasureList_eq]
    exact h.pending id bag
  referenced bag := by
    rw [Referenced.of_same hsame, hsame.idOf_eq]
    exact h.referenced bag
  registered id bag := by
    rw [hsame.registered_eq, hsame.idOf_eq, hsame.stateBags_eq]
    exact h.registered id bag

/-- The last reference goes, and with it a bag that no other live bag shares its name with. -/
theorem release (h : w.Findable) {bag : BagPtr} (hkeeps : w.Referenced bag ∨ w.OnlyBagOfName bag) :
    (w.release bag).Findable := by
  have hrefs : (bag ∈ w.held ∨ bag ∈ w.component.preCreatedStateBags ∨ w.tasks.any (·.bag = bag)) ↔
    w.Referenced bag := by
    simp [Referenced]
  rw [StateBags.release]
  by_cases hheld : w.Referenced bag
  · rwa [if_pos (hrefs.mpr hheld)]
  · rw [if_neg (mt hrefs.mp hheld)]
    cases hb : w.bags[bag]? with
    | none => exact h
    | some b =>
      have hid : w.idOf bag = some b.id := by rw [idOf, hb]; rfl
      have honly : w.OnlyBagOfName bag := hkeeps.resolve_left hheld
      have hidOf : ∀ other, ({ w with bags := w.bags.erase bag }.unregisterStateBag b.id).idOf other =
          if bag = other then none else w.idOf other := by
        intro other
        rw [idOf, unregisterStateBag, TreeMap.getElem?_erase]
        simp only [LawfulEqCmp.compare_eq_iff_eq]
        split <;> rfl
      have halive : ∀ other, ({ w with bags := w.bags.erase bag }.unregisterStateBag b.id).idOf other ≠ none →
          bag ≠ other ∧ w.idOf other ≠ none := by
        intro other hother
        rw [hidOf] at hother
        split at hother
        · exact absurd rfl hother
        · exact ⟨‹_›, hother⟩
      refine ⟨fun other hother => h.fresh other (halive other hother).2, h.mapped_lt, h.registered_lt, ?_, ?_, ?_,
        fun id other hreg hother => h.registered id other hreg (halive other hother).2⟩
      · intro id other id' hmap hother
        have hsome := (halive other (by rw [hother]; exact Option.some_ne_none _)).1
        rw [hidOf, if_neg hsome] at hother
        exact h.named id other id' hmap hother
      · intro id other hmap hother
        obtain ⟨hne, hlive⟩ := halive other hother
        change id ∉ w.component.erasureList.insert b.id
        rw [TreeSet.mem_insert, LawfulEqCmp.compare_eq_iff_eq]
        rintro (rfl | hpending)
        · exact hlive (honly _ other hid hmap (Ne.symm hne))
        · exact h.pending id other hmap hlive hpending
      · intro other hother
        have hne : bag ≠ other := by
          rintro rfl
          exact hheld hother
        rw [hidOf, if_neg hne]
        exact h.referenced other hother

theorem idOf_newStateBag (w : StateBags) (id : Str) (bag : BagPtr) :
    (w.newStateBag id).idOf bag = if w.nextBag = bag then some id else w.idOf bag := by
  rw [idOf, newStateBag, TreeMap.getElem?_insert]
  simp only [LawfulEqCmp.compare_eq_iff_eq]
  split <;> rfl

/-- A new bag takes the place of a name that has no live bag. -/
theorem newStateBag (h : w.Findable) {id : Str} (hget : w.getStateBag id = none) : (w.newStateBag id).Findable := by
  have hmap : ∀ other (bag : BagPtr), (w.newStateBag id).component.stateBags[other]? = some bag →
      (id = other ∧ w.nextBag = bag) ∨ (id ≠ other ∧ w.component.stateBags[other]? = some bag) := by
    intro other bag hbag
    rw [StateBags.newStateBag, TreeMap.getElem?_insert] at hbag
    simp only [LawfulEqCmp.compare_eq_iff_eq] at hbag
    split at hbag
    · exact .inl ⟨‹_›, Option.some.inj hbag⟩
    · exact .inr ⟨‹_›, hbag⟩
  have hold : ∀ bag, bag < w.nextBag → (w.newStateBag id).idOf bag = w.idOf bag := by
    intro bag hlt
    rw [idOf_newStateBag, if_neg (Nat.ne_of_gt hlt)]
  have hnext : (w.newStateBag id).nextBag = w.nextBag + 1 := rfl
  refine ⟨?_, ?_, ?_, ?_, ?_, ?_, ?_⟩
  · intro bag hlive
    rw [idOf_newStateBag] at hlive
    rw [hnext]
    split at hlive
    · exact Nat.lt_succ_of_le (Nat.le_of_eq (Eq.symm ‹_›))
    · exact Nat.lt_succ_of_lt (h.fresh bag hlive)
  · intro other bag hbag
    rw [hnext]
    rcases hmap other bag hbag with ⟨_, rfl⟩ | ⟨_, hbag⟩
    · exact Nat.lt_succ_self _
    · exact Nat.lt_succ_of_lt (h.mapped_lt other bag hbag)
  · intro other bag hbag
    exact Nat.lt_succ_of_lt (h.registered_lt other bag hbag)
  · intro other bag id' hbag hid
    rcases hmap other bag hbag with ⟨rfl, rfl⟩ | ⟨_, hbag⟩
    · rw [idOf_newStateBag, if_pos rfl] at hid
      exact (Option.some.inj hid).symm
    · rw [hold bag (h.mapped_lt other bag hbag)] at hid
      exact h.named other bag id' hbag hid
  · intro other bag hbag hlive
    change other ∉ w.component.erasureList.erase id
    rw [TreeSet.mem_erase, ne_eq, LawfulEqCmp.compare_eq_iff_eq]
    rintro ⟨hne, hpending⟩
    rcases hmap other bag hbag with ⟨rfl, rfl⟩ | ⟨_, hbag⟩
    · exact hne rfl
    · rw [hold bag (h.mapped_lt other bag hbag)] at hlive
      exact h.pending other bag hbag hlive hpending
  · intro bag hbag
    have hlive := h.referenced bag hbag
    rwa [hold bag (h.fresh bag hlive)]
  · intro other bag hreg hlive
    have hlt := h.registered_lt other bag hreg
    rw [hold bag hlt] at hlive
    have hbag := h.registered other bag hreg hlive
    have hne : id ≠ other := by
      rintro rfl
      rw [getStateBag_eq_some.mpr ⟨hbag, hlive⟩] at hget
      cases hget
    rw [StateBags.newStateBag, TreeMap.getElem?_insert, if_neg (by rwa [LawfulEqCmp.compare_eq_iff_eq])]
    exact hbag

/-- References that go, or that come to a live bag. -/
theorem of_references (h : w.Findable) (hrefs : ∀ bag, w'.Referenced bag → w'.idOf bag ≠ none)
    (hsame : SameBags w { w' with
      component := { w'.component with preCreatedStateBags := w.component.preCreatedStateBags }
      held := w.held, tasks := w.tasks }) : w'.Findable := by
  have hall := h.same hsame
  exact ⟨hall.fresh, hall.mapped_lt, hall.registered_lt, hall.named, hall.pending, hrefs, hall.registered⟩

theorem registerStateBag (h : w.Findable) (id : Str) :
    (w.registerStateBag id).2.Findable ∧ (w.registerStateBag id).2.getStateBag id =
      some (w.registerStateBag id).1 := by
  rw [StateBags.registerStateBag]
  cases hget : w.getStateBag id with
  | some bagRef =>
    refine ⟨h.of_references (fun bag hbag => h.referenced bag ?_) ⟨rfl, rfl, rfl, rfl, rfl, rfl, rfl,
      fun _ => rfl⟩, hget⟩
    rcases hbag with hheld | hpre | htask
    · exact .inl hheld
    · exact .inr (.inl (TreeSet.mem_of_mem_erase hpre))
    · exact .inr (.inr htask)
  | none =>
    refine ⟨h.newStateBag hget, getStateBag_eq_some.mpr ⟨?_, ?_⟩⟩
    · rw [StateBags.newStateBag, TreeMap.getElem?_insert_self]
    · rw [idOf_newStateBag, if_pos rfl]
      exact Option.some_ne_none _

theorem preCreateStateBag (h : w.Findable) (id : Str) : (w.preCreateStateBag id).2.Findable := by
  obtain ⟨hfindable, hget⟩ := h.registerStateBag id
  refine hfindable.of_references (fun bag hbag => ?_) ⟨rfl, rfl, rfl, rfl, rfl, rfl, rfl, fun _ => rfl⟩
  rcases hbag with hheld | hpre | htask
  · exact hfindable.referenced bag (.inl hheld)
  · rcases TreeSet.mem_insert.mp hpre with heq | hpre
    · obtain rfl := LawfulEqCmp.eq_of_compare heq
      exact (getStateBag_eq_some.mp hget).2
    · exact hfindable.referenced bag (.inr (.inl hpre))
  · exact hfindable.referenced bag (.inr (.inr htask))

/-- The caller of `RegisterStateBag` keeps what it returns. -/
theorem hold (h : w.Findable) {id : Str} {bag : BagPtr} (hget : w.getStateBag id = some bag) :
    { w with held := w.held.insert bag, registered := w.registered.insert id bag }.Findable := by
  obtain ⟨hmap, hlive⟩ := getStateBag_eq_some.mp hget
  have hreg : ∀ (id' : Str) (bag' : BagPtr), (w.registered.insert id bag)[id']? = some bag' →
      (id = id' ∧ bag = bag') ∨ w.registered[id']? = some bag' := by
    intro id' bag' hbag'
    rw [TreeMap.getElem?_insert] at hbag'
    simp only [LawfulEqCmp.compare_eq_iff_eq] at hbag'
    split at hbag'
    · exact .inl ⟨‹_›, Option.some.inj hbag'⟩
    · exact .inr hbag'
  refine ⟨h.fresh, h.mapped_lt, fun id' bag' hbag' => ?_, h.named, h.pending, fun bag' hbag' => ?_,
    fun id' bag' hbag' halive => ?_⟩
  · rcases hreg id' bag' hbag' with ⟨rfl, rfl⟩ | hbag'
    · exact h.mapped_lt _ _ hmap
    · exact h.registered_lt id' bag' hbag'
  · rcases hbag' with hheld | hrest
    · rcases TreeSet.mem_insert.mp hheld with heq | hheld
      · obtain rfl := LawfulEqCmp.eq_of_compare heq
        exact hlive
      · exact h.referenced bag' (.inl hheld)
    · exact h.referenced bag' (.inr hrest)
  · rcases hreg id' bag' hbag' with ⟨rfl, rfl⟩ | hbag'
    · exact hmap
    · exact h.registered id' bag' hbag' halive

theorem setKey {call : SetKeyCall} {change : StateBagChange} (h : w.Findable)
    (hstep : w.setKey call change = some w') :
    w'.Findable := by
  obtain ⟨b, hb, hstep⟩ := Option.bind_eq_some_iff.mp hstep
  have hlog : { w with setKeys := w.setKeys ++ [call] }.Findable :=
    h.same ⟨rfl, rfl, rfl, rfl, rfl, rfl, rfl, fun _ => rfl⟩
  dsimp only at hstep
  cases change with
  | unhandled => exact hlog.same (.setKeyInternal hstep)
  | taken => exact hlog.same (.setKeyInternal hstep)
  | refused =>
    cases hstep
    exact hlog
  | queued =>
    cases hstep
    refine h.of_references (fun bag hbag => ?_) ⟨rfl, rfl, rfl, rfl, rfl, rfl, rfl, fun _ => rfl⟩
    rcases hbag with hheld | hpre | ⟨task, htask, rfl⟩
    · exact h.referenced bag (.inl hheld)
    · exact h.referenced bag (.inr (.inl hpre))
    · rcases List.mem_append.mp htask with htask | htask
      · exact h.referenced _ (.inr (.inr ⟨task, htask, rfl⟩))
      · obtain rfl := List.mem_singleton.mp htask
        change w.idOf task.bag ≠ none
        rw [idOf, hb]
        exact Option.some_ne_none _

theorem handlePacket {source : Int} {dataRaw : List Byte} {change : StateBagChange} (h : w.Findable)
    (hstep : w.handlePacket source dataRaw change = some w') : w'.Findable := by
  obtain ⟨parsed, _, hstep⟩ := Option.bind_eq_some_iff.mp hstep
  rcases parsed with _ | ⟨bagName, key, data⟩
  · cases hstep
    exact h
  · have hfound : (w.findBag bagName).2.Findable := by
      rw [findBag]
      split
      · exact h
      · split
        · exact h.preCreateStateBag bagName
        · exact h
    dsimp only at hstep
    generalize w.findBag bagName = found at hstep hfound
    obtain ⟨_ | bag, mid⟩ := found
    · cases hstep
      exact hfound
    · obtain ⟨b, _, hstep⟩ := Option.bind_eq_some_iff.mp hstep
      split at hstep
      · cases hstep
        exact hfound
      · exact hfound.setKey hstep

theorem onTick (h : w.Findable) : w.onTick.Findable := by
  have herase : ∀ (ids : List Str) (m : TreeMap Str BagPtr) (id : Str) (bag : BagPtr),
      (ids.foldl (·.erase ·) m)[id]? = some bag → m[id]? = some bag := by
    intro ids
    induction ids with
    | nil => exact fun _ _ _ hget => hget
    | cons first ids ih =>
      intro m id bag hget
      have hrest := ih _ id bag hget
      rw [TreeMap.getElem?_erase] at hrest
      split at hrest
      · cases hrest
      · exact hrest
  have hkeep : ∀ (ids : List Str) (m : TreeMap Str BagPtr) (id : Str), id ∉ ids →
    (ids.foldl (·.erase ·) m)[id]? = m[id]? := by
    intro ids
    induction ids with
    | nil => exact fun _ _ _ => rfl
    | cons first ids ih =>
      intro m id hid
      rw [List.mem_cons, not_or] at hid
      rw [List.foldl_cons, ih _ _ hid.2, TreeMap.getElem?_erase, if_neg]
      rw [LawfulEqCmp.compare_eq_iff_eq]
      exact Ne.symm hid.1
  refine ⟨h.fresh, fun id bag hbag => h.mapped_lt id bag (herase _ _ _ _ hbag), h.registered_lt,
    fun id bag id' hbag => h.named id bag id' (herase _ _ _ _ hbag), fun _ _ _ _ => TreeSet.not_mem_emptyc,
      h.referenced,
    fun id bag hreg hlive => ?_⟩
  have hmap := h.registered id bag hreg hlive
  have hpending := h.pending id bag hmap hlive
  exact (hkeep _ _ id (by rwa [TreeSet.mem_toList])).trans hmap

theorem reset (h : w.Findable) : w.reset.Findable := by
  rw [StateBags.reset]
  have hcleared : { w with
      component := { w.component with stateBags := ∅, preCreatedStateBags := ∅ }, registered := ∅ }.Findable := by
    refine ⟨h.fresh, ?_, ?_, ?_, ?_, fun bag hbag => h.referenced bag ?_, ?_⟩
    · simp
    · simp
    · simp
    · simp
    · rcases hbag with hheld | hpre | htask
      · exact .inl hheld
      · exact absurd hpre TreeSet.not_mem_emptyc
      · exact .inr (.inr htask)
    · simp
  have hempty : ∀ (bags : List BagPtr) (s : StateBags), s.Findable → s.component.stateBags = ∅ →
      (bags.foldl StateBags.release s).Findable := by
    intro bags
    induction bags with
    | nil => exact fun _ hs _ => hs
    | cons bag bags ih =>
      intro s hs hmap
      refine ih _ (hs.release (.inr fun id other _ hother => ?_)) ?_
      · rw [hmap, TreeMap.getElem?_emptyc] at hother
        cases hother
      · rw [StateBags.release]
        split
        · exact hmap
        · split
          · exact hmap
          · exact hmap
  exact hempty _ _ hcleared rfl

/-- Every call keeps the registered bags findable, if a bag it destroys is the only live
one of its name. -/
theorem step (h : w.Findable) {call : Call} (hkeeps : w.KeepsNames call) (hstep : w.step call = some w') :
    w'.Findable := by
  cases call with
  | registerStateBag id =>
    cases hstep
    obtain ⟨hfindable, hget⟩ := h.registerStateBag id
    exact hfindable.hold hget
  | drop bag =>
    rw [StateBags.step] at hstep
    split at hstep
    · cases hstep
      have hdropped : { w with held := w.held.erase bag }.Findable := by
        refine h.of_references (fun other hother => h.referenced other ?_) ⟨rfl, rfl, rfl, rfl, rfl, rfl, rfl,
          fun _ => rfl⟩
        rcases hother with hheld | hrest
        · exact .inl (TreeSet.mem_of_mem_erase hheld)
        · exact .inr hrest
      exact hdropped.release hkeeps
    · cases hstep
  | setKey call change => exact h.setKey hstep
  | runTask taken =>
    rw [StateBags.step] at hstep
    cases htasks : w.tasks with
    | nil =>
      rw [htasks] at hstep
      cases hstep
    | cons call tasks =>
      rw [htasks] at hstep
      obtain ⟨mid, hmid, rfl⟩ := Option.map_eq_some_iff.mp hstep
      have hpopped : { w with tasks }.Findable := by
        refine h.of_references (fun bag hbag => h.referenced bag ?_) ⟨rfl, rfl, rfl, rfl, rfl, rfl, rfl, fun _ => rfl⟩
        rcases hbag with hheld | hpre | ⟨task, htask, rfl⟩
        · exact .inl hheld
        · exact .inr (.inl hpre)
        · exact .inr (.inr ⟨task, htasks ▸ List.mem_cons_of_mem _ htask, rfl⟩)
      have hsame : SameBags { w with tasks } mid := by
        split at hmid
        · exact .setKeyInternal hmid
        · cases hmid
          exact .refl _
      refine release (hpopped.same hsame) ?_
      rw [Referenced.of_same hsame, OnlyBagOfName, hsame.stateBags_eq]
      simp only [hsame.idOf_eq]
      exact hkeeps call tasks htasks
  | setOwningPeer bag peer => exact h.same (.setOwningPeer hstep)
  | setRoutingTargets bag peers => exact h.same (.setRoutingTargets hstep)
  | addRoutingTarget bag peer => exact h.same (.addRoutingTarget hstep)
  | removeRoutingTarget bag peer =>
    cases hstep
    exact h.same (.removeRoutingTarget w bag peer)
  | registerTarget id => exact h.same (.registerTarget hstep)
  | unregisterTarget id =>
    cases hstep
    exact h.same (.unregisterTarget w id)
  | addSafePreCreatePrefix idPrefix =>
    cases hstep
    exact h.same ⟨rfl, rfl, rfl, rfl, rfl, rfl, rfl, fun _ => rfl⟩
  | handlePacket source dataRaw change => exact h.handlePacket hstep
  | onTick =>
    cases hstep
    exact h.onTick
  | reset =>
    cases hstep
    exact h.reset

end Findable

theorem create_findable (role : StateBagRole) : (create role).Findable := by
  refine ⟨?_, ?_, ?_, ?_, ?_, ?_, ?_⟩ <;> simp [create, idOf, Referenced]

/-- In every run that destroys a bag only as the only live one of its name, a bag that is
still held is what `GetStateBag` returns for the id it was last registered under. -/
theorem getStateBag_registered (role : StateBagRole) {calls : List Call} {w : StateBags}
    (hrun : Transition.Run step KeepsNames (create role) calls w) {id : Str} {bag : BagPtr}
    (hreg : w.registered[id]? = some bag) (hheld : bag ∈ w.held) : w.getStateBag id = some bag := by
  have h := hrun.invariant Findable (create_findable role) fun hfindable hkeeps hstep => hfindable.step hkeeps hstep
  have hlive := h.referenced bag (.inl hheld)
  exact getStateBag_eq_some.mpr ⟨h.registered id bag hreg hlive, hlive⟩

theorem getStateBag_registered_beside : ∃ w : StateBags,
    w.registered[([2] : Str)]? = some 1 ∧ 1 ∈ w.held ∧ w.idOf 0 = none ∧ w.getStateBag [2] = some 1 := by
  have hdrop : ∀ w : StateBags, w.idOf 0 = some [1] → w.component.stateBags[([1] : Str)]? = some 0 →
    w.KeepsNames (.drop 0) := by
    refine fun w hid hmap => .inr fun id other hid' hother hne => ?_
    obtain rfl : [1] = id := Option.some.inj (hid.symm.trans hid')
    exact absurd (Option.some.inj (hmap.symm.trans hother)).symm hne
  have hrun : Transition.Run step KeepsNames (create .server)
      [.registerStateBag [1], .registerStateBag [2], .drop 0, .onTick] _ :=
    .cons trivial rfl (.cons trivial rfl (.cons (hdrop _ (by decide +kernel) (by decide +kernel)) rfl
      (.cons trivial rfl (.nil _))))
  exact ⟨_, by decide +kernel, by decide +kernel, by decide +kernel,
    getStateBag_registered .server hrun (by decide +kernel) (by decide +kernel)⟩

/-- After a `Reset` two live bags can share a name. Dropping the old one has the tick erase
the new one, which is still held. -/
theorem getStateBag_erased : ∃ (calls : List Call) (w : StateBags),
    Transition.Run step (fun _ _ => True) (create .server) calls w ∧ w.registered[([112] : Str)]? = some 1 ∧
      1 ∈ w.held ∧ w.getStateBag [112] = none :=
  ⟨[.registerStateBag [112], .reset, .registerStateBag [112], .drop 0, .onTick], _,
    .cons trivial rfl (.cons trivial rfl (.cons trivial rfl (.cons trivial rfl (.cons trivial rfl (.nil _))))), by
      decide +kernel,
    by decide +kernel, by decide +kernel⟩

end fx.StateBags
