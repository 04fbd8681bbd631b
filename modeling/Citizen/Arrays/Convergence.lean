import Citizen.Arrays.Basic

namespace fx

namespace ArrayWorld

theorem lastSent_concat {Count : Nat} (sent : List ArrayUpdate) (update : ArrayUpdate) (i : Fin Count) :
    lastSent (sent ++ [update]) i = if update.elem = i then some update.data else lastSent sent i := by
  unfold lastSent
  rw [List.reverse_concat, List.find?_cons]
  by_cases h : update.elem = i.1
  · rw [if_pos h, beq_iff_eq.mpr h]
    rfl
  · rw [if_neg h, beq_eq_false_iff_ne.mpr h]

theorem lastSent_append {Count : Nat} (first second : List ArrayUpdate) (i : Fin Count) :
    lastSent (first ++ second) i = (lastSent second i).or (lastSent first i) := by
  unfold lastSent
  rw [List.reverse_append, List.find?_append, Option.map_or]

end ArrayWorld

namespace ArrayHandler

variable {MaxElemSize Count : Nat} {handler : ArrayHandler MaxElemSize Count}

/-- The bytes of another element are out of reach of `readBytes`. -/
theorem readBytes_of_ne {buffer : List (BitVec 8)} {array : Nat → BitVec 8} {elem elem' length k : Nat}
    (hsize : 8 ≤ MaxElemSize) (hlength : length ≤ MaxElemSize) (hne : elem' ≠ elem) (hk : k < MaxElemSize) :
    readBytes buffer array (elem * MaxElemSize) length (elem' * MaxElemSize + k) =
      array (elem' * MaxElemSize + k) := by
  have hout : ∀ n ≤ MaxElemSize, ¬ (elem * MaxElemSize ≤ elem' * MaxElemSize + k ∧
      elem' * MaxElemSize + k < elem * MaxElemSize + n) := by
    rintro n hn ⟨hlow, hhigh⟩
    obtain hlt | hlt := Nat.lt_or_gt_of_ne hne
    · have hmul := Nat.mul_le_mul_right MaxElemSize (Nat.succ_le_of_lt hlt)
      rw [Nat.succ_mul] at hmul
      omega
    · have hmul := Nat.mul_le_mul_right MaxElemSize (Nat.succ_le_of_lt hlt)
      rw [Nat.succ_mul] at hmul
      omega
  unfold readBytes
  split
  · exact if_neg (hout 8 hsize)
  · exact if_neg (hout length hlength)

theorem content_eq {handler' : ArrayHandler MaxElemSize Count} {i : Fin Count}
    (hsizes : handler'.sizes i = handler.sizes i)
    (harray : ∀ k < handler.sizes i, handler'.array (i * MaxElemSize + k) = handler.array (i * MaxElemSize + k)) :
    handler'.content i = handler.content i := by
  unfold content
  rw [hsizes]
  exact List.map_congr_left fun k hk => harray k (List.mem_range.mp hk)

/-- What `WriteUpdates` leaves alone. -/
structure SameElements (handler handler' : ArrayHandler MaxElemSize Count) : Prop where
  index : handler'.index = handler.index
  owners : handler'.owners = handler.owners
  sizes : handler'.sizes = handler.sizes
  array : handler'.array = handler.array

theorem SameElements.content {handler' : ArrayHandler MaxElemSize Count} (h : SameElements handler handler')
    (i : Fin Count) : handler'.content i = handler.content i :=
  content_eq (by rw [h.sizes]) fun _ _ => by rw [h.array]

section Write

variable (alive : List ClientPtr) (netId : ClientPtr → Nat) (slotId : Nat)

theorem writeElement_same {acc : ArrayHandler MaxElemSize Count × List ArrayUpdate} (h : SameElements handler acc.1)
    (i : Fin Count) : SameElements handler (writeElement alive netId slotId acc i).1 := by
  unfold writeElement
  dsimp only
  split
  · split <;> exact ⟨h.index, h.owners, h.sizes, h.array⟩
  · exact h

theorem writeUpdates_same (handler : ArrayHandler MaxElemSize Count) :
    SameElements handler (handler.writeUpdates alive netId slotId).1 :=
  List.foldlRecOn (motive := fun acc : ArrayHandler MaxElemSize Count × List ArrayUpdate => SameElements handler acc.1)
    (List.finRange Count) (writeElement alive netId slotId) ⟨rfl, rfl, rfl, rfl⟩
    fun _ h i _ => writeElement_same alive netId slotId h i

theorem writeElement_flags (acc : ArrayHandler MaxElemSize Count × List ArrayUpdate) (i : Fin Count) :
    (writeElement alive netId slotId acc i).1.dirtyFlags =
      Function.update acc.1.dirtyFlags i fun slot => if slot = slotId then false else acc.1.dirtyFlags i slot := by
  unfold writeElement
  dsimp only
  split
  · split <;> rfl
  · rename_i hflag
    refine (Function.update_eq_self_iff.mpr ?_).symm
    funext slot
    split
    · rename_i hslot
      rw [hslot]
      exact (Bool.not_eq_true _ ▸ hflag).symm
    · rfl

theorem writeElement_sent (acc : ArrayHandler MaxElemSize Count × List ArrayUpdate) (i j : Fin Count) :
    ArrayWorld.lastSent (writeElement alive netId slotId acc i).2 j =
      if i = j ∧ acc.1.dirtyFlags i slotId = true ∧ ((acc.1.owners i).filter (· ∈ alive)).isSome = true then
        some (acc.1.content i)
      else ArrayWorld.lastSent acc.2 j := by
  unfold writeElement
  dsimp only
  by_cases hflag : acc.1.dirtyFlags i slotId = true
  · rw [if_pos hflag]
    cases (acc.1.owners i).filter (· ∈ alive) with
    | none => simp
    | some owner =>
      dsimp only
      rw [ArrayWorld.lastSent_concat]
      simp [hflag, Fin.ext_iff]
  · rw [if_neg hflag, if_neg fun h => hflag h.2.1]

/-- What `WriteUpdates` does to an element's flags, and what it sends of it. -/
theorem writeUpdates_spec (handler : ArrayHandler MaxElemSize Count) (i : Fin Count) :
    ((handler.writeUpdates alive netId slotId).1.dirtyFlags i = fun slot =>
        if slot = slotId then false else handler.dirtyFlags i slot) ∧
      ArrayWorld.lastSent (handler.writeUpdates alive netId slotId).2 i =
        if handler.dirtyFlags i slotId = true ∧ ((handler.owners i).filter (· ∈ alive)).isSome = true then
          some (handler.content i)
        else none := by
  refine Prod.mk.inj (Loop.touched
    (fun acc : ArrayHandler MaxElemSize Count × List ArrayUpdate => SameElements handler acc.1)
    (fun acc => (acc.1.dirtyFlags i, ArrayWorld.lastSent acc.2 i)) (List.mem_finRange i) (List.nodup_finRange Count)
    (fun acc h j _ => writeElement_same alive netId slotId h j) (fun acc h hbefore => ?_) (fun acc h j _ hne => ?_)
    (handler, []) ⟨rfl, rfl, rfl, rfl⟩ rfl)
  · obtain ⟨hflags, hsent⟩ := Prod.mk.inj hbefore
    rw [writeElement_flags, writeElement_sent, Function.update_self, hflags, hsent, h.owners, h.content]
    simp [ArrayWorld.lastSent]
  · rw [writeElement_flags, writeElement_sent, Function.update_of_ne hne.symm, if_neg fun heq => hne heq.1]

end Write

end ArrayHandler

namespace ArrayWorld

variable {MaxElemSize Count : Nat} {w w' : ArrayWorld MaxElemSize Count} {c : ClientPtr}

/-- Owners are there, what has an owner has bytes, and slots are of one client of the registry each. -/
structure Sound (w : ArrayWorld MaxElemSize Count) : Prop where
  connected_alive : ∀ c ∈ w.connected, c ∈ w.alive
  slotId_left : ∀ c ∈ w.alive, c ∉ w.connected → w.slotId c = noSlot
  mem_alive : ∀ i c, w.handler.owners i = some c → c ∈ w.alive
  sizes_pos : ∀ i c, w.handler.owners i = some c → 0 < w.handler.sizes i
  sizes_le : ∀ i c, w.handler.owners i = some c → w.handler.sizes i ≤ MaxElemSize
  slotId_inj : ∀ c ∈ w.connected, ∀ c' ∈ w.connected, w.slotId c ≠ noSlot → w.slotId c = w.slotId c' → c = c'
  slotId_lt : ∀ c ∈ w.connected, w.slotId c ≠ noSlot → w.slotId c < MAX_CLIENTS

/-- What a client was last sent of an element that it did not change itself, and that is not flagged for it, is
current. -/
structure Settled (w : ArrayWorld MaxElemSize Count) : Prop extends Sound w where
  current_sent : ∀ c ∈ w.connected, w.slotId c ≠ noSlot → ∀ i, w.changedBy i ≠ some c →
    w.handler.dirtyFlags i (w.slotId c) = false → ∀ data, lastSent (w.received c) i = some data → data = w.current i

namespace Sound

variable (h : w.Sound)
include h

theorem owner_eq (i : Fin Count) : w.owner i = w.handler.owners i := by
  rw [owner]
  cases howner : w.handler.owners i with
  | none => rfl
  | some c => exact Option.filter_eq_some_iff.mpr ⟨rfl, decide_eq_true (h.mem_alive i c howner)⟩

theorem current_eq_nil {i : Fin Count} (hnone : w.handler.owners i = none) : w.current i = [] := by
  rw [current, h.owner_eq, hnone]
  rfl

theorem current_eq_content {i : Fin Count} (hsome : w.handler.owners i = some c) :
    w.current i = w.handler.content i := by
  rw [current, h.owner_eq, hsome]
  rfl

theorem current_ne_nil {i : Fin Count} (hsome : w.handler.owners i = some c) : w.current i ≠ [] := by
  intro hnil
  have hpos := h.sizes_pos i c hsome
  rw [h.current_eq_content hsome] at hnil
  have hlength := congrArg List.length hnil
  rw [ArrayHandler.content, List.length_map, List.length_range, List.length_nil] at hlength
  omega

/-- The current content is the same when the owner and the bytes are. -/
theorem current_congr (h' : w'.Sound) {i : Fin Count} (howner : w'.handler.owners i = w.handler.owners i)
    (hcontent : ∀ c, w.handler.owners i = some c → w'.handler.content i = w.handler.content i) :
    w'.current i = w.current i := by
  cases hsome : w.handler.owners i with
  | none => rw [h.current_eq_nil hsome, h'.current_eq_nil (howner.trans hsome)]
  | some c => rw [h.current_eq_content hsome, h'.current_eq_content (howner.trans hsome), hcontent c hsome]

end Sound

/-- What `ReadUpdate` does when it takes an update. -/
theorem readUpdate_cases {handler handler' : ArrayHandler MaxElemSize Count} {alive : List ClientPtr} {slotId : Nat}
    {buffer : List (BitVec 8)} {taken : Bool}
    (hread : handler.readUpdate alive c slotId buffer = some (taken, handler')) :
    (taken = false ∧ handler' = handler) ∨
      taken = true ∧ ∃ (i : Fin Count) (byteSize : Nat) (rest : List (BitVec 8)),
        ArrayHandler.readHeader buffer = some (i.1, byteSize, rest) ∧ byteSize ≤ MaxElemSize ∧
        (∀ owner, handler.owners i = some owner → owner ∈ alive → owner = c) ∧
        handler' = { handler with
          owners := Function.update handler.owners i (if byteSize ≠ 0 then some c else none)
          array := ArrayHandler.readBytes rest handler.array (i * MaxElemSize) byteSize
          sizes := Function.update handler.sizes i byteSize
          dirtyFlags := Function.update handler.dirtyFlags i fun slot =>
            if slot = slotId then false else ArrayHandler.allSlots slot } := by
  unfold ArrayHandler.readUpdate at hread
  cases hheader : ArrayHandler.readHeader buffer with
  | none =>
    rw [hheader] at hread
    cases hread
  | some header =>
    obtain ⟨elem, byteSize, rest⟩ := header
    rw [hheader] at hread
    dsimp only at hread
    split at hread
    · cases hread
      exact .inl ⟨rfl, rfl⟩
    · split at hread
      · cases hread
        exact .inl ⟨rfl, rfl⟩
      · rename_i hsize
        split at hread
        · rename_i helem
          split at hread
          · cases hread
            exact .inl ⟨rfl, rfl⟩
          · rename_i hother
            cases hread
            refine .inr ⟨rfl, ⟨elem, helem⟩, byteSize, rest, rfl, Nat.not_lt.mp hsize,
              fun owner howner halive => ?_, rfl⟩
            by_contra hne
            apply hother
            rw [howner, Option.filter_some, if_pos (decide_eq_true halive)]
            exact decide_eq_true hne
        · cases hread

/-- A client of the registry has another slot than any other client that is there. -/
theorem Sound.slotId_ne (h : w.Sound) {c' : ClientPtr} (hc' : c' ∈ w.connected) (hc : c ∈ w.alive)
    (hslot : w.slotId c' ≠ noSlot) (hne : c' ≠ c) : w.slotId c' ≠ w.slotId c := by
  by_cases hmem : c ∈ w.connected
  · exact fun heq => hne (h.slotId_inj c' hc' c hmem hslot heq)
  · rw [h.slotId_left c hc hmem]
    exact hslot

section Join

variable {netId slotId : Nat} (hc : c ∉ w.alive)
  (hslot : slotId = noSlot ∨ slotId < MAX_CLIENTS ∧ ∀ c' ∈ w.connected, w.slotId c' ≠ slotId)
  (hw' : w' = { w with
    connected := c :: w.connected
    alive := c :: w.alive
    netId := Function.update w.netId c netId
    slotId := Function.update w.slotId c slotId
    received := Function.update w.received c [] })
include hc hw'

theorem join_slotId : w'.slotId c = slotId ∧ ∀ c' ∈ w.alive, w'.slotId c' = w.slotId c' := by
  subst hw'
  exact ⟨Function.update_self .., fun c' hmem => Function.update_of_ne (fun heq : c' = c => hc (heq ▸ hmem)) ..⟩

include hslot

theorem Sound.join (h : w.Sound) : w'.Sound := by
  obtain ⟨hnew, hold⟩ := join_slotId hc hw'
  have hconnected : w'.connected = c :: w.connected := by rw [hw']
  have halive : w'.alive = c :: w.alive := by rw [hw']
  have hhandler : w'.handler = w.handler := by rw [hw']
  refine ⟨fun c₁ h₁ => ?_, fun c₁ h₁ hgone => ?_, fun i owner howner => ?_, by rw [hhandler]; exact h.sizes_pos,
    by rw [hhandler]; exact h.sizes_le, fun c₁ h₁ c₂ h₂ hne heq => ?_, fun c₁ h₁ hne => ?_⟩
  · rw [hconnected] at h₁
    rw [halive]
    exact List.cons_subset_cons c h.connected_alive h₁
  · rw [hconnected] at hgone
    rw [halive] at h₁
    obtain ⟨hne, hgone⟩ := not_or.mp (List.mem_cons.not.mp hgone)
    have hmem := (List.mem_cons.mp h₁).resolve_left hne
    rw [hold c₁ hmem]
    exact h.slotId_left c₁ hmem hgone
  · rw [hhandler] at howner
    rw [halive]
    exact List.mem_cons_of_mem c (h.mem_alive i owner howner)
  · rw [hconnected] at h₁ h₂
    obtain rfl | hmem₁ := List.mem_cons.mp h₁ <;> obtain rfl | hmem₂ := List.mem_cons.mp h₂
    · rfl
    · rw [hnew, hold c₂ (h.connected_alive c₂ hmem₂)] at heq
      rw [hnew] at hne
      exact absurd heq.symm ((hslot.resolve_left hne).2 c₂ hmem₂)
    · rw [hold c₁ (h.connected_alive c₁ hmem₁), hnew] at heq
      rw [hold c₁ (h.connected_alive c₁ hmem₁)] at hne
      exact absurd heq ((hslot.resolve_left (heq ▸ hne)).2 c₁ hmem₁)
    · rw [hold c₁ (h.connected_alive c₁ hmem₁), hold c₂ (h.connected_alive c₂ hmem₂)] at heq
      rw [hold c₁ (h.connected_alive c₁ hmem₁)] at hne
      exact h.slotId_inj c₁ hmem₁ c₂ hmem₂ hne heq
  · rw [hconnected] at h₁
    obtain rfl | hmem₁ := List.mem_cons.mp h₁
    · rw [hnew] at hne ⊢
      exact (hslot.resolve_left hne).1
    · rw [hold c₁ (h.connected_alive c₁ hmem₁)] at hne ⊢
      exact h.slotId_lt c₁ hmem₁ hne

/-- A client that joins has been sent nothing. -/
theorem Settled.join (h : w.Settled) : w'.Settled := by
  have hsound := h.toSound.join hc hslot hw'
  have hold := (join_slotId hc hw').2
  refine ⟨hsound, fun c' hc' hne i hchanged hflag data hdata => ?_⟩
  have hcurrent : w'.current i = w.current i :=
    h.current_congr hsound (by rw [hw']) fun _ _ => by rw [hw']
  rw [hcurrent]
  by_cases hself : c' = c
  · have hnone : w'.received c' = [] := by
      rw [hw', hself]
      exact Function.update_self ..
    rw [hnone] at hdata
    cases hdata
  · have hmem : c' ∈ w.connected := by
      rw [hw'] at hc'
      exact (List.mem_cons.mp hc').resolve_left hself
    have hreceived : w'.received c' = w.received c' := by
      rw [hw']
      exact Function.update_of_ne hself ..
    have hhandler : w'.handler = w.handler := by rw [hw']
    have hchangedBy : w'.changedBy = w.changedBy := by rw [hw']
    rw [hold c' (h.connected_alive c' hmem)] at hne hflag
    rw [hhandler] at hflag
    rw [hchangedBy] at hchanged
    rw [hreceived] at hdata
    exact h.current_sent c' hmem hne i hchanged hflag data hdata

end Join

section RemoveClient

variable (hw' : w' = { w with
    connected := w.connected.filter (· ≠ c)
    slotId := Function.update w.slotId c noSlot })
include hw'

theorem removeClient_connected {c' : ClientPtr} (hc' : c' ∈ w'.connected) :
    c' ∈ w.connected ∧ w'.slotId c' = w.slotId c' := by
  rw [hw'] at hc' ⊢
  obtain ⟨hmem, hne⟩ := List.mem_filter.mp hc'
  exact ⟨hmem, Function.update_of_ne (of_decide_eq_true hne) ..⟩

theorem Sound.removeClient (h : w.Sound) : w'.Sound := by
  have halive : w'.alive = w.alive := by rw [hw']
  have hhandler : w'.handler = w.handler := by rw [hw']
  refine ⟨fun c₁ h₁ => ?_, fun c₁ h₁ hgone => ?_, by rw [hhandler, halive]; exact h.mem_alive,
    by rw [hhandler]; exact h.sizes_pos, by rw [hhandler]; exact h.sizes_le, fun c₁ h₁ c₂ h₂ => ?_, fun c₁ h₁ => ?_⟩
  · rw [halive]
    exact h.connected_alive c₁ (removeClient_connected hw' h₁).1
  · rw [halive] at h₁
    rw [hw'] at hgone ⊢
    dsimp only at hgone ⊢
    by_cases hself : c₁ = c
    · rw [hself, Function.update_self]
    · rw [Function.update_of_ne hself]
      exact h.slotId_left c₁ h₁ fun hmem => hgone (List.mem_filter.mpr ⟨hmem, decide_eq_true hself⟩)
  · obtain ⟨hmem₁, hslot₁⟩ := removeClient_connected hw' h₁
    obtain ⟨hmem₂, hslot₂⟩ := removeClient_connected hw' h₂
    rw [hslot₁, hslot₂]
    exact h.slotId_inj c₁ hmem₁ c₂ hmem₂
  · obtain ⟨hmem₁, hslot₁⟩ := removeClient_connected hw' h₁
    rw [hslot₁]
    exact h.slotId_lt c₁ hmem₁

theorem Settled.removeClient (h : w.Settled) : w'.Settled := by
  have hsound := h.toSound.removeClient hw'
  refine ⟨hsound, fun c' hc' hne i hchanged hflag data hdata => ?_⟩
  obtain ⟨hmem, hslot⟩ := removeClient_connected hw' hc'
  have hhandler : w'.handler = w.handler := by rw [hw']
  have hreceived : w'.received = w.received := by rw [hw']
  have hchangedBy : w'.changedBy = w.changedBy := by rw [hw']
  rw [hslot] at hne hflag
  rw [hhandler] at hflag
  rw [hreceived] at hdata
  rw [hchangedBy] at hchanged
  rw [h.current_congr hsound (by rw [hhandler]) fun _ _ => by rw [hhandler]]
  exact h.current_sent c' hmem hne i hchanged hflag data hdata

end RemoveClient

section Leave

variable (hc : c ∈ w.alive)
  (hw' : w' = { w with
    handler := w.handler.playerHasLeft c (w.slotId c)
    alive := w.alive.filter fun c' => c' ≠ c ∨ c ∈ w.connected
    received := Function.update w.received c []
    changedBy := fun i => (w.changedBy i).filter (· ≠ c) })
include hw'

/-- The elements of the client that leaves have no owner, and the others' are as they were. -/
theorem leave_owners (i : Fin Count) :
    w.handler.owners i = some c ∧ w'.handler.owners i = none ∧ w'.handler.dirtyFlags i = ArrayHandler.allSlots ∨
      w.handler.owners i ≠ some c ∧ w'.handler.owners i = w.handler.owners i ∧ w'.handler.sizes i = w.handler.sizes i ∧
        ∀ slot ≠ w.slotId c, w'.handler.dirtyFlags i slot = w.handler.dirtyFlags i slot := by
  rw [hw']
  dsimp only [ArrayHandler.playerHasLeft]
  by_cases howner : w.handler.owners i = some c
  · refine .inl ⟨howner, if_pos howner, funext fun slot => if_pos howner⟩
  · refine .inr ⟨howner, if_neg howner, if_neg howner, fun slot hslot => ?_⟩
    rw [if_neg howner, if_neg fun hboth => hslot hboth.2]

theorem leave_alive {c' : ClientPtr} : c' ∈ w'.alive ↔ c' ∈ w.alive ∧ (c' ≠ c ∨ c ∈ w.connected) := by
  rw [hw', List.mem_filter, decide_eq_true_iff]

theorem Sound.leave (h : w.Sound) : w'.Sound := by
  have hslots : w'.slotId = w.slotId := by rw [hw']
  have hconnected : w'.connected = w.connected := by rw [hw']
  have howners : ∀ i owner, w'.handler.owners i = some owner →
      w.handler.owners i = some owner ∧ owner ≠ c ∧ w'.handler.sizes i = w.handler.sizes i := by
    intro i owner howner
    obtain ⟨_, hnone, _⟩ | ⟨hne, hsame, hsizes, _⟩ := leave_owners hw' i
    · rw [hnone] at howner
      cases howner
    · rw [hsame] at howner
      exact ⟨howner, fun heq => hne (heq ▸ howner), hsizes⟩
  refine ⟨fun c₁ h₁ => ?_, fun c₁ h₁ hgone => ?_, fun i owner howner => ?_, fun i owner howner => ?_,
    fun i owner howner => ?_,
      by rw [hconnected, hslots]; exact h.slotId_inj, by rw [hconnected, hslots]; exact h.slotId_lt⟩
  · rw [hconnected] at h₁
    refine (leave_alive hw').mpr ⟨h.connected_alive c₁ h₁, ?_⟩
    by_cases hself : c₁ = c
    · exact .inr (hself ▸ h₁)
    · exact .inl hself
  · rw [hconnected] at hgone
    rw [hslots]
    exact h.slotId_left c₁ ((leave_alive hw').mp h₁).1 hgone
  · obtain ⟨hbefore, hne, _⟩ := howners i owner howner
    exact (leave_alive hw').mpr ⟨h.mem_alive i owner hbefore, .inl hne⟩
  · obtain ⟨hbefore, _, hsizes⟩ := howners i owner howner
    rw [hsizes]
    exact h.sizes_pos i owner hbefore
  · obtain ⟨hbefore, _, hsizes⟩ := howners i owner howner
    rw [hsizes]
    exact h.sizes_le i owner hbefore

include hc

/-- When a client leaves, its elements are flagged for all. -/
theorem Settled.leave (h : w.Settled) : w'.Settled := by
  have hsound := h.toSound.leave hw'
  have hslots : w'.slotId = w.slotId := by rw [hw']
  have hconnected : w'.connected = w.connected := by rw [hw']
  refine ⟨hsound, fun c' hc' hne i hchanged hflag data hdata => ?_⟩
  rw [hconnected] at hc'
  rw [hslots] at hne hflag
  by_cases hself : c' = c
  · have hnone : w'.received c' = [] := by
      rw [hw', hself]
      exact Function.update_self ..
    rw [hnone] at hdata
    cases hdata
  · have hreceived : w'.received c' = w.received c' := by
      rw [hw']
      exact Function.update_of_ne hself ..
    rw [hreceived] at hdata
    obtain ⟨_, _, hflags⟩ | ⟨_, howner, hsizes, hflags⟩ := leave_owners hw' i
    · have hlt := h.slotId_lt c' hc' hne
      rw [hflags, ArrayHandler.allSlots, decide_eq_false_iff_not] at hflag
      exact absurd (Nat.lt_succ_of_lt hlt) hflag
    · have harray : w'.handler.array = w.handler.array := by
        rw [hw']
        rfl
      rw [hflags _ (h.slotId_ne hc' hc hne hself)] at hflag
      rw [h.current_congr hsound howner fun _ _ => ArrayHandler.content_eq hsizes fun _ _ => by rw [harray]]
      refine h.current_sent c' hc' hne i (fun heq => hchanged ?_) hflag data hdata
      rw [hw']
      exact Option.filter_eq_some_iff.mpr ⟨heq, decide_eq_true hself⟩

end Leave

section Read

variable {buffer : List (BitVec 8)} {taken : Bool} {handler : ArrayHandler MaxElemSize Count}
  (hc : c ∈ w.alive) (hread : w.handler.readUpdate w.alive c (w.slotId c) buffer = some (taken, handler))
  (hw' : w' = { w with
    handler := handler
    changedBy := fun i =>
      if taken ∧ (ArrayHandler.readHeader buffer).map (·.1) = some i.1 then some c else w.changedBy i })
include hread hw'

/-- The element of an update that is taken is of the client, unless it is cleared; the others are as they were. -/
theorem read_elements (hsize : 8 ≤ MaxElemSize) (h : w.Sound) (i : Fin Count) :
    (w'.changedBy i = some c ∧ w'.handler.dirtyFlags i =
        (fun slot => if slot = w.slotId c then false else ArrayHandler.allSlots slot) ∧
        w'.handler.sizes i ≤ MaxElemSize ∧
        (w'.handler.owners i = none ∨ w'.handler.owners i = some c ∧ 0 < w'.handler.sizes i)) ∨
      w'.changedBy i = w.changedBy i ∧ w'.handler.dirtyFlags i = w.handler.dirtyFlags i ∧
        w'.handler.owners i = w.handler.owners i ∧ w'.handler.sizes i = w.handler.sizes i ∧
        ∀ owner, w.handler.owners i = some owner → w'.handler.content i = w.handler.content i := by
  obtain ⟨rfl, rfl⟩ | ⟨rfl, j, byteSize, rest, hheader, hbyteSize, _, rfl⟩ := readUpdate_cases hread
  · have hchanged : w'.changedBy i = w.changedBy i := by
      rw [hw']
      simp
    rw [hw'] at hchanged ⊢
    exact .inr ⟨hchanged, rfl, rfl, rfl, fun _ _ => rfl⟩
  · rw [hw', hheader]
    dsimp only [Option.map_some]
    by_cases hij : i = j
    · subst hij
      refine .inl ⟨if_pos ⟨rfl, rfl⟩, Function.update_self .., ?_, ?_⟩
      · rw [Function.update_self]
        exact hbyteSize
      · rw [Function.update_self, Function.update_self]
        by_cases hzero : byteSize = 0
        · exact .inl (if_neg (not_not.mpr hzero))
        · exact .inr ⟨if_pos hzero, Nat.pos_of_ne_zero hzero⟩
    · have hval : i.1 ≠ j.1 := fun heq => hij (Fin.ext heq)
      refine .inr ⟨if_neg fun h => hval (Option.some.inj h.2).symm, Function.update_of_ne hij ..,
        Function.update_of_ne hij .., Function.update_of_ne hij .., fun owner howner => ?_⟩
      refine ArrayHandler.content_eq (Function.update_of_ne hij ..) fun k hk => ?_
      exact ArrayHandler.readBytes_of_ne hsize hbyteSize hval (Nat.lt_of_lt_of_le hk (h.sizes_le i owner howner))

include hc

theorem Sound.read (hsize : 8 ≤ MaxElemSize) (h : w.Sound) : w'.Sound := by
  have hconnected : w'.connected = w.connected := by rw [hw']
  have halive : w'.alive = w.alive := by rw [hw']
  have hslots : w'.slotId = w.slotId := by rw [hw']
  refine ⟨by rw [hconnected, halive]; exact h.connected_alive, by rw [hconnected, halive, hslots]; exact h.slotId_left,
    fun i owner howner => ?_, fun i owner howner => ?_, fun i owner howner => ?_,
    by rw [hconnected, hslots]; exact h.slotId_inj, by rw [hconnected, hslots]; exact h.slotId_lt⟩
  all_goals obtain ⟨_, _, hle, hnone | ⟨hsome, hpos⟩⟩ | ⟨_, _, hsame, hsizes, _⟩ := read_elements hread hw' hsize h i
  · rw [hnone] at howner
    cases howner
  · rw [hsome] at howner
    cases howner
    rw [halive]
    exact hc
  · rw [hsame] at howner
    rw [halive]
    exact h.mem_alive i owner howner
  · rw [hnone] at howner
    cases howner
  · exact hpos
  · rw [hsame] at howner
    rw [hsizes]
    exact h.sizes_pos i owner howner
  · exact hle
  · exact hle
  · rw [hsame] at howner
    rw [hsizes]
    exact h.sizes_le i owner howner

/-- An update that is taken is flagged for all other slots. -/
theorem Settled.read (hsize : 8 ≤ MaxElemSize) (h : w.Settled) : w'.Settled := by
  have hsound := h.toSound.read hc hread hw' hsize
  have hslots : w'.slotId = w.slotId := by rw [hw']
  have hconnected : w'.connected = w.connected := by rw [hw']
  have hreceived : w'.received = w.received := by rw [hw']
  refine ⟨hsound, fun c' hc' hne i hchanged hflag data hdata => ?_⟩
  rw [hconnected] at hc'
  rw [hslots] at hne hflag
  rw [hreceived] at hdata
  obtain ⟨hself, hflags, _⟩ | ⟨hsame, hflags, howner, _, hcontent⟩ := read_elements hread hw' hsize h.toSound i
  · rw [hself] at hchanged
    have hslot := h.slotId_ne hc' hc hne fun heq => hchanged (congrArg some heq.symm)
    rw [hflags] at hflag
    dsimp only at hflag
    rw [if_neg hslot, ArrayHandler.allSlots, decide_eq_false_iff_not] at hflag
    exact absurd (Nat.lt_succ_of_lt (h.slotId_lt c' hc' hne)) hflag
  · rw [hsame] at hchanged
    rw [hflags] at hflag
    rw [h.current_congr hsound howner hcontent]
    exact h.current_sent c' hc' hne i hchanged hflag data hdata

end Read

section Write

variable (hc : c ∈ w.connected) (hslot : w.slotId c ≠ noSlot)
  (hw' : w' = { w with
    handler := (w.handler.writeUpdates w.alive w.netId (w.slotId c)).1
    received := Function.update w.received c
      (w.received c ++ (w.handler.writeUpdates w.alive w.netId (w.slotId c)).2) })
include hw'

theorem write_same : ArrayHandler.SameElements w.handler w'.handler := by
  rw [hw']
  exact ArrayHandler.writeUpdates_same w.alive w.netId (w.slotId c) w.handler

theorem Sound.write (h : w.Sound) : w'.Sound := by
  have hsame := write_same hw'
  have hconnected : w'.connected = w.connected := by rw [hw']
  have halive : w'.alive = w.alive := by rw [hw']
  have hslots : w'.slotId = w.slotId := by rw [hw']
  refine ⟨by rw [hconnected, halive]; exact h.connected_alive, by rw [hconnected, halive, hslots]; exact h.slotId_left,
    ?_, ?_, ?_, ?_, ?_⟩
  · rw [hsame.owners, halive]
    exact h.mem_alive
  · rw [hsame.owners, hsame.sizes]
    exact h.sizes_pos
  · rw [hsame.owners, hsame.sizes]
    exact h.sizes_le
  · rw [hconnected, hslots]
    exact h.slotId_inj
  · rw [hconnected, hslots]
    exact h.slotId_lt

theorem write_current (h : w.Sound) (i : Fin Count) : w'.current i = w.current i :=
  h.current_congr (h.write hw') (by rw [(write_same hw').owners]) fun _ _ => (write_same hw').content i

/-- What the client was last sent of an element that is flagged and has an owner is the element's content. -/
theorem write_lastSent (i : Fin Count) :
    lastSent (w'.received c) i = if w.handler.dirtyFlags i (w.slotId c) = true ∧ (w.owner i).isSome = true then
      some (w.current i) else lastSent (w.received c) i := by
  have hreceived : w'.received c = w.received c ++ (w.handler.writeUpdates w.alive w.netId (w.slotId c)).2 := by
    rw [hw']
    exact Function.update_self ..
  rw [hreceived, lastSent_append, (ArrayHandler.writeUpdates_spec w.alive w.netId (w.slotId c) w.handler i).2]
  rw [owner]
  split
  · rename_i hboth
    rw [current, owner, if_pos hboth.2, Option.some_or]
  · rw [Option.none_or]

/-- After a write, a client has converged if and only if what was to be sent reached it. -/
theorem converged_iff (h : w.Settled) (hc : c ∈ w.connected) (hslot : w.slotId c ≠ noSlot) :
    w'.Converged c ↔ w.Reaches (.writeUpdates c) := by
  have hchangedBy : w'.changedBy = w.changedBy := by rw [hw']
  unfold Converged Reaches
  rw [hchangedBy]
  have helement : ∀ i, w.changedBy i ≠ some c → ((lastSent (w'.received c) i).getD [] = w'.current i ↔
      if (w.owner i).isSome then w.handler.dirtyFlags i (w.slotId c) = true ∨ (lastSent (w.received c) i).isSome
      else w.handler.dirtyFlags i (w.slotId c) = true → (lastSent (w.received c) i).getD [] = []) := by
    intro i hchanged
    have hsettled := h.current_sent c hc hslot i hchanged
    rw [write_lastSent hw', write_current hw' h.toSound]
    cases howner : w.handler.owners i with
    | none =>
      have hcurrent := h.current_eq_nil howner
      rw [h.owner_eq, howner, Option.isSome_none, if_neg fun hboth => Bool.false_ne_true hboth.2,
        if_neg Bool.false_ne_true, hcurrent]
      refine ⟨fun hnil _ => hnil, fun hflagged => ?_⟩
      cases hflag : w.handler.dirtyFlags i (w.slotId c) with
      | true => exact hflagged hflag
      | false =>
        cases hsent : lastSent (w.received c) i with
        | none => rfl
        | some data =>
          rw [hsettled hflag data hsent]
          exact hcurrent
    | some owner =>
      have hcurrent := h.current_ne_nil howner
      rw [h.owner_eq, howner, Option.isSome_some, if_pos rfl]
      cases hflag : w.handler.dirtyFlags i (w.slotId c) with
      | true =>
        rw [if_pos ⟨rfl, rfl⟩]
        exact iff_of_true rfl (.inl rfl)
      | false =>
        rw [if_neg fun hboth => Bool.false_ne_true hboth.1]
        cases hsent : lastSent (w.received c) i with
        | none => exact iff_of_false (fun heq => hcurrent heq.symm) fun hor => by simp at hor
        | some data => exact iff_of_true (hsettled hflag data hsent) (.inr rfl)
  constructor
  · rintro hconverged c' heq i hchanged
    cases heq
    exact (helement i hchanged).mp (hconverged i hchanged)
  · exact fun hreaches i hchanged => (helement i hchanged).mpr (hreaches c rfl i hchanged)

/-- What is no longer flagged was sent, if it reached the client. -/
theorem Settled.write (h : w.Settled) (hc : c ∈ w.connected) (hslot : w.slotId c ≠ noSlot)
    (hreaches : w.Reaches (.writeUpdates c)) : w'.Settled := by
  have hconverged := (converged_iff hw' h hc hslot).mpr hreaches
  have hconnected : w'.connected = w.connected := by rw [hw']
  have hslots : w'.slotId = w.slotId := by rw [hw']
  have hchangedBy : w'.changedBy = w.changedBy := by rw [hw']
  refine ⟨h.toSound.write hw', fun c' hc' hne i hchanged hflag data hdata => ?_⟩
  rw [hconnected] at hc'
  rw [hslots] at hne hflag
  by_cases hself : c' = c
  · subst hself
    rw [← hconverged i hchanged, hdata]
    rfl
  · have hreceived : w'.received c' = w.received c' := by
      rw [hw']
      exact Function.update_of_ne hself ..
    have hflags : w'.handler.dirtyFlags i (w.slotId c') = w.handler.dirtyFlags i (w.slotId c') := by
      rw [hw']
      dsimp only
      rw [(ArrayHandler.writeUpdates_spec w.alive w.netId (w.slotId c) w.handler i).1]
      exact if_neg fun heq => hself (h.slotId_inj c' hc' c hc hne heq)
    rw [hflags] at hflag
    rw [hreceived] at hdata
    rw [hchangedBy] at hchanged
    rw [write_current hw' h.toSound]
    exact h.current_sent c' hc' hne i hchanged hflag data hdata

end Write

theorem write_changedBy (hstep : w.step (.writeUpdates c) = some w') : w'.changedBy = w.changedBy := by
  obtain ⟨_, hw'⟩ := Option.ite_none_right_eq_some.mp hstep
  cases hw'
  rfl

theorem Settled.step (hsize : 8 ≤ MaxElemSize) {a : Action} (h : w.Settled) (hreaches : w.Reaches a)
    (hstep : w.step a = some w') : w'.Settled := by
  cases a with
  | join c netId slotId =>
    obtain ⟨⟨hc, hslot⟩, hw'⟩ := Option.ite_none_right_eq_some.mp hstep
    exact h.join hc hslot (Option.some.inj hw').symm
  | removeClient c =>
    obtain ⟨_, hw'⟩ := Option.ite_none_right_eq_some.mp hstep
    exact h.removeClient (Option.some.inj hw').symm
  | playerHasLeft c =>
    obtain ⟨hc, hw'⟩ := Option.ite_none_right_eq_some.mp hstep
    exact h.leave hc (Option.some.inj hw').symm
  | readUpdate c buffer =>
    obtain ⟨hc, hread⟩ := Option.ite_none_right_eq_some.mp hstep
    obtain ⟨⟨taken, handler⟩, hread, hw'⟩ := Option.map_eq_some_iff.mp hread
    exact h.read hc hread hw'.symm hsize
  | writeUpdates c =>
    obtain ⟨⟨hc, hslot⟩, hw'⟩ := Option.ite_none_right_eq_some.mp hstep
    exact h.write (Option.some.inj hw').symm hc hslot hreaches

theorem settled_new (index : Nat) (sizes : Fin Count → Nat) (array : Nat → BitVec 8) :
    (new index sizes array : ArrayWorld MaxElemSize Count).Settled where
  connected_alive _ hc := nomatch hc
  slotId_left _ hc := nomatch hc
  mem_alive _ _ howner := nomatch howner
  sizes_pos _ _ howner := nomatch howner
  sizes_le _ _ howner := nomatch howner
  slotId_inj _ hc := nomatch hc
  slotId_lt _ hc := nomatch hc
  current_sent _ hc := nomatch hc

/-- A write converges exactly when it reaches what there is to send. -/
theorem converges_iff {a : Action} (h : w.Settled) (hstep : w.step a = some w') : w.Converges a ↔ w.Reaches a := by
  have hother : (∀ c, a ≠ .writeUpdates c) → (w.Converges a ↔ w.Reaches a) := fun hne =>
    iff_of_true (fun c heq => absurd heq (hne c)) fun c heq => absurd heq (hne c)
  cases a with
  | writeUpdates c =>
    obtain ⟨⟨hc, hslot⟩, hw'⟩ := Option.ite_none_right_eq_some.mp hstep
    have hiff := converged_iff (Option.some.inj hw').symm h hc hslot
    rw [← hiff]
    constructor
    · exact fun hconverges => hconverges c rfl w' hstep
    · rintro hconverged c' heq w'' hstep'
      cases heq
      rw [hstep] at hstep'
      exact Option.some.inj hstep' ▸ hconverged
  | join | removeClient | playerHasLeft | readUpdate => exact hother fun c => by simp

/-- The arrays converge in a run exactly when every write reaches what there is to send. An element is at least as
long as its header, so that its update is never empty. -/
theorem run_converges_iff (hsize : 8 ≤ MaxElemSize) (index : Nat) (sizes : Fin Count → Nat) (array : Nat → BitVec 8)
    (acts : List Action) (w : ArrayWorld MaxElemSize Count) :
    Transition.Run step Converges (new index sizes array) acts w ↔
      Transition.Run step Reaches (new index sizes array) acts w := by
  have hinit := @settled_new MaxElemSize _ index sizes array
  constructor
  · exact fun hrun => hrun.upgrade Settled hinit
      (fun h hconverges hstep => h.step hsize ((converges_iff h hstep).mp hconverges) hstep)
      fun h hconverges hstep => (converges_iff h hstep).mp hconverges
  · exact fun hrun => hrun.upgrade Settled hinit (fun h hreaches hstep => h.step hsize hreaches hstep)
      fun h hreaches hstep => (converges_iff h hstep).mpr hreaches

/-- The handler of index 4. -/
def handler4 : ArrayWorld 128 50 := new 4 (fun _ => 0) fun _ => 0

/-- A client writes an element, and another one is sent it. -/
def sentRun : List Action :=
  [.join 1 1 0, .join 2 2 1, .readUpdate 1 [3, 0, 2, 0, 7, 8], .writeUpdates 2]

/-- Every element of a write is flagged, when it has an owner, and was never sent, when not. -/
def reachesAll (w : ArrayWorld 128 50) (a : Action) : Bool :=
  match a with
  | .writeUpdates c => (List.finRange 50).all fun i =>
    if (w.owner i).isSome then w.handler.dirtyFlags i (w.slotId c) else (lastSent (w.received c) i).isNone
  | _ => true

theorem reaches_of_reachesAll (w : ArrayWorld 128 50) (a : Action) (h : reachesAll w a = true) : w.Reaches a := by
  rintro c rfl i _
  have hi := List.all_eq_true.mp h i (List.mem_finRange i)
  split at hi
  · rw [if_pos ‹_›]
    exact .inl hi
  · rw [if_neg ‹_›, Option.isNone_iff_eq_none.mp hi]
    exact fun _ => rfl

theorem run_converges_sent : ∃ w, Transition.Run step Converges handler4 sentRun w ∧
    w.received 2 = [⟨4, 1, 3, [7, 8]⟩] := by
  have hend : ((Transition.exec (fun w a => if reachesAll w a then w.step a else none) handler4 sentRun).any fun w =>
      w.received 2 == [⟨4, 1, 3, [7, 8]⟩]) = true := by decide +kernel
  obtain ⟨w, hrun, hw⟩ := Transition.exists_checked reaches_of_reachesAll hend
  exact ⟨w, (run_converges_iff (by decide) 4 (fun _ => 0) (fun _ => 0) sentRun w).mpr hrun, eq_of_beq hw⟩

/-- The owner clears the element: the other client keeps what it was sent. -/
theorem run_cleared : ∃ w, Transition.Run step (fun _ _ => True) handler4 (sentRun ++ [.readUpdate 1 [3, 0, 0, 0]]) w ∧
    ¬ w.Converges (.writeUpdates 2) := by
  have hend : ((Transition.exec step handler4 (sentRun ++ [.readUpdate 1 [3, 0, 0, 0]])).any fun w =>
      w.changedBy 3 == some 1 && (w.step (.writeUpdates 2)).any fun w' =>
        (lastSent (w'.received 2) (3 : Fin 50)).getD [] != w'.current 3) = true := by decide +kernel
  obtain ⟨w, hrun, hw⟩ := Transition.exists_run hend
  simp only [Bool.and_eq_true, beq_iff_eq, Option.any_eq_true, bne_iff_ne] at hw
  obtain ⟨hchanged, w', hstep, hdiffers⟩ := hw
  refine ⟨w, hrun, fun h => hdiffers (h 2 rfl w' hstep 3 ?_)⟩
  rw [write_changedBy hstep, hchanged]
  simp

end ArrayWorld

end fx
