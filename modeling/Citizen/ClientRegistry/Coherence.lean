import Citizen.ClientRegistry.Basic

namespace fx

namespace ClientRegistry

variable {r r' : ClientRegistry} {c c' : ClientPtr}

theorem slots_le (r : ClientRegistry) : r.slots ≤ noSlot := by
  unfold slots
  split
  · decide
  · decide

theorem lock_eq_some {ref : Option ClientPtr} : r.lock ref = some c ↔ ref = some c ∧ r.alive c = true := by
  unfold lock
  rw [Option.filter_eq_some_iff]

/-- Two clients with one final net id, or one slot, would be found under it both. -/
theorem coherent_of (hnewest : ∀ guid c, r.newest guid = some c → r.getClientByGuid guid = some c)
    (hreachable : ∀ c, r.Registered c → r.Reachable c) (hspecial : ∀ c, (r.objects c).slotId ≠ 31) : r.Coherent where
  newest := hnewest
  reachable := hreachable
  netId_inj c c' hc hc' _ hlt heq := by
    have hfound := (hreachable c hc).netId hlt.ne
    have hfound' := (hreachable c' hc').netId (heq ▸ hlt.ne)
    rw [heq, hfound'] at hfound
    exact (Option.some.inj hfound).symm
  slotId_inj c c' hc hc' hslot heq := by
    have hfound := (hreachable c hc).slotId hslot
    have hfound' := (hreachable c' hc').slotId (heq ▸ hslot)
    rw [heq, hfound'] at hfound
    exact (Option.some.inj hfound).symm
  special := hspecial

/-- The registry is coherent, its table holds living clients under their guids, and each is the last that was made
for its guid. -/
structure Settled (r : ClientRegistry) : Prop extends Coherent r where
  alive_lt : ∀ c, r.alive c = true → c < r.nextClient
  table : ∀ guid c, r.clients guid = some c → (r.objects c).guid = guid ∧ r.alive c = true ∧ r.newest guid = some c
  slotId_lt : ∀ c, (r.objects c).slotId ≠ noSlot → (r.objects c).slotId < r.slots
  curNetId : 1 ≤ r.curNetId ∧ r.curNetId < noFinalNetId

theorem settled_empty (oneSync bigMode : Bool) : (empty oneSync bigMode).Settled where
  toCoherent := coherent_of (fun _ _ h => nomatch h) (fun _ h => nomatch h) fun _ => (by decide : noSlot ≠ 31)
  alive_lt _ h := nomatch h
  table _ _ h := nomatch h
  slotId_lt _ h := absurd rfl h
  curNetId := (by decide : 1 ≤ 1 ∧ 1 < noFinalNetId)

theorem Settled.alive (h : r.Settled) (hc : r.Registered c) : r.alive c = true := (h.table _ c hc).2.1

theorem Settled.newest_of_registered (h : r.Settled) (hc : r.Registered c) : r.newest (r.objects c).guid = some c :=
  (h.table _ c hc).2.2

/-- The client that was last made for a guid is registered under it. -/
theorem Settled.registered (h : r.Settled) {guid : String} (hnewest : r.newest guid = some c) :
    r.Registered c ∧ (r.objects c).guid = guid := by
  have hclients := h.newest guid c hnewest
  have hguid := (h.table guid c hclients).1
  refine ⟨?_, hguid⟩
  rw [Registered, hguid]
  exact hclients

/-- What a client has is the same, and so is what leads to it. -/
theorem Reachable.congr (h : r.Reachable c) (hobject : r'.objects c = r.objects c)
    (hpeer : ∀ peer, (r.objects c).peer = some peer → r'.getClientByPeer peer = r.getClientByPeer peer)
    (hnetId : (r.objects c).netId ≠ noFinalNetId →
      r'.getClientByNetID (r.objects c).netId = r.getClientByNetID (r.objects c).netId)
    (hslotId : (r.objects c).slotId ≠ noSlot →
      r'.getClientBySlotID (r.objects c).slotId = r.getClientBySlotID (r.objects c).slotId)
    (htoken : (r.objects c).connectionToken ≠ "" → r'.getClientByConnectionToken (r.objects c).connectionToken =
      r.getClientByConnectionToken (r.objects c).connectionToken) : r'.Reachable c := by
  constructor
  · rw [hobject]
    exact fun peer hhas => (hpeer peer hhas).trans (h.peer peer hhas)
  · rw [hobject]
    exact fun hhas => (hnetId hhas).trans (h.netId hhas)
  · rw [hobject]
    exact fun hhas => (hslotId hhas).trans (h.slotId hhas)
  · rw [hobject]
    exact fun hhas => (htoken hhas).trans (h.connectionToken hhas)

/-- The clients are the same, but for what they have. -/
structure SameClients (r r' : ClientRegistry) : Prop where
  bigMode : r'.bigMode = r.bigMode
  nextClient : r'.nextClient = r.nextClient
  alive : r'.alive = r.alive
  clients : r'.clients = r.clients
  newest : r'.newest = r.newest
  guid : ∀ c, (r'.objects c).guid = (r.objects c).guid

theorem SameClients.refl (r : ClientRegistry) : SameClients r r := ⟨rfl, rfl, rfl, rfl, rfl, fun _ => rfl⟩

theorem SameClients.trans {r'' : ClientRegistry} (h : SameClients r r') (h' : SameClients r' r'') :
    SameClients r r'' :=
  ⟨h'.bigMode.trans h.bigMode, h'.nextClient.trans h.nextClient, h'.alive.trans h.alive, h'.clients.trans h.clients,
    h'.newest.trans h.newest, fun c => (h'.guid c).trans (h.guid c)⟩

/-- A client's fields change, but for its guid. -/
theorem guid_update {client : RegistryClient} (hguid : client.guid = (r.objects c).guid) (c' : ClientPtr) :
    (Function.update r.objects c client c').guid = (r.objects c').guid := by
  by_cases hne : c' = c
  · rw [hne, Function.update_self, hguid]
  · rw [Function.update_of_ne hne]

theorem same_setNetId (r : ClientRegistry) (c : ClientPtr) (netId : Nat) : SameClients r (r.setNetId c netId) :=
  ⟨rfl, rfl, rfl, rfl, rfl, guid_update rfl⟩

theorem same_setConnectionToken (r : ClientRegistry) (c : ClientPtr) (connectionToken : String) :
    SameClients r (r.setConnectionToken c connectionToken) := ⟨rfl, rfl, rfl, rfl, rfl, guid_update rfl⟩

theorem SameClients.registered (h : SameClients r r') : r'.Registered c ↔ r.Registered c := by
  rw [Registered, Registered, h.clients, h.guid]

theorem Settled.of_same (h : r.Settled) (hsame : SameClients r r') (hreachable : ∀ c, r.Registered c → r'.Reachable c)
    (hslots : ∀ c, (r'.objects c).slotId = (r.objects c).slotId ∨
      (r'.objects c).slotId < r.slots ∧ (r'.objects c).slotId ≠ 31)
    (hcur : 1 ≤ r'.curNetId ∧ r'.curNetId < noFinalNetId) : r'.Settled where
  toCoherent := by
    refine coherent_of ?_ (fun c hc => hreachable c (hsame.registered.mp hc)) fun c => ?_
    · rw [hsame.newest]
      intro guid c hnewest
      rw [getClientByGuid, hsame.clients]
      exact h.newest guid c hnewest
    · obtain heq | hnew := hslots c
      · rw [heq]
        exact h.special c
      · exact hnew.2
  alive_lt := by
    rw [hsame.alive, hsame.nextClient]
    exact h.alive_lt
  table := by
    rw [hsame.clients, hsame.alive, hsame.newest]
    intro guid c hclients
    rw [hsame.guid]
    exact h.table guid c hclients
  slotId_lt c hslot := by
    rw [slots, hsame.bigMode, ← slots]
    obtain heq | hnew := hslots c
    · rw [heq] at hslot ⊢
      exact h.slotId_lt c hslot
    · exact hnew.1
  curNetId := hcur

/-- An assignment is coherent exactly when no other registered client has the key: the key's table leads to the client
then, and to no other. -/
theorem Settled.assign_iff (h : r.Settled) (hsame : SameClients r r')
    (hother : ∀ c', c' ≠ c → r'.objects c' = r.objects c') (hcur : 1 ≤ r'.curNetId ∧ r'.curNetId < noFinalNetId)
    (taken : ClientPtr → Prop)
    (hself : r.Registered c → r'.Reachable c)
    (hslots : (r'.objects c).slotId = (r.objects c).slotId ∨ (r'.objects c).slotId < r.slots ∧
      (r'.objects c).slotId ≠ 31)
    (hkeep : ∀ c', r.Registered c' → c' ≠ c → ¬ taken c' → r'.Reachable c')
    (hlose : ∀ c', r.Registered c' → c' ≠ c → taken c' → ¬ r'.Reachable c') :
    (r'.Coherent ↔ ∀ c', r.Registered c' → c' ≠ c → ¬ taken c') ∧ (r'.Coherent → r'.Settled) := by
  have hback : r'.Coherent → ∀ c', r.Registered c' → c' ≠ c → ¬ taken c' := fun hcoherent c' hc' hne htaken =>
    hlose c' hc' hne htaken (hcoherent.reachable c' (hsame.registered.mpr hc'))
  have hforth : (∀ c', r.Registered c' → c' ≠ c → ¬ taken c') → r'.Settled := by
    intro hfree
    refine h.of_same hsame (fun c' hc' => ?_) (fun c' => ?_) hcur
    · by_cases hne : c' = c
      · rw [hne] at hc' ⊢
        exact hself hc'
      · exact hkeep c' hc' hne (hfree c' hc' hne)
    · by_cases hne : c' = c
      · rw [hne]
        exact hslots
      · rw [hother c' hne]
        exact .inl rfl
  exact ⟨⟨hback, fun hfree => (hforth hfree).toCoherent⟩, fun hcoherent => hforth (hback hcoherent)⟩

theorem setNetId_settled (h : r.Settled) (hc : r.alive c = true) (netId : Nat) :
    ((r.setNetId c netId).Coherent ↔ r.Orderly (.setNetId c netId)) ∧
      ((r.setNetId c netId).Coherent → (r.setNetId c netId).Settled) := by
  have hother : ∀ c', c' ≠ c → (r.setNetId c netId).objects c' = r.objects c' := fun c' hne =>
    Function.update_of_ne hne ..
  have hobject : (r.setNetId c netId).objects c = { r.objects c with netId } := Function.update_self ..
  have hlookup : ∀ netId', (r.setNetId c netId).getClientByNetID netId' =
      if netId' = netId then some c else r.getClientByNetID netId' := by
    intro netId'
    unfold getClientByNetID
    simp only [setNetId, modify, lock, Function.update_apply]
    split
    · rw [Option.filter_some, hc]
      rfl
    · rfl
  have hself : r.Registered c → (r.setNetId c netId).Reachable c := by
    intro hreg
    have hreach := h.reachable c hreg
    constructor
    · rw [hobject]
      exact hreach.peer
    · rw [hobject]
      intro _
      rw [hlookup, if_pos rfl]
    · rw [hobject]
      exact hreach.slotId
    · rw [hobject]
      exact hreach.connectionToken
  have hkeep : ∀ c', r.Registered c' → c' ≠ c → ¬ (netId ≠ noFinalNetId ∧ (r.objects c').netId = netId) →
      (r.setNetId c netId).Reachable c' := by
    intro c' hc' hne hfree
    refine (h.reachable c' hc').congr (hother c' hne) (fun _ _ => rfl) (fun hhas => ?_) (fun _ => rfl) fun _ => rfl
    rw [hlookup, if_neg]
    rintro rfl
    exact hfree ⟨hhas, rfl⟩
  have hlose : ∀ c', r.Registered c' → c' ≠ c → netId ≠ noFinalNetId ∧ (r.objects c').netId = netId →
      ¬ (r.setNetId c netId).Reachable c' := by
    rintro c' hc' hne ⟨hnetId, heq⟩ hreach
    have hfound := hreach.netId
    rw [hother c' hne, heq, hlookup, if_pos rfl] at hfound
    exact hne (Option.some.inj (hfound hnetId)).symm
  obtain ⟨hiff, hsettled⟩ := h.assign_iff (same_setNetId r c netId) hother h.curNetId
    (fun c' => netId ≠ noFinalNetId ∧ (r.objects c').netId = netId) hself (hobject ▸ .inl rfl) hkeep hlose
  refine ⟨hiff.trans ⟨fun hfree hnetId c' hc' hne heq => hfree c' hc' hne ⟨hnetId, heq⟩,
    fun hfree c' hc' hne htaken => hfree htaken.1 c' hc' hne htaken.2⟩, hsettled⟩

theorem setConnectionToken_settled (h : r.Settled) (hc : r.alive c = true) (connectionToken : String) :
    ((r.setConnectionToken c connectionToken).Coherent ↔ r.Orderly (.setConnectionToken c connectionToken)) ∧
      ((r.setConnectionToken c connectionToken).Coherent → (r.setConnectionToken c connectionToken).Settled) := by
  have hother : ∀ c', c' ≠ c → (r.setConnectionToken c connectionToken).objects c' = r.objects c' := fun c' hne =>
    Function.update_of_ne hne ..
  have hobject : (r.setConnectionToken c connectionToken).objects c = { r.objects c with connectionToken } :=
    Function.update_self ..
  have hlookup : ∀ token, (r.setConnectionToken c connectionToken).getClientByConnectionToken token =
      if token = connectionToken then some c else r.getClientByConnectionToken token := by
    intro token
    unfold getClientByConnectionToken
    simp only [setConnectionToken, modify, lock, Function.update_apply]
    split
    · rw [Option.filter_some, hc]
      rfl
    · rfl
  have hself : r.Registered c → (r.setConnectionToken c connectionToken).Reachable c := by
    intro hreg
    have hreach := h.reachable c hreg
    constructor
    · rw [hobject]
      exact hreach.peer
    · rw [hobject]
      exact hreach.netId
    · rw [hobject]
      exact hreach.slotId
    · rw [hobject]
      intro _
      rw [hlookup, if_pos rfl]
  have hkeep : ∀ c', r.Registered c' → c' ≠ c →
      ¬ (connectionToken ≠ "" ∧ (r.objects c').connectionToken = connectionToken) →
        (r.setConnectionToken c connectionToken).Reachable c' := by
    intro c' hc' hne hfree
    refine (h.reachable c' hc').congr (hother c' hne) (fun _ _ => rfl) (fun _ => rfl) (fun _ => rfl) fun hhas => ?_
    rw [hlookup, if_neg]
    rintro rfl
    exact hfree ⟨hhas, rfl⟩
  have hlose : ∀ c', r.Registered c' → c' ≠ c →
      connectionToken ≠ "" ∧ (r.objects c').connectionToken = connectionToken →
        ¬ (r.setConnectionToken c connectionToken).Reachable c' := by
    rintro c' hc' hne ⟨htoken, heq⟩ hreach
    have hfound := hreach.connectionToken
    rw [hother c' hne, heq, hlookup, if_pos rfl] at hfound
    exact hne (Option.some.inj (hfound htoken)).symm
  obtain ⟨hiff, hsettled⟩ := h.assign_iff (same_setConnectionToken r c connectionToken) hother h.curNetId
    (fun c' => connectionToken ≠ "" ∧
      (r.objects c').connectionToken = connectionToken) hself (hobject ▸ .inl rfl) hkeep hlose
  refine ⟨hiff.trans ⟨fun hfree htoken c' hc' hne heq => hfree c' hc' hne ⟨htoken, heq⟩,
    fun hfree c' hc' hne htaken => hfree htaken.1 c' hc' hne htaken.2⟩, hsettled⟩

/-- A free slot is no client's, and not the special one. -/
theorem freeSlot_eq_some {slot : Nat} (h : r.freeSlot = some slot) :
    slot < r.slots ∧ slot ≠ 31 ∧ r.getClientBySlotID slot = none := by
  have hmem := List.mem_of_find?_eq_some h
  have hfree := List.find?_some h
  rw [List.mem_filter, List.mem_reverse, List.mem_range, decide_eq_true_eq] at hmem
  exact ⟨hmem.1, hmem.2, Option.isNone_iff_eq_none.mp hfree⟩

/-- `SetPeer` gives the client no slot, or a free one. -/
theorem setPeer_eq (r : ClientRegistry) (c : ClientPtr) (peer : Nat) : ∃ slotId clientsBySlotId,
    r.setPeer c peer = { r with
      objects := Function.update r.objects c { r.objects c with peer := some peer, slotId }
      clientsByPeer := Function.update r.clientsByPeer peer (some c)
      clientsBySlotId } ∧
    (slotId = (r.objects c).slotId ∧ clientsBySlotId = r.clientsBySlotId ∨
      (r.objects c).slotId = noSlot ∧ slotId < r.slots ∧ slotId ≠ 31 ∧ r.getClientBySlotID slotId = none ∧
        clientsBySlotId = Function.update r.clientsBySlotId slotId (some c)) := by
  have hobject : (r.modify c fun client => { client with peer := some peer }).objects c =
      { r.objects c with peer := some peer } := Function.update_self ..
  unfold setPeer onAssignPeer
  rw [hobject]
  cases hslot : (if (r.modify c fun client => { client with peer := some peer }).oneSync = true ∧
      (r.objects c).slotId = noSlot then (r.modify c fun client => { client with peer := some peer }).freeSlot
        else none) with
  | none => exact ⟨(r.objects c).slotId, r.clientsBySlotId, rfl, .inl ⟨rfl, rfl⟩⟩
  | some slot =>
    obtain ⟨⟨-, hnone⟩, hfree⟩ := Option.ite_none_right_eq_some.mp hslot
    obtain ⟨hlt, hspecial, hfree⟩ := freeSlot_eq_some hfree
    refine ⟨slot, Function.update r.clientsBySlotId slot (some c), ?_, .inr ⟨hnone, hlt, hspecial, hfree, rfl⟩⟩
    simp only [modify, Function.update_self, Function.update_idem]
    rfl

theorem same_setPeer (r : ClientRegistry) (c : ClientPtr) (peer : Nat) : SameClients r (r.setPeer c peer) := by
  obtain ⟨slotId, clientsBySlotId, heq, -⟩ := setPeer_eq r c peer
  rw [heq]
  exact ⟨rfl, rfl, rfl, rfl, rfl, guid_update rfl⟩

theorem setPeer_settled (h : r.Settled) (hc : r.alive c = true) (peer : Nat) :
    ((r.setPeer c peer).Coherent ↔ r.Orderly (.setPeer c peer)) ∧
      ((r.setPeer c peer).Coherent → (r.setPeer c peer).Settled) := by
  obtain ⟨slotId, clientsBySlotId, heq, hslot⟩ := setPeer_eq r c peer
  have hother : ∀ c', c' ≠ c → (r.setPeer c peer).objects c' = r.objects c' := by
    intro c' hne
    rw [heq]
    exact Function.update_of_ne hne ..
  have hobject : (r.setPeer c peer).objects c = { r.objects c with peer := some peer, slotId } := by
    rw [heq]
    exact Function.update_self ..
  have hlookup : ∀ peer', (r.setPeer c peer).getClientByPeer peer' =
      if peer' = peer then some c else r.getClientByPeer peer' := by
    intro peer'
    rw [heq]
    unfold getClientByPeer
    simp only [lock, Function.update_apply]
    split
    · rw [Option.filter_some, hc]
      rfl
    · rfl
  have hlookupSlot : ∀ slotId', (r.setPeer c peer).getClientBySlotID slotId' =
      if slotId' = slotId ∧ (r.objects c).slotId = noSlot ∧ slotId ≠ noSlot then some c
        else r.getClientBySlotID slotId' := by
    intro slotId'
    rw [heq]
    unfold getClientBySlotID
    obtain ⟨rfl, rfl⟩ | ⟨hnone, hlt, -, -, rfl⟩ := hslot
    · rw [if_neg fun hboth => hboth.2.2 hboth.2.1]
      rfl
    · have hne : slotId ≠ noSlot := (hlt.trans_le r.slots_le).ne
      simp only [lock, Function.update_apply, hnone, hne, ne_eq, not_false_eq_true, and_true]
      split
      · rw [Option.filter_some, hc]
        rfl
      · rfl
  have hself : r.Registered c → (r.setPeer c peer).Reachable c := by
    intro hreg
    have hreach := h.reachable c hreg
    constructor
    · rw [hobject]
      intro peer' hhas
      have hhas : some peer = some peer' := hhas
      cases hhas
      rw [hlookup, if_pos rfl]
    · rw [hobject]
      intro hhas
      rw [heq]
      exact hreach.netId hhas
    · rw [hobject]
      intro hhas
      rw [hlookupSlot]
      obtain ⟨rfl, -⟩ | ⟨hnone, -⟩ := hslot
      · rw [if_neg fun hboth => hhas hboth.2.1]
        exact hreach.slotId hhas
      · rw [if_pos ⟨rfl, hnone, hhas⟩]
    · rw [hobject]
      intro hhas
      rw [heq]
      exact hreach.connectionToken hhas
  have hslots : ((r.setPeer c peer).objects c).slotId = (r.objects c).slotId ∨
      ((r.setPeer c peer).objects c).slotId < r.slots ∧ ((r.setPeer c peer).objects c).slotId ≠ 31 := by
    rw [hobject]
    obtain ⟨rfl, -⟩ | ⟨-, hlt, hspecial, -⟩ := hslot
    · exact .inl rfl
    · exact .inr ⟨hlt, hspecial⟩
  have hkeep : ∀ c', r.Registered c' → c' ≠ c → ¬ (r.objects c').peer = some peer →
    (r.setPeer c peer).Reachable c' := by
    intro c' hc' hne hfree
    have hreach := h.reachable c' hc'
    refine hreach.congr (hother c' hne) (fun peer' hhas => ?_) (fun _ => by rw [heq]; rfl) (fun hhas => ?_)
      fun _ => by rw [heq]; rfl
    · rw [hlookup, if_neg]
      rintro rfl
      exact hfree hhas
    · rw [hlookupSlot, if_neg]
      rintro ⟨hsame, hnone, hne'⟩
      obtain ⟨rfl, -⟩ | ⟨-, -, -, hfree, -⟩ := hslot
      · exact hne' hnone
      · rw [← hsame, hreach.slotId hhas] at hfree
        cases hfree
  have hlose : ∀ c', r.Registered c' → c' ≠ c → (r.objects c').peer = some peer →
    ¬ (r.setPeer c peer).Reachable c' := by
    intro c' hc' hne hhas hreach
    have hfound := hreach.peer peer (by rw [hother c' hne]; exact hhas)
    rw [hlookup, if_pos rfl] at hfound
    exact hne (Option.some.inj hfound).symm
  have hcur : 1 ≤ (r.setPeer c peer).curNetId ∧ (r.setPeer c peer).curNetId < noFinalNetId := by
    rw [heq]
    exact h.curNetId
  exact h.assign_iff (same_setPeer r c peer) hother hcur
    (fun c' => (r.objects c').peer = some peer) hself hslots hkeep hlose

theorem incrementId_bounds {netId : Nat} (h : 1 ≤ netId ∧ netId < noFinalNetId) :
    1 ≤ incrementId netId ∧ incrementId netId < noFinalNetId := by
  unfold incrementId noFinalNetId at *
  split
  · omega
  · omega

theorem iterate_incrementId {netId : Nat} (n : Nat) : ∀ cur, 1 ≤ cur ∧ cur < noFinalNetId →
    netId ∈ List.iterate incrementId cur n → 1 ≤ netId ∧ netId < noFinalNetId := by
  induction n with
  | zero =>
    intro cur _ hmem
    cases hmem
  | succ n ih =>
    intro cur hbounds hmem
    rw [List.iterate, List.mem_cons] at hmem
    obtain rfl | hmem := hmem
    · exact hbounds
    · exact ih (incrementId cur) (incrementId_bounds hbounds) hmem

/-- A free net id is final, and no client's. -/
theorem freeNetId_eq_some (h : r.Settled) {netId : Nat} (hfree : r.freeNetId = some netId) :
    (1 ≤ netId ∧ netId < noFinalNetId) ∧ r.getClientByNetID netId = none := by
  have hmem := List.mem_of_find?_eq_some hfree
  have hnone := List.find?_some hfree
  exact ⟨iterate_incrementId 0xFFFE r.curNetId h.curNetId hmem, Option.isNone_iff_eq_none.mp hnone⟩

/-- A free net id is no registered client's. -/
theorem handleConnectingClient_settled (h : r.Settled) (hc : r.alive c = true)
    (hstep : r.handleConnectingClient c = some r') : r'.Settled := by
  obtain ⟨netId, hfree, rfl⟩ := Option.map_eq_some_iff.mp hstep
  obtain ⟨hbounds, hnone⟩ := freeNetId_eq_some h hfree
  obtain ⟨hiff, hsettled⟩ := setNetId_settled h hc netId
  have hset : (r.setNetId c netId).Settled := by
    refine hsettled (hiff.mpr fun _ c' hc' hne heq => ?_)
    have hfound := (h.reachable c' hc').netId (heq ▸ hbounds.2.ne)
    rw [heq, hnone] at hfound
    cases hfound
  refine hset.of_same ⟨rfl, rfl, rfl, rfl, rfl, fun _ => rfl⟩ (fun c' hc' => ?_) (fun _ => .inl rfl)
    (incrementId_bounds hbounds)
  exact (hset.reachable c' hc').congr rfl (fun _ _ => rfl) (fun _ => rfl) (fun _ => rfl) fun _ => rfl

theorem makeClient_settled (h : r.Settled) (guid : String) :
    ((r.makeClient guid).Coherent ↔ r.Orderly (.makeClient guid)) ∧
      ((r.makeClient guid).Coherent → (r.makeClient guid).Settled) := by
  have hlt : ∀ c, r.Registered c → c < r.nextClient := fun c hc => h.alive_lt c (h.alive hc)
  have hback : (r.makeClient guid).Coherent → r.Orderly (.makeClient guid) := by
    intro hcoherent
    have hfound := hcoherent.newest guid r.nextClient (Function.update_self ..)
    cases hold : r.clients guid with
    | none => exact hold
    | some c =>
      simp only [getClientByGuid, makeClient, hold, Option.isSome_some, if_true] at hfound
      have hnew := h.alive_lt c (h.table guid c hold).2.1
      rw [Option.some.inj hfound] at hnew
      exact absurd hnew (lt_irrefl _)
  have hforth : r.Orderly (.makeClient guid) → (r.makeClient guid).Settled := by
    intro hfree
    have hfree : r.clients guid = none := hfree
    have hclients : (r.makeClient guid).clients = Function.update r.clients guid (some r.nextClient) := by
      simp only [makeClient, hfree, Option.isSome_none, Bool.false_eq_true, if_false]
    have hold : ∀ c, c < r.nextClient → (r.makeClient guid).objects c = r.objects c ∧
        (r.makeClient guid).alive c = r.alive c := fun c hc =>
      ⟨Function.update_of_ne hc.ne .., Function.update_of_ne hc.ne ..⟩
    have hnew : (r.makeClient guid).objects r.nextClient = { guid } := Function.update_self ..
    have hlock : ∀ ref c, r.lock ref = some c → (r.makeClient guid).lock ref = some c := by
      intro ref c hfound
      rw [lock_eq_some] at hfound ⊢
      exact ⟨hfound.1, (hold c (h.alive_lt c hfound.2)).2.trans hfound.2⟩
    have htable : ∀ guid' c, (r.makeClient guid).clients guid' = some c →
        guid' = guid ∧ c = r.nextClient ∨ guid' ≠ guid ∧ r.clients guid' = some c := by
      intro guid' c hfound
      rw [hclients, Function.update_apply] at hfound
      split at hfound
      · exact .inl ⟨‹_›, (Option.some.inj hfound).symm⟩
      · exact .inr ⟨‹_›, hfound⟩
    refine ⟨coherent_of ?_ ?_ ?_, ?_, ?_, ?_, h.curNetId⟩
    · intro guid' c hnewest
      have hnewest : Function.update r.newest guid (some r.nextClient) guid' = some c := hnewest
      rw [getClientByGuid, hclients]
      rw [Function.update_apply] at hnewest ⊢
      split at hnewest
      · rw [if_pos ‹_›]
        exact hnewest
      · rw [if_neg ‹_›]
        exact h.newest guid' c hnewest
    · intro c hc
      obtain ⟨-, rfl⟩ | ⟨-, hreg⟩ := htable _ c hc
      · constructor
        · rw [hnew]
          exact fun _ hhas => nomatch hhas
        · rw [hnew]
          exact fun hhas => absurd rfl hhas
        · rw [hnew]
          exact fun hhas => absurd rfl hhas
        · rw [hnew]
          exact fun hhas => absurd rfl hhas
      · have hmade : c < r.nextClient := h.alive_lt c (h.table _ c hreg).2.1
        rw [(hold c hmade).1] at hreg
        have hreach := h.reachable c hreg
        constructor
        · rw [(hold c hmade).1]
          exact fun peer hhas => hlock _ _ (hreach.peer peer hhas)
        · rw [(hold c hmade).1]
          exact fun hhas => hlock _ _ (hreach.netId hhas)
        · rw [(hold c hmade).1]
          exact fun hhas => hlock _ _ (hreach.slotId hhas)
        · rw [(hold c hmade).1]
          exact fun hhas => hlock _ _ (hreach.connectionToken hhas)
    · intro c
      by_cases hc : c = r.nextClient
      · rw [hc, hnew]
        exact (by decide : noSlot ≠ 31)
      · have hsame : (r.makeClient guid).objects c = r.objects c := Function.update_of_ne hc ..
        rw [hsame]
        exact h.special c
    · intro c hc
      have hc : Function.update r.alive r.nextClient true c = true := hc
      rw [Function.update_apply] at hc
      split at hc
      · rename_i heq
        rw [heq]
        exact Nat.lt_succ_self r.nextClient
      · exact (h.alive_lt c hc).trans (Nat.lt_succ_self r.nextClient)
    · intro guid' c hfound
      obtain ⟨rfl, rfl⟩ | ⟨hne, hreg⟩ := htable guid' c hfound
      · rw [hnew]
        exact ⟨rfl, Function.update_self .., Function.update_self ..⟩
      · obtain ⟨hguid, halive, hnewest⟩ := h.table guid' c hreg
        obtain ⟨hobject, hsame⟩ := hold c (h.alive_lt c halive)
        rw [hobject, hsame]
        exact ⟨hguid, halive, (Function.update_of_ne hne ..).trans hnewest⟩
    · intro c hslot
      by_cases hc : c = r.nextClient
      · rw [hc, hnew] at hslot
        exact absurd rfl hslot
      · have hsame : (r.makeClient guid).objects c = r.objects c := Function.update_of_ne hc ..
        rw [hsame] at hslot ⊢
        exact h.slotId_lt c hslot
  exact ⟨⟨hback, fun hfree => (hforth hfree).toCoherent⟩, fun hcoherent => hforth (hback hcoherent)⟩

theorem lock_update {K : Type*} [DecidableEq K] {key key' : K} {table : K → Option ClientPtr} :
    r.lock (Function.update table key none key') = if key' = key then none else r.lock (table key') := by
  rw [Function.update_apply]
  split
  · rfl
  · rfl

theorem removeClient_settled (h : r.Settled) (c : ClientPtr) :
    ((r.removeClient c).Coherent ↔ r.Orderly (.removeClient c)) ∧
      ((r.removeClient c).Coherent → (r.removeClient c).Settled) := by
  have hother : ∀ c', c' ≠ c → (r.removeClient c).objects c' = r.objects c' :=
    fun c' hne => Function.update_of_ne hne ..
  have hobject : (r.removeClient c).objects c = { r.objects c with slotId := noSlot } := Function.update_self ..
  have hguid : ∀ c', ((r.removeClient c).objects c').guid = (r.objects c').guid := by
    intro c'
    by_cases hne : c' = c
    · rw [hne, hobject]
    · rw [hother c' hne]
  have hclients : ∀ guid, (r.removeClient c).clients guid =
      if guid = (r.objects c).guid then none else r.clients guid := fun guid => Function.update_apply ..
  have hreg : ∀ c', (r.removeClient c).Registered c' ↔ (r.objects c').guid ≠ (r.objects c).guid ∧ r.Registered c' := by
    intro c'
    rw [Registered, hguid, hclients, Registered]
    split
    · rename_i heq
      exact ⟨fun hnone => absurd hnone.symm (Option.some_ne_none c'), fun hboth => absurd heq hboth.1⟩
    · rename_i hne
      exact ⟨fun hsome => ⟨hne, hsome⟩, And.right⟩
  have hnewest : ∀ guid, guid ≠ (r.objects c).guid ∨ r.newest (r.objects c).guid ≠ some c →
      (r.removeClient c).newest guid = r.newest guid := by
    intro guid hkept
    simp only [removeClient]
    split
    · rename_i hsame
      exact Function.update_of_ne (hkept.resolve_right (not_not.mpr hsame)) ..
    · rfl
  have hpeer : ∀ peer, (r.removeClient c).getClientByPeer peer =
      if peer = (r.objects c).getPeer then none else r.getClientByPeer peer := fun _ => lock_update
  have hnetId : ∀ netId, (r.removeClient c).getClientByNetID netId =
      if netId = (r.objects c).netId then none else r.getClientByNetID netId := fun _ => lock_update
  have hslotId : ∀ slotId, slotId ≠ noSlot → (r.objects c).slotId = slotId →
      (r.removeClient c).getClientBySlotID slotId = none := by
    rintro slotId hslot rfl
    simp only [getClientBySlotID, removeClient, h.slotId_lt c hslot, if_true]
    exact lock_update.trans (if_pos rfl)
  have hslotId' : ∀ slotId, (r.objects c).slotId ≠ slotId →
      (r.removeClient c).getClientBySlotID slotId = r.getClientBySlotID slotId := by
    intro slotId hne
    simp only [getClientBySlotID, removeClient]
    split
    · exact lock_update.trans (if_neg hne.symm)
    · rfl
  have htoken : ∀ token, (r.removeClient c).getClientByConnectionToken token =
      if token = (r.objects c).connectionToken then none else r.getClientByConnectionToken token :=
        fun _ => lock_update
  have hback : (r.removeClient c).Coherent → r.RemovesAlone c := by
    intro hcoherent c' hc' hne
    have hguid' : (r.objects c').guid ≠ (r.objects c).guid := by
      intro heq
      have hlast := h.newest_of_registered hc'
      have hkept := (hnewest (r.objects c').guid (.inr (by
        rw [← heq, hlast]
        exact fun hsame => hne (Option.some.inj hsame)))).trans hlast
      have hfound := hcoherent.newest _ _ hkept
      rw [getClientByGuid, hclients, if_pos heq] at hfound
      cases hfound
    have hreach := hcoherent.reachable c' ((hreg c').mpr ⟨hguid', hc'⟩)
    refine ⟨hguid', fun hhas => ?_, fun heq => ?_, fun heq => ?_, fun heq => ?_⟩
    · have hfound := hreach.peer (r.objects c).getPeer (by rw [hother c' hne]; exact hhas)
      rw [hpeer, if_pos rfl] at hfound
      cases hfound
    · by_contra hhas
      have hfound := hreach.netId
      rw [hother c' hne, hnetId, if_pos heq] at hfound
      exact nomatch hfound hhas
    · by_contra hhas
      have hfound := hreach.slotId
      rw [hother c' hne, hslotId _ hhas heq.symm] at hfound
      exact nomatch hfound hhas
    · by_contra hhas
      have hfound := hreach.connectionToken
      rw [hother c' hne, htoken, if_pos heq] at hfound
      exact nomatch hfound hhas
  have hforth : r.RemovesAlone c → (r.removeClient c).Settled := by
    intro halone
    have hkept : ∀ c', r.Registered c' → (r.objects c').guid ≠ (r.objects c).guid →
      (r.removeClient c).Reachable c' := by
      intro c' hc' hguid'
      have hne : c' ≠ c := by
        rintro rfl
        exact hguid' rfl
      obtain ⟨-, hpeer', hnetId', hslotId'', htoken'⟩ := halone c' hc' hne
      refine (h.reachable c' hc').congr (hother c' hne) (fun peer hhas => ?_) (fun hhas => ?_)
        (fun hhas => ?_) fun hhas => ?_
      · rw [hpeer, if_neg]
        rintro rfl
        exact hpeer' hhas
      · rw [hnetId, if_neg fun heq => hhas (hnetId' heq)]
      · rw [hslotId' _ fun heq => hhas (hslotId'' heq.symm)]
      · rw [htoken, if_neg fun heq => hhas (htoken' heq)]
    refine ⟨coherent_of ?_ (fun c' hc' => ?_) fun c' => ?_, h.alive_lt, ?_, fun c' hslot => ?_, h.curNetId⟩
    · intro guid c' hlast
      have hnot : guid ≠ (r.objects c).guid := by
        rintro rfl
        by_cases hsame : r.newest (r.objects c).guid = some c
        · simp only [removeClient, hsame, if_true, Function.update_self] at hlast
          cases hlast
        · rw [hnewest _ (.inr hsame)] at hlast
          obtain ⟨hc', hguid'⟩ := h.registered hlast
          have hne : c' ≠ c := by
            rintro rfl
            exact hsame hlast
          exact (halone c' hc' hne).1 hguid'
      rw [hnewest guid (.inl hnot)] at hlast
      rw [getClientByGuid, hclients, if_neg hnot]
      exact h.newest guid c' hlast
    · obtain ⟨hguid', hc'⟩ := (hreg c').mp hc'
      exact hkept c' hc' hguid'
    · by_cases hne : c' = c
      · rw [hne, hobject]
        exact (by decide : noSlot ≠ 31)
      · rw [hother c' hne]
        exact h.special c'
    · intro guid c' hfound
      rw [hclients] at hfound
      split at hfound
      · cases hfound
      · rename_i hnot
        rw [hguid, hnewest guid (.inl hnot)]
        exact h.table guid c' hfound
    · by_cases hne : c' = c
      · rw [hne, hobject] at hslot
        exact absurd rfl hslot
      · rw [hother c' hne] at hslot ⊢
        exact h.slotId_lt c' hslot
  exact ⟨⟨hback, fun halone => (hforth halone).toCoherent⟩, fun hcoherent => hforth (hback hcoherent)⟩

/-- An object that the registry does not have leads nowhere. -/
theorem destroy_settled (h : r.Settled) (hc : ¬ r.Registered c) :
    Settled { r with alive := Function.update r.alive c false } := by
  have hlock : ∀ ref c', c' ≠ c → r.lock ref = some c' →
      ({ r with alive := Function.update r.alive c false } : ClientRegistry).lock ref = some c' := by
    intro ref c' hne hfound
    rw [lock_eq_some] at hfound ⊢
    exact ⟨hfound.1, (Function.update_of_ne hne ..).trans hfound.2⟩
  have hne : ∀ c', r.Registered c' → c' ≠ c := by
    rintro c' hc' rfl
    exact hc hc'
  refine ⟨coherent_of h.newest (fun c' hc' => ?_) h.special, fun c' halive => ?_, fun guid c' hfound => ?_,
    h.slotId_lt, h.curNetId⟩
  · have hreach := h.reachable c' hc'
    exact ⟨fun peer hhas => hlock _ c' (hne c' hc') (hreach.peer peer hhas),
      fun hhas => hlock _ c' (hne c' hc') (hreach.netId hhas), fun hhas => hlock _ c' (hne c' hc')
        (hreach.slotId hhas),
      fun hhas => hlock _ c' (hne c' hc') (hreach.connectionToken hhas)⟩
  · have halive : Function.update r.alive c false c' = true := halive
    rw [Function.update_apply] at halive
    split at halive
    · cases halive
    · exact h.alive_lt c' halive
  · obtain ⟨hguid, halive, hlast⟩ := h.table guid c' hfound
    have hreg : r.Registered c' := by
      rw [Registered, hguid]
      exact hfound
    exact ⟨hguid, (Function.update_of_ne (hne c' hreg) ..).trans halive, hlast⟩

theorem Settled.step_iff (h : r.Settled) {a : Action} (hstep : r.step a = some r') :
    (r'.Coherent ↔ r.Orderly a) ∧ (r'.Coherent → r'.Settled) := by
  cases a with
  | makeClient guid =>
    cases hstep
    exact makeClient_settled h guid
  | setPeer c peer =>
    obtain ⟨hc, heq⟩ := Option.ite_none_right_eq_some.mp hstep
    cases heq
    exact setPeer_settled h hc peer
  | setNetId c netId =>
    obtain ⟨hc, heq⟩ := Option.ite_none_right_eq_some.mp hstep
    cases heq
    exact setNetId_settled h hc netId
  | setConnectionToken c connectionToken =>
    obtain ⟨hc, heq⟩ := Option.ite_none_right_eq_some.mp hstep
    cases heq
    exact setConnectionToken_settled h hc connectionToken
  | handleConnectingClient c =>
    obtain ⟨hc, heq⟩ := Option.ite_none_right_eq_some.mp hstep
    have hsettled := handleConnectingClient_settled h hc heq
    exact ⟨iff_of_true hsettled.toCoherent trivial, fun _ => hsettled⟩
  | removeClient c =>
    obtain ⟨-, heq⟩ := Option.ite_none_right_eq_some.mp hstep
    cases heq
    exact removeClient_settled h c
  | destroy c =>
    obtain ⟨⟨-, hc⟩, heq⟩ := Option.ite_none_right_eq_some.mp hstep
    cases heq
    have hsettled := destroy_settled h hc
    exact ⟨iff_of_true hsettled.toCoherent trivial, fun _ => hsettled⟩

/-- The registry is coherent all along a run exactly when every call of the run is orderly. Either mode of OneSync
is allowed; each direction is per call, and an induction on the run lifts it. -/
theorem run_coherent_iff (oneSync bigMode : Bool) (acts : List Action) (r : ClientRegistry) :
    Transition.Run step KeepsCoherent (empty oneSync bigMode) acts r ↔
      Transition.Run step Orderly (empty oneSync bigMode) acts r := by
  have hinit := settled_empty oneSync bigMode
  constructor
  · exact fun hrun => hrun.upgrade Settled hinit (fun h hkeeps hstep => (h.step_iff hstep).2 (hkeeps _ hstep))
      fun h hkeeps hstep => (h.step_iff hstep).1.mp (hkeeps _ hstep)
  · refine fun hrun => hrun.upgrade Settled hinit (fun h hok hstep => ?_) fun h hok _ r' hstep => ?_
    · obtain ⟨hiff, hsettled⟩ := h.step_iff hstep
      exact hsettled (hiff.mpr hok)
    · exact (h.step_iff hstep).1.mpr hok

/-- A client reconnects while its last one is still being dropped: no one is registered under its guid in the end. -/
theorem run_reconnect : ∃ acts r, Transition.Run step (fun _ _ => True) (empty true false) acts r ∧ ¬ r.Coherent := by
  have hend : ((Transition.exec step (empty true false) [.makeClient "g", .makeClient "g", .removeClient 0]).any
    fun r =>
      r.newest "g" == some 1 && r.clients "g" == none) = true := by decide +kernel
  obtain ⟨r, hrun, hr⟩ := Transition.exists_run hend
  refine ⟨_, r, hrun, fun h => ?_⟩
  rw [Bool.and_eq_true, beq_iff_eq, beq_iff_eq] at hr
  have hfound := h.newest "g" 1 hr.1
  rw [getClientByGuid, hr.2] at hfound
  cases hfound

end ClientRegistry

end fx
